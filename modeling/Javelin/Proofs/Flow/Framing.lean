import Javelin.Proofs.Flow.Meaning
import Javelin.Proofs.Flow.Tracking

/-!
# Walks inside frames

The rules for pieces that are walked inside a frame of their own: labeled statements, switches, the
rounds of loops and blocks with a final block. A jump that ends at the frame is covered by what the
frame recorded of it, and the others go on outward.
-/

namespace Javelin.Flow

variable {c : Concern} {p : Program} {D D₁ D₂ D₃ : List Symbol} {a a' a₁ a₂ : Analysis}
  {s s' s₁ s₂ : Inits} {B C T F R : Behavior} {σ : Store} {r : Outcome} {f g : Frame}
  {gs : List Frame}

/-! ## Entering and leaving frames -/

/-- The analysis inside a further frame. -/
def Analysis.push (a : Analysis) (f : Frame) : Analysis := { a with frames := f :: a.frames }

/-- The analysis with other frames around it. -/
def Analysis.around (a : Analysis) (fs : List Frame) : Analysis := { a with frames := fs }

theorem walks_inFrame {α : Type} {m : Analyzer α} {x : α × Frame} (h : Walks (inFrame f m) a x a') :
    ∃ a₁, Walks m (a.push f) x.1 a₁ ∧ x.2 = a₁.frames.headD f ∧ a' = a₁.around a₁.frames.tail := by
  obtain ⟨y, a₁, h₁, h₂⟩ := walks_bind (walks_modifyBind h)
  have h₃ := walks_getBind h₂
  have h₄ := walks_modifyBind h₃
  obtain ⟨rfl, rfl⟩ := walks_pure h₄
  exact ⟨a₁, h₁, rfl, rfl⟩

theorem Ready.push (h : Ready p D a s) (hf : f.Below a.nextSlot) : Ready p D (a.push f) s where
  tidy := ⟨h.tidy.program, h.tidy.below, h.tidy.distinct, by
    simpa [Analysis.push, hf] using h.tidy.frames⟩
  below := h.below
  nodup := h.nodup
  fresh := h.fresh

/-- What is known of the frames after a walk inside a further one. -/
structure Framed (c : Concern) (p : Program) (D : List Symbol) (a : Analysis) (f : Frame)
    (a₁ : Analysis) (g : Frame) (gs : List Frame) : Prop where
  frames : a₁.frames = g :: gs
  weakens : f.Weakens g
  below : g.Below a₁.nextSlot
  tidy : Tidy p (a₁.around gs)
  grows : Grows c D a (a₁.around gs)

theorem framed (ht : Tidy p a₁) (hg : Grows c D (a.push f) a₁) :
    ∃ g gs, Framed c p D a f a₁ g gs := by
  have hw := hg.frames
  simp only [Analysis.push] at hw
  cases hfs : a₁.frames with
  | nil =>
    rw [hfs] at hw
    cases hw
  | cons g gs =>
    rw [hfs] at hw
    have hb := ht.frames
    simp only [hfs, List.mem_cons, forall_eq_or_imp] at hb
    cases hw with
    | cons h₁ h₂ =>
      exact ⟨g, gs, hfs, h₁, hb.1, ⟨ht.program, ht.below, ht.distinct, hb.2⟩,
        ⟨hg.kept, hg.fresh, hg.nextSlot, h₂, hg.reported⟩⟩

/-- The walk inside a further frame, and what is left of the frame after it. -/
theorem walks_framed {α : Type} {m : Analyzer α} {x : α × Frame} (h : Walks (inFrame f m) a x a') :
    ∃ a₁, Walks m (a.push f) x.1 a₁ ∧ ∀ {c p D}, Tidy p a₁ → Grows c D (a.push f) a₁ →
      ∃ gs, Framed c p D a f a₁ x.2 gs ∧ a' = a₁.around gs := by
  obtain ⟨a₁, hw, hx, rfl⟩ := walks_inFrame h
  refine ⟨a₁, hw, fun ht hg => ?_⟩
  obtain ⟨g, gs, hf⟩ := framed ht hg
  rw [hf.frames] at hx ⊢
  exact ⟨gs, hx ▸ hf, rfl⟩

/-- Whether the jumps of some kind end at a frame, which recorded them as a state. -/
structure Ends (g : Frame) (isOwn : Jump → Bool) (e : Inits) : Prop where
  own : ∀ j t gs, isOwn j → Recorded j t (g :: gs) → t.Weakens e
  other : ∀ j t gs, isOwn j = false → Recorded j t (g :: gs) → Recorded j t gs

theorem ends_switch (breaks yields : Inits) :
    Ends (.switch false breaks yields) (· == .break none) breaks := by
  constructor
  · intro j t fs hj hrec
    obtain rfl : j = .break none := by simpa using hj
    exact hrec
  · rintro (⟨_ | l⟩ | l | _ | _) t fs hj hrec
    · simp at hj
    all_goals exact hrec

theorem ends_labeled (label : Text) (breaks : Inits) :
    Ends (.labeled label breaks) (· == .break (some label)) breaks := by
  constructor
  · intro j t fs hj hrec
    obtain rfl : j = .break (some label) := by simpa using hj
    simpa [Recorded] using hrec
  · rintro (⟨_ | l⟩ | l | _ | _) t fs hj hrec
    · exact hrec
    · have : label ≠ l := fun e => by simp [e] at hj
      simpa [Recorded, this] using hrec
    all_goals exact hrec

/-- Leaving a frame that none of the jumps ends at. -/
theorem Reaches.pop (h : Reaches c p a₁ s σ r) (hf : a₁.frames = g :: gs)
    (hj : ∀ j t, r = .jump j → Recorded j t (g :: gs) → Recorded j t gs) :
    Reaches c p (a₁.around gs) s σ r := by
  cases r with
  | done => exact h
  | truth b => exact h
  | jump j =>
    obtain ⟨t, ht, hr⟩ := h
    rw [hf] at hr
    exact ⟨t, ht, hj j t rfl hr⟩
  | throw => trivial

theorem Sound.pop (h : Sound c p D (a.push f) s B a₁ s') (hf : Framed c p D a f a₁ g gs)
    (hj : ∀ es j t, B es (.jump j) → Recorded j t (g :: gs) → Recorded j t gs) :
    Sound c p D a s B (a₁.around gs) s' where
  tidy := hf.tidy
  below := h.below
  grows := hf.grows
  runs hq σ es r hσ hr := by
    obtain ⟨safe, reach⟩ := h.runs hq σ es r hσ hr
    refine ⟨safe, reach.pop hf.frames fun j t hrj => ?_⟩
    subst hrj
    exact hj es j t hr

/-- A piece whose own jumps end at its frame. -/
theorem Sound.absorb {isOwn : Jump → Bool} {e u : Inits} (h : Sound c p D (a.push f) s B a₁ s')
    (hf : Framed c p D a f a₁ g gs) (he : Ends g isOwn e) (hs : s'.Weakens u) (hu : e.Weakens u)
    (hb : u.Below a₁.nextSlot) : Sound c p D a s (B.absorb isOwn) (a₁.around gs) u where
  tidy := hf.tidy
  below := hb
  grows := hf.grows
  runs hq σ es r hσ hr := by
    obtain ⟨hr, htruth, hother⟩ | ⟨j, hown, hr, rfl⟩ := hr
    · obtain ⟨safe, reach⟩ := h.runs hq σ es r hσ hr
      refine ⟨safe, ?_⟩
      cases r with
      | done => exact Covers.weaken reach hs
      | truth b => exact absurd rfl (htruth b)
      | jump j => exact (reach.pop hf.frames fun j' t hj hrec => by
          cases hj
          exact he.other j t gs (hother j rfl) hrec).abrupt rfl u
      | throw => trivial
    · obtain ⟨safe, t, ht, hrec⟩ := h.runs hq σ es _ hσ hr
      rw [hf.frames] at hrec
      exact ⟨safe, ht.weaken ((he.own j t gs hown hrec).trans hu)⟩

/-- An expression that ends the jumps out of it. -/
theorem Sound.absorbAll {isOwn : Jump → Bool} {e u : Inits}
    (h : Sound c p D (a.push f) s B a₁ s') (hf : Framed c p D a f a₁ g gs)
    (he : ∀ j t gs, isOwn j → Recorded j t (g :: gs) → t.Weakens e)
    (hs : s'.Weakens u) (hu : e.Weakens u) (hb : u.Below a₁.nextSlot) :
    Sound c p D a s (B.absorb isOwn).evaluated (a₁.around gs) u where
  tidy := hf.tidy
  below := hb
  grows := hf.grows
  runs hq σ es r hσ hr := by
    have key : ∀ r', B.absorb isOwn es r' → c.Safe p σ es ∧
        (r' = .done → Reaches c p (a₁.around gs) u (σ.after es) .done) := by
      rintro r' (⟨hr, -, -⟩ | ⟨j, hown, hr, rfl⟩)
      · obtain ⟨safe, reach⟩ := h.runs hq σ es r' hσ hr
        refine ⟨safe, ?_⟩
        rintro rfl
        exact Covers.weaken reach hs
      · obtain ⟨safe, t, ht, hrec⟩ := h.runs hq σ es _ hσ hr
        rw [hf.frames] at hrec
        exact ⟨safe, fun _ => ht.weaken ((he j t gs hown hrec).trans hu)⟩
    obtain ⟨hr, rfl | rfl⟩ := hr
    · obtain hr | ⟨h', -⟩ := hr
      · exact ⟨(key _ hr).1, (key _ hr).2 rfl⟩
      · cases h'
    · obtain hr | ⟨-, rfl | ⟨o, ho⟩⟩ := hr
      · exact ⟨(key _ hr).1, trivial⟩
      · exact ⟨trivial, trivial⟩
      · exact ⟨(key _ ho).1, trivial⟩

/-! ## Loops -/

/-- The frame of a loop after a walk inside it. -/
theorem Frame.Weakens.loop_eq {labels : List Text} {b k : Inits}
    (h : Frame.Weakens (.loop labels b k) g) :
    g = .loop labels g.loopExits.1 g.loopExits.2 := by
  cases h
  rfl

theorem recorded_loop {labels : List Text} {b k t : Inits} {j : Jump}
    (h : Recorded j t (.loop labels b k :: gs)) (hb : j ≠ .break none)
    (hc : Run.continues labels j = false) : Recorded j t gs := by
  cases j with
  | «break» label =>
    cases label with
    | none => exact absurd rfl hb
    | some l => exact h
  | «continue» label =>
    simp only [Run.continues] at hc
    simpa [Recorded, hc] using h
  | _ => exact h

theorem recorded_continue {labels : List Text} {b k t : Inits} {j : Jump}
    (h : Recorded j t (.loop labels b k :: gs)) (hc : Run.continues labels j) : t.Weakens k := by
  cases j with
  | «continue» label =>
    simp only [Run.continues] at hc
    simpa [Recorded, hc] using h
  | _ => simp [Run.continues] at hc

/-- The jumps that leave the body of a loop do not end at the loop. -/
theorem Behavior.turn_jump {isOwn : Jump → Bool} {es : List Event} {j : Jump}
    (h : B.turn isOwn es (.jump j)) : j ≠ .break none ∧ isOwn j = false := by
  obtain ⟨-, h⟩ | ⟨-, h⟩ | ⟨⟨-, -, h⟩ | ⟨_, -, -, h⟩, -, hb⟩ := h
  · cases h
  · cases h
  · exact ⟨fun hj => hb (hj ▸ rfl), h j rfl⟩
  · cases h

/-- The body of a loop: it goes on from where the body ends or is continued, and the loop ends where
it is left by a break. -/
theorem Sound.turn {labels : List Text} {b k : Inits} (h : Sound c p D a s B a₁ s')
    (hf : a₁.frames = .loop labels b k :: gs) :
    Sound c p D a s (B.turn (Run.continues labels)) a₁ (.split (s'.merge k) b) where
  tidy := h.tidy
  below := by
    have := h.tidy.frames (.loop labels b k) (by simp [hf])
    exact ⟨h.below.merge this.2, this.1⟩
  grows := h.grows
  runs hq σ es r hσ hr := by
    obtain ⟨⟨hr, -, -⟩ | ⟨j, hown, hr, -⟩, rfl⟩ | ⟨hr, rfl⟩ | ⟨hr, habrupt, hb⟩ := hr
    · obtain ⟨safe, reach⟩ := h.runs hq σ es _ hσ hr
      exact ⟨safe, Covers.weaken reach (Inits.weakens_merge_left _ _)⟩
    · obtain ⟨safe, t, ht, hrec⟩ := h.runs hq σ es _ hσ hr
      rw [hf] at hrec
      exact ⟨safe, ht.weaken ((recorded_continue hrec hown).trans (Inits.weakens_merge_right _ _))⟩
    · obtain ⟨safe, t, ht, hrec⟩ := h.runs hq σ es _ hσ hr
      rw [hf] at hrec
      exact ⟨safe, ht.weaken hrec⟩
    · obtain ⟨hr, -, -⟩ | ⟨_, -, -, rfl⟩ := hr
      · obtain ⟨safe, reach⟩ := h.runs hq σ es _ hσ hr
        exact ⟨safe, reach.abrupt habrupt _⟩
      · simp [Outcome.isAbrupt] at habrupt

/-- Round after round. What a round assigns was allowed for in the state that it starts from, so
that state covers the start of the next one. -/
theorem Sound.rounds {ns : List Nat} {W : Symbol → Prop} {t u : Inits}
    (h : Sound c p D a (s.allow ns) R a' (.split t u)) (hR : R.Settles W [])
    (hW : ∀ (v : Symbol) n, W v → a.slots[v]? = some n → n ∈ ns) :
    Sound c p D a s R.rounds a' u where
  tidy := h.tidy
  below := h.below.2
  grows := h.grows
  runs hq σ es r hσ hr := by
    have start := hσ.allow ns
    clear hσ
    induction hr generalizing σ with
    | next h₁ _ ih =>
      obtain ⟨safe₁, -⟩ := h.runs hq σ _ _ start h₁
      obtain ⟨safe₂, reach⟩ := ih _ (start.settled (hR _ _ h₁ σ) hW)
      rw [Store.after_append]
      exact ⟨safe₁.append safe₂, reach⟩
    | stop h₁ => exact h.runs hq σ _ _ start h₁
    | leave h₁ habrupt =>
      obtain ⟨safe, reach⟩ := h.runs hq σ _ _ start h₁
      exact ⟨safe, reach.abrupt habrupt _⟩

/-- The states in which a loop goes on and ends after its condition. -/
theorem Sound.loopTest {cond : Option Bool} {q : Inits} (h : Sound c p D a s C a₁ q)
    (hc : ∀ es b, C es (.truth b) → cond.all (· == b)) (hd : ∀ es, ¬ C es .done) :
    Sound c p D a s C a₁
      (.split (if cond == some false then .dead else q.whenTrue) (loopExit cond q)) where
  tidy := h.tidy
  below := by
    refine ⟨?_, ?_⟩
    · split
      · trivial
      · exact h.below.whenTrue
    · unfold loopExit
      split
      · trivial
      · exact h.below.whenFalse
  grows := h.grows
  runs hq σ es r hσ hr := by
    obtain ⟨safe, reach⟩ := h.runs hq σ es r hσ hr
    refine ⟨safe, ?_⟩
    cases r with
    | done => exact absurd hr (hd es)
    | truth b =>
      have := hc es b hr
      rcases cond with _ | _ | _ <;> cases b <;> simp_all [Reaches, Inits.whenTrue, Inits.whenFalse, loopExit]
    | jump j => exact reach
    | throw => trivial

/-- A loop that ends after the first or the second of two tests. -/
theorem Sound.thenTest {go exit t f u : Inits} (hC : Sound c p D₁ a s C a₁ (.split go exit))
    (hT : Sound c p D₂ a₁ go T a₂ (.split t f)) (dT : ∀ es, ¬ T es .done) (he : exit.Weakens u)
    (hf : f.Weakens u) (hu : u.Below a₂.nextSlot) :
    Sound c p (D₁ ++ D₂) a s (C.branch T (.finish (.truth false))) a₂ (.split t u) := by
  have exit_below := hC.below.2.mono hT.grows.nextSlot
  have ended := sound_truth (c := c) (D := []) ⟨hT.tidy, exit_below, List.nodup_nil, by simp⟩ false
  have whole := hC.branch hT ended (u := .split t u) ⟨hT.below.1, hu⟩
    (fun σ es r hr reach => reach.split (by rintro rfl; exact dT es hr) (.refl _) hf)
    fun σ es r hr reach => by
      obtain ⟨-, rfl⟩ := hr
      exact Covers.weaken reach he
  simpa using whole

/-- A loop that may also end where another state says. -/
theorem Sound.weakenExit {t f u : Inits} (h : Sound c p D a s B a' (.split t f))
    (dB : ∀ es, ¬ B es .done) (hf : f.Weakens u) (hu : u.Below a'.nextSlot) :
    Sound c p D a s B a' (.split t u) where
  tidy := h.tidy
  below := ⟨h.below.1, hu⟩
  grows := h.grows
  runs hq σ es r hσ hr := by
    obtain ⟨safe, reach⟩ := h.runs hq σ es r hσ hr
    refine ⟨safe, reach.split ?_ (.refl _) hf⟩
    rintro rfl
    exact dB es hr

/-- The loop goes on. -/
theorem sound_again (hr : Ready p D a s) :
    Sound c p D a s (.finish (.truth true)) a (.split s .dead) where
  tidy := hr.tidy
  below := ⟨hr.below, trivial⟩
  grows := .refl a
  runs := by
    rintro - σ _ _ hσ ⟨rfl, rfl⟩
    exact ⟨trivial, hσ⟩

/-- The loop ends. -/
theorem sound_exit {go u : Inits} (ht : Tidy p a) (hgo : go.Below a.nextSlot)
    (hu : u.Below a.nextSlot) (hs : s.Weakens u) :
    Sound c p D a s (.finish (.truth false)) a (.split go u) where
  tidy := ht
  below := ⟨hgo, hu⟩
  grows := .refl a
  runs := by
    rintro - σ _ _ hσ ⟨rfl, rfl⟩
    exact ⟨trivial, hσ.weaken hs⟩

/-! ## Try statements -/

/-- Handlers of a piece. They start in a state that covers the stores in which the piece may throw,
and end in one that also covers where the piece ends. -/
theorem Sound.handled {H : Behavior} {e : Inits} (hB : Sound c p D₁ a s B a₁ s₁)
    (hH : Sound c p D₂ a₁ e H a₂ s₂) (hs : s₁.Weakens s₂)
    (he : c.count a₁ = c.count a → ∀ σ es, Covers c p a.slots s σ → B es .throw →
      (∃ e r, H e r) → Covers c p a₁.slots e (σ.after es)) :
    Sound c p (D₁ ++ D₂) a s (B.handled H) a₂ s₂ where
  tidy := hH.tidy
  below := hH.below
  grows := hB.grows.trans hH.grows
  runs hq σ es r hσ hr := by
    obtain ⟨q₁, q₂⟩ := hB.grows.quiet hH.grows hq
    obtain ⟨hr, htruth⟩ | ⟨e₁, e₂, rfl, hr₁, hr₂⟩ := hr
    · obtain ⟨safe, reach⟩ := hB.runs q₁ σ es r hσ hr
      refine ⟨safe, ?_⟩
      cases r with
      | done => exact (hH.grows.covers reach).weaken hs
      | truth b => exact absurd rfl (htruth b)
      | jump j => exact reach.grow hH.grows
      | throw => trivial
    · obtain ⟨safe₁, -⟩ := hB.runs q₁ σ e₁ _ hσ hr₁
      obtain ⟨safe₂, reach⟩ := hH.runs q₂ _ e₂ r (he q₁ σ e₁ hσ hr₁ ⟨e₂, r, hr₂⟩) hr₂
      rw [Store.after_append]
      exact ⟨safe₁.append safe₂, reach⟩

/-- A final block, which is walked before what it follows. The state that it starts from allows for
whatever comes before it, and what it assigns is added where it ends. -/
theorem Sound.ensured {ns : List Nat} {W W' : Symbol → Prop} {i : Info} {stop out : Inits}
    (hF : Sound c p D₁ a (s.allow ns) F a₁ stop)
    (hB : Sound c p D₂ (a₁.push (.finally i stop.isReachable stop)) s B a₂ out)
    (hf : Framed c p D₂ a₁ (.finally i stop.isReachable stop) a₂ g gs)
    (sB : B.Settles W []) (sF : F.Settles W' [])
    (hW : ∀ (v : Symbol) n, W v → a.slots[v]? = some n → n ∈ ns) :
    Sound c p (D₁ ++ D₂) a s (B.ensured F) (a₂.around gs)
      (if stop.isReachable then out.andThen stop else .dead) where
  tidy := hf.tidy
  below := by
    split
    · exact hB.below.andThen (hF.below.mono hB.grows.nextSlot)
    · trivial
  grows := hF.grows.trans hf.grows
  runs hq σ es r hσ hr := by
    obtain ⟨q₁, q₂⟩ := hF.grows.quiet hf.grows hq
    obtain ⟨e₁, o, e₂, rfl, hr₁, hr₂⟩ := hr
    obtain ⟨safe₁, reach₁⟩ := hB.runs q₂ σ e₁ o (hF.grows.covers hσ) hr₁
    have start := (hσ.allow ns).settled (sB _ _ hr₁ σ) hW
    rw [Store.after_append]
    obtain ⟨hr₂, rfl, htruth⟩ | ⟨hr₂, habrupt⟩ := hr₂
    · obtain ⟨safe₂, reach₂⟩ := hF.runs q₁ _ e₂ _ start hr₂
      refine ⟨safe₁.append safe₂, ?_⟩
      have after : Covers c p a₂.slots stop ((σ.after e₁).after e₂) := hf.grows.covers reach₂
      have blank : ∀ v, (σ.after e₁).after e₂ v = .blank → σ.after e₁ v = .blank := fun v hv =>
        (sF _ _ hr₂ _).blank hv
      have complete := reach₂.isReachable
      rw [if_pos complete]
      cases r with
      | done => exact Covers.andThen reach₁ after blank
      | truth b => exact absurd rfl (htruth b)
      | jump j =>
        obtain ⟨t, ht, hrec⟩ := reach₁
        rw [hf.frames] at hrec
        have hg := hf.weakens
        cases hg
        exact ⟨t.andThen stop, ht.andThen after blank, hrec complete⟩
      | throw => trivial
    · obtain ⟨safe₂, reach₂⟩ := hF.runs q₁ _ e₂ r start hr₂
      exact ⟨safe₁.append safe₂, (reach₂.abrupt habrupt _).grow hf.grows⟩

end Javelin.Flow
