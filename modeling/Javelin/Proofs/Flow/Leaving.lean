import Javelin.Proofs.Flow.Following
import Javelin.Proofs.Flow.Framing

/-!
# Frames and how runs leave them

The rules for pieces that are walked inside a frame of their own, for how runs end: a jump that ends
at the frame is where the frame recorded it, an exception that a clause catches was seen by the
clause, and everything else goes on outward.
-/

namespace Javelin.Flow

variable {X : Exceptions} {p : Program} {W : World → Prop} {ρ : Held} {ls : List LocalId}
  {a a' a₁ a₂ a₃ : Analysis} {w w' : World} {s s' s₀ s₁ t u : Inits} {A C F R T : Endings}
  {r : Ending} {f g : Frame} {gs : List Frame} {i : Info} {j : Jump}

/-! ## Entering and leaving -/

theorem ran_inFrame {α : Type} {m : Analyzer α} {x : α × Frame}
    (h : Ran (inFrame f m) a w x a' w') :
    ∃ a₁, Ran m (a.push f) w x.1 a₁ w' ∧ x.2 = a₁.frames.headD f ∧
      a' = a₁.around a₁.frames.tail := by
  obtain ⟨y, a₁, w₁, h₁, h₂⟩ := ran_bind (ran_modifyBind h)
  have h₃ := ran_getBind h₂
  have h₄ := ran_modifyBind h₃
  obtain ⟨rfl, rfl, rfl⟩ := ran_pure h₄
  exact ⟨a₁, h₁, rfl, rfl⟩

theorem Fit.push (h : Fit X p a) (hf : X.KnownFrame f) : Fit X p (a.push f) where
  program := h.program
  frames := by simpa [Analysis.push, hf] using h.frames
  rethrown := h.rethrown

/-- What is known of the frames after a walk inside a further one. -/
structure Left (X : Exceptions) (p : Program) (ls : List LocalId) (a : Analysis) (f : Frame)
    (a₁ : Analysis) (g : Frame) (gs : List Frame) : Prop where
  frames : a₁.frames = g :: gs
  gains : f.Gains g
  known : X.KnownFrame g
  fit : Fit X p (a₁.around gs)
  onward : Onward ls a (a₁.around gs)

theorem left (hf : Fit X p a₁) (ho : Onward ls (a.push f) a₁) :
    ∃ g gs, Left X p ls a f a₁ g gs := by
  have hw := ho.frames
  have known := hf.frames
  simp only [Analysis.push] at hw
  generalize hfs : a₁.frames = fs at hw known
  cases hw with
  | cons hg hgs =>
    rw [List.forall_mem_cons] at known
    exact ⟨_, _, hfs, hg, known.1, ⟨hf.program, known.2, hf.rethrown⟩,
      ⟨hgs, ho.rethrown, ho.unhandled⟩⟩

/-- The walk inside a further frame, and what is left of the frame after it. -/
theorem ran_framed {α : Type} {m : Analyzer α} {x : α × Frame}
    (h : Ran (inFrame f m) a w x a' w') :
    ∃ a₁, Ran m (a.push f) w x.1 a₁ w' ∧ ∀ {X p ls}, Fit X p a₁ → Onward ls (a.push f) a₁ →
      ∃ gs, Left X p ls a f a₁ x.2 gs ∧ a' = a₁.around gs := by
  obtain ⟨a₁, hm, hx, rfl⟩ := ran_inFrame h
  refine ⟨a₁, hm, fun hf ho => ?_⟩
  obtain ⟨g, gs, hl⟩ := left hf ho
  rw [hl.frames] at hx ⊢
  exact ⟨gs, hx ▸ hl, rfl⟩

/-- Leaving a frame that the jump or exception at hand does not end at. -/
theorem Arrives.pop (h : Arrives X a₁ s r) (hf : a₁.frames = g :: gs)
    (hj : ∀ j t, r = .jump j → Recorded j t (g :: gs) → Recorded j t gs)
    (he : ∀ e, r = .throw e → X.Accounted e (g :: gs) → X.Accounted e gs) :
    Arrives X (a₁.around gs) s r := by
  cases r with
  | done | truth => exact h
  | jump j =>
    obtain ⟨t, ht, hrec⟩ := h
    rw [hf] at hrec
    exact ⟨t, ht, hj j t rfl hrec⟩
  | throw e =>
    intro hc
    have acc := h hc
    rw [hf] at acc
    exact he e rfl acc

/-- Exceptions pass a frame that is neither of a body nor of a try statement. -/
def Frame.LetsPass (g : Frame) : Prop :=
  ∀ (X : Exceptions) e gs, X.Accounted e (g :: gs) → X.Accounted e gs

namespace Led

theorem pop (h : Led X p ρ (a.push f) s A a₁ s') (hl : Left X p ρ.names a f a₁ g gs)
    (hg : g.LetsPass)
    (hj : ∀ j t, A (.jump j) → Recorded j t (g :: gs) → Recorded j t gs) :
    Led X p ρ a s A (a₁.around gs) s' where
  fit := hl.fit
  onward := hl.onward
  ends hq hρ hs r hr :=
    (h.ends hq hρ hs r hr).pop hl.frames (fun j t hrj => hj j t (hrj ▸ hr)) fun e _ => hg X e gs

/-- A piece whose own jumps end at its frame. -/
theorem absorb {isOwn : Jump → Bool} {e : Inits} (h : Led X p ρ (a.push f) s A a₁ s')
    (hl : Left X p ρ.names a f a₁ g gs) (hg : g.LetsPass) (he : Ends g isOwn e)
    (hs : s'.Weakens u) (hu : e.Weakens u) :
    Led X p ρ a s (A.absorb isOwn) (a₁.around gs) u where
  fit := hl.fit
  onward := hl.onward
  ends hq hρ hlive r hr := by
    obtain ⟨hr, htruth, hother⟩ | ⟨j, hown, hr, rfl⟩ := hr
    · have arrived := (h.ends hq hρ hlive r hr).weaken htruth hs
      exact arrived.pop hl.frames (fun j t hrj => he.other j t gs (hother j hrj)) fun e _ =>
        hg X e gs
    · obtain ⟨t, ht, hrec⟩ := h.ends hq hρ hlive _ hr
      rw [hl.frames] at hrec
      exact ht.weaken ((he.own j t gs hown hrec).trans hu)

/-- An expression that ends the jumps out of it. -/
theorem absorbAll {isOwn : Jump → Bool} {e : Inits} (h : Led X p ρ (a.push f) s A a₁ s')
    (hl : Left X p ρ.names a f a₁ g gs) (hg : g.LetsPass)
    (he : ∀ j t gs, isOwn j → Recorded j t (g :: gs) → t.Weakens e)
    (hs : s'.Weakens u) (hu : e.Weakens u) :
    Led X p ρ a s ((A.absorb isOwn).evaluated X) (a₁.around gs) u where
  fit := hl.fit
  onward := hl.onward
  ends hq hρ hlive r hr := by
    obtain ⟨(⟨hr, htruth, -⟩ | ⟨j, hown, hr, rfl⟩) | ⟨e, hc, rfl⟩, hend⟩ := hr
    · have arrived := (h.ends hq hρ hlive r hr).weaken htruth hs
      refine arrived.pop hl.frames (fun j t hrj => ?_) fun e _ => hg X e gs
      subst hrj
      simp at hend
    · obtain ⟨t, ht, hrec⟩ := h.ends hq hρ hlive _ hr
      rw [hl.frames] at hrec
      exact ht.weaken ((he j t gs hown hrec).trans hu)
    · exact fun hc' => absurd hc' (by simp [hc])

/-! ## Loops -/

/-- The body of a loop: it goes on from where the body ends or is continued, and the loop ends where
it is left by a break. -/
theorem turn {labels : List Text} {b k : Inits} (h : Led X p ρ a s A a₁ s')
    (hf : a₁.frames = .loop labels b k :: gs) :
    Led X p ρ a s (A.turn (Run.continues labels)) a₁ (.split (s'.merge k) b) :=
  h.of_ends fun r hr ends => by
    obtain ⟨⟨hr, -, -⟩ | ⟨j, hown, hr, -⟩, rfl⟩ | ⟨hr, rfl⟩ | ⟨hr, habrupt, -⟩ := hr
    · exact Inits.IsLive.weaken (ends _ hr) (Inits.weakens_merge_left _ _)
    · obtain ⟨t, ht, hrec⟩ := ends _ hr
      rw [hf] at hrec
      exact ht.weaken ((recorded_continue hrec hown).trans (Inits.weakens_merge_right _ _))
    · obtain ⟨t, ht, hrec⟩ := ends _ hr
      rw [hf] at hrec
      exact ht.weaken hrec
    · obtain ⟨hr, -, -⟩ | ⟨_, -, -, rfl⟩ := hr
      · exact (ends r hr).abrupt habrupt _
      · simp [Ending.isAbrupt] at habrupt

/-- Round after round, each like the first one. -/
theorem rounds (h : Led X p ρ a s₀ R a' (.split t u)) (hs : s.IsLive → s₀.IsLive) :
    Led X p ρ a s R.rounds a' u :=
  (h.before hs).of_ends fun r hr ends => by
    obtain ⟨hr, rfl⟩ | ⟨hr, habrupt⟩ := hr
    · exact ends _ hr
    · exact (ends r hr).abrupt habrupt _

/-- The states in which a loop goes on and ends after its condition. -/
theorem loopTest {cond : Option Bool} {q : Inits} (h : Led X p ρ a s C a₁ q)
    (hc : ∀ b, C (.truth b) → cond.all (· == b)) (hd : ¬ C .done) :
    Led X p ρ a s C a₁
      (.split (if cond == some false then .dead else q.whenTrue) (loopExit cond q)) :=
  h.of_ends fun r hr ends => by
    have arrived := ends r hr
    cases r with
    | done => exact absurd hr hd
    | truth b =>
      have := hc b hr
      rcases cond with _ | _ | _ <;> cases b <;>
        simp_all [Arrives, Inits.whenTrue, Inits.whenFalse, loopExit]
    | jump | throw => exact arrived

/-- A loop that ends after the first or the second of two tests. -/
theorem thenTest {go exit t v u : Inits} (hC : Led X p ρ a s C a₁ (.split go exit))
    (hT : Led X p ρ a₁ go T a₂ (.split t v)) (dT : ¬ T .done) (he : exit.Weakens u)
    (hv : v.Weakens u) :
    Led X p ρ a s (C.branch T (.finish (.truth false))) a₂ (.split t u) := by
  have ended : Led X p ρ a₂ exit (.finish (.truth false)) a₂ (.split t u) := led_truth hT.fit he
  refine hC.branch hT ended (fun r hr h => h.split ?_ (.refl _) hv) fun _ _ h => h
  rintro rfl
  exact dT hr

/-- A loop that may also end where another state says. -/
theorem weakenExit {t v u : Inits} (h : Led X p ρ a s A a' (.split t v)) (dA : ¬ A .done)
    (hv : v.Weakens u) : Led X p ρ a s A a' (.split t u) :=
  h.of_ends fun r hr ends => by
    refine (ends r hr).split ?_ (.refl _) hv
    rintro rfl
    exact dA hr

/-! ## Final blocks -/

/-- A final block, which is walked before what it follows. -/
theorem ensured {stop out : Inits} (hF : Led X p ρ a s₀ F a₁ stop) (hs : s.IsLive → s₀.IsLive)
    (hA : Led X p ρ (a₁.push (.finally i stop.isReachable stop)) s A a₂ out)
    (hl : Left X p ρ.names a₁ (.finally i stop.isReachable stop) a₂ g gs) :
    Led X p ρ a s (A.ensured F) (a₂.around gs)
      (if stop.isReachable then out.andThen stop else .dead) where
  fit := hl.fit
  onward := hF.onward.trans hl.onward
  ends hq hρ hlive r hr := by
    obtain ⟨q₁, q₂⟩ := hF.onward.quiet hl.onward hq
    obtain ⟨o, hrA, ⟨hrF, rfl, htruth⟩ | ⟨hrF, habrupt⟩⟩ := hr
    · have held : Holds X ρ a₁ := hρ.onward hF.onward
      have arrived := hA.ends q₂ held hlive r hrA
      have complete := (hF.ends q₁ hρ (hs hlive) _ hrF).isReachable
      have hg := hl.gains.weakens
      cases hg
      rw [if_pos complete]
      cases r with
      | done => exact Inits.IsLive.andThen arrived stop
      | truth b => exact absurd rfl (htruth b)
      | jump j =>
        obtain ⟨t, ht, hrec⟩ := arrived
        rw [hl.frames] at hrec
        exact ⟨t.andThen stop, ht.andThen stop, hrec complete⟩
      | throw e =>
        intro hc
        have acc := arrived hc
        rw [hl.frames] at acc
        exact acc complete
    · exact ((hF.ends q₁ hρ (hs hlive) r hrF).abrupt habrupt _).gain hl.onward.frames

end Led

/-! ## Jumps -/

theorem Slots.exists_below (x : Slots) : ∃ k, x.Below k :=
  ⟨x.bits, fun _ hn => Nat.lt_of_lt_of_le Nat.lt_two_pow_self (Nat.ge_two_pow_of_testBit hn)⟩

theorem Inits.exists_below (s : Inits) : ∃ k, s.Below k := by
  induction s with
  | dead | vacuous => exact ⟨0, trivial⟩
  | live x y =>
    obtain ⟨k, hk⟩ := x.exists_below
    obtain ⟨m, hm⟩ := y.exists_below
    exact ⟨max k m, fun n hn => Nat.lt_of_lt_of_le (hk n hn) (Nat.le_max_left _ _),
      fun n hn => Nat.lt_of_lt_of_le (hm n hn) (Nat.le_max_right _ _)⟩
  | split s t hs ht =>
    obtain ⟨k, hk⟩ := hs
    obtain ⟨m, hm⟩ := ht
    exact ⟨max k m, hk.mono (Nat.le_max_left _ _), hm.mono (Nat.le_max_right _ _)⟩

theorem Frame.exists_below (f : Frame) : ∃ k, f.Below k := by
  cases f with
  | body | labeled | «finally» => exact Inits.exists_below _
  | handlers => exact ⟨0, trivial⟩
  | loop _ s t | switch _ s t =>
    obtain ⟨k, hk⟩ := s.exists_below
    obtain ⟨m, hm⟩ := t.exists_below
    exact ⟨max k m, hk.mono (Nat.le_max_left _ _), hm.mono (Nat.le_max_right _ _)⟩

/-- All slots around a point are below some bound. -/
theorem exists_below (s : Inits) (fs : List Frame) : ∃ k, s.Below k ∧ ∀ f ∈ fs, f.Below k := by
  induction fs with
  | nil =>
    obtain ⟨k, hk⟩ := s.exists_below
    exact ⟨k, hk, nofun⟩
  | cons f fs ih =>
    obtain ⟨k, hs, hfs⟩ := ih
    obtain ⟨m, hm⟩ := f.exists_below
    exact ⟨max k m, hs.mono (Nat.le_max_left _ _), List.forall_mem_cons.2
      ⟨hm.mono (Nat.le_max_right _ _), fun g hg => (hfs g hg).mono (Nat.le_max_left _ _)⟩⟩

theorem FramesWeaken.gains {fs gs : List Frame} (hw : FramesWeaken fs gs)
    (hc : List.Forall₂ (fun f g => g.clauses = f.clauses) fs gs) : FramesGain fs gs := by
  induction hw with
  | nil => exact .nil
  | cons hf _ ih =>
    cases hc with
    | cons hg hgs =>
      exact .cons ⟨hf, by rw [hg]; exact List.forall₂_same.2 fun h _ => .refl h⟩ (ih hgs)

theorem known_of_weakens {fs gs : List Frame} (hw : FramesWeaken fs gs)
    (hc : List.Forall₂ (fun f g => g.clauses = f.clauses) fs gs)
    (hk : ∀ f ∈ fs, X.KnownFrame f) : ∀ g ∈ gs, X.KnownFrame g := by
  induction hw with
  | nil => exact hk
  | cons hf _ ih =>
    rw [List.forall_mem_cons] at hk ⊢
    cases hc with
    | cons hg hgs => exact ⟨hk.1.weaken hf hg, ih hgs hk.2⟩

/-- The analysis after a jump to where it lands. -/
theorem landed {l : Landing} (ha : Fit X p a) (hl : j.land s a.frames = some l) :
    Fit X p (a.around l.frames) ∧ Onward ls a (a.around l.frames) ∧ Recorded j s l.frames := by
  obtain ⟨k, hs, hfs⟩ := exists_below s a.frames
  have lands := lands_of_land hl hs hfs
  have same := clauses_of_land hl
  exact ⟨⟨ha.program, known_of_weakens lands.weaken same ha.frames, ha.rethrown⟩,
    ⟨lands.weaken.gains same, fun _ _ => rfl, Nat.le_refl _⟩, lands.recorded⟩

/-- A jump is recorded, whether it has a target or not. -/
theorem ran_jump {b : Bool} (ha : Fit X p a) (h : Ran (jump i j s) a w b a' w') :
    w' = w ∧ Fit X p a' ∧ Onward ls a a' ∧ Recorded j s a'.frames := by
  have h₁ := ran_getBind h
  cases hl : j.land s a.frames with
  | none =>
    rw [hl] at h₁
    obtain ⟨rfl, rfl, rfl⟩ := ran_pure h₁
    exact ⟨rfl, ha, .refl a', recorded_of_land_none hl⟩
  | some l =>
    rw [hl] at h₁
    have h₂ := ran_modifyBind h₁
    obtain ⟨rfl, rfl, rfl⟩ := ran_pure h₂
    obtain ⟨fit, onward, recorded⟩ : _ ∧ Onward ls a _ ∧ _ := landed ha hl
    exact ⟨rfl, ⟨fit.program, fit.frames, fit.rethrown⟩,
      ⟨onward.frames, onward.rethrown, onward.unhandled⟩, recorded⟩

/-- A jump, and what is reported if it has no target. -/
theorem leads_jumpOr {m : Inits → Analyzer Inits}
    (hm : ∀ s, Calm W (m s) fun t => s.IsLive → t.IsLive) :
    Leads X p W ρ (fun s => do if ← jump i j s then return .dead else m s)
      (.finish (.jump j)) := by
  intro s a w s' a' w' hw ha h
  obtain ⟨b, a₁, w₁, h₁, h₂⟩ := ran_bind h
  obtain ⟨rfl, fit, onward, recorded⟩ : _ ∧ _ ∧ Onward ρ.names a a₁ ∧ _ := ran_jump ha h₁
  cases b with
  | true =>
    obtain ⟨rfl, rfl, rfl⟩ := ran_pure h₂
    exact ⟨hw, led_jump fit onward recorded⟩
  | false =>
    obtain ⟨hw', same, -⟩ := hm s _ _ _ _ _ hw h₂
    have later : Onward ρ.names a₁ a' := same.onward
    exact ⟨hw', led_jump (same.fit fit) (onward.trans later)
      (recorded.weaken later.frames.weaken)⟩

theorem leads_return :
    Leads X p W ρ (fun s => do
      match Jump.land .return s (← get).frames with
      | some l => modify fun a => { a with frames := l.frames }
      | none => pure ()
      return .dead) (.finish (.jump .return)) := by
  intro s a w s' a' w' hw ha h
  have h₁ := ran_getBind h
  cases hl : Jump.land .return s a.frames with
  | none =>
    rw [hl] at h₁
    obtain ⟨rfl, rfl, rfl⟩ := ran_pure h₁
    exact ⟨hw, led_jump ha (.refl _) (recorded_of_land_none hl)⟩
  | some l =>
    rw [hl] at h₁
    have h₂ := ran_modifyBind h₁
    obtain ⟨rfl, rfl, rfl⟩ := ran_pure h₂
    obtain ⟨fit, onward, recorded⟩ := landed ha hl
    exact ⟨hw, led_jump fit onward recorded⟩

section

variable [Answers] (hA : X.Agrees W)
include hA

theorem calm_reported {id : Problem.Id} (hid : id ≠ .unhandledException) (i : Info)
    (args : List Text) (s : Inits) :
    Calm W (do report id i args; return s) fun t => s.IsLive → t.IsLive :=
  (calm_report hA hid i args).bind fun _ _ => calm_pure fun hs => hs

theorem leads_breakOut (i : Info) (label : Option Ident) :
    Leads X p W ρ (breakOut i label) (.finish (.jump (.break (labelName label)))) := by
  refine leads_jumpOr fun s => ?_
  split <;> exact calm_reported hA (by decide) _ _ s

theorem leads_continueLoop (i : Info) (label : Option Ident) :
    Leads X p W ρ (continueLoop i label) (.finish (.jump (.continue (labelName label)))) := by
  refine leads_jumpOr fun s => ?_
  split
  · refine calm_get.bind fun a _ => ?_
    split <;> exact calm_reported hA (by decide) _ _ s
  · exact calm_reported hA (by decide) _ _ s

theorem leads_yield (i : Info) :
    Leads X p W ρ (fun s => do
      if ← jump i .yield s then return .dead
      report .invalidYield i []
      return s) (.finish (.jump .yield)) :=
  leads_jumpOr fun s => calm_reported hA (by decide) _ _ s

end

end Javelin.Flow
