import Javelin.Proofs.Flow.Walks

/-!
# Walks that follow runs

`Tracks D m B`: when the analysis takes the step `m` and reports nothing of concern, every run of
`B` that starts in a store covered by the state before the step is safe, and ends where the analysis
says: in a store covered by the state after the step, or by what the frames have recorded of a jump.
`D` lists the variables that are declared on the way.

The rules of this logic follow the ways to combine behaviors.
-/

namespace Javelin.Flow

/-- Where a run may be after a step of the analysis, by how it ends. -/
def Reaches (c : Concern) (p : Program) (a : Analysis) (s : Inits) (σ : Store) : Outcome → Prop
  | .done => Covers c p a.slots s σ
  | .truth b => Covers c p a.slots (if b then s.whenTrue else s.whenFalse) σ
  | .jump j => ∃ t, Covers c p a.slots t σ ∧ Recorded j t a.frames
  | .throw => True

/-- What a step starts from: the variables that it declares are not tracked yet. -/
structure Ready (p : Program) (D : List Symbol) (a : Analysis) (s : Inits) : Prop where
  tidy : Tidy p a
  below : s.Below a.nextSlot
  nodup : D.Nodup
  fresh : ∀ v ∈ D, a.slots[v]? = none

/-- What a step leads to. -/
structure Sound (c : Concern) (p : Program) (D : List Symbol) (a : Analysis) (s : Inits)
    (B : Behavior) (a' : Analysis) (s' : Inits) : Prop where
  tidy : Tidy p a'
  below : s'.Below a'.nextSlot
  grows : Grows c D a a'
  runs : c.count a' = c.count a → ∀ σ es r, Covers c p a.slots s σ → B es r →
    c.Safe p σ es ∧ Reaches c p a' s' (σ.after es) r

/-- A step from a given state follows a behavior. -/
def TracksAt (c : Concern) (p : Program) (D : List Symbol) (m : Analyzer Inits) (s : Inits)
    (B : Behavior) : Prop :=
  ∀ a s' a', Walks m a s' a' → Ready p D a s → Sound c p D a s B a' s'

/-- A step from any state follows a behavior. -/
def Tracks (c : Concern) (p : Program) (D : List Symbol) (m : Inits → Analyzer Inits)
    (B : Behavior) : Prop :=
  ∀ s, TracksAt c p D (m s) s B

variable {c : Concern} {p : Program} {D D₁ D₂ D₃ : List Symbol} {a a' a₁ a₂ : Analysis}
  {s s' s₁ s₂ : Inits} {B C T F : Behavior} {σ : Store} {r : Outcome}

/-! ## Places of runs -/

theorem Reaches.abrupt (h : Reaches c p a s σ r) (hr : r.isAbrupt) (t : Inits) :
    Reaches c p a t σ r := by
  cases r with
  | done | truth => simp [Outcome.isAbrupt] at hr
  | jump => exact h
  | throw => trivial

theorem Reaches.grow (h : Reaches c p a s σ r) (hg : Grows c D a a') : Reaches c p a' s σ r := by
  cases r with
  | done => exact hg.covers h
  | truth b => exact hg.covers h
  | jump j =>
    obtain ⟨t, ht, hj⟩ := h
    exact ⟨t, hg.covers ht, hj.weaken hg.frames⟩
  | throw => trivial

theorem Reaches.leave (h : Reaches c p a s σ r) (vs : List Symbol) :
    Reaches c p a s (σ.after (vs.map .leave)) r := by
  cases r with
  | done => exact Covers.leave h vs
  | truth b => exact Covers.leave h vs
  | jump j =>
    obtain ⟨t, ht, hj⟩ := h
    exact ⟨t, ht.leave vs, hj⟩
  | throw => trivial

theorem Reaches.mergeLeft (h : Reaches c p a s σ r) (t : Inits) :
    Reaches c p a (s.merge t) σ r := by
  cases r with
  | done => exact Covers.weaken h (Inits.weakens_merge_left s t)
  | truth b =>
    cases b with
    | true =>
      simp only [Reaches, if_true, Inits.whenTrue_merge]
      exact Covers.weaken h ((Inits.weakens_whenTrue s).trans (Inits.weakens_join_left _ _))
    | false =>
      simp only [Reaches, Bool.false_eq_true, if_false, Inits.whenFalse_merge]
      exact Covers.weaken h ((Inits.weakens_whenFalse s).trans (Inits.weakens_join_left _ _))
  | jump j => exact h
  | throw => trivial

theorem Reaches.mergeRight (h : Reaches c p a s σ r) (t : Inits) :
    Reaches c p a (t.merge s) σ r := by
  have right := Inits.weakens_join_right _ s.unconditional (Inits.isFlat_unconditional t)
  cases r with
  | done => exact Covers.weaken h (Inits.weakens_merge_right t s)
  | truth b =>
    cases b with
    | true =>
      simp only [Reaches, if_true, Inits.whenTrue_merge]
      exact Covers.weaken h ((Inits.weakens_whenTrue s).trans right)
    | false =>
      simp only [Reaches, Bool.false_eq_true, if_false, Inits.whenFalse_merge]
      exact Covers.weaken h ((Inits.weakens_whenFalse s).trans right)
  | jump j => exact h
  | throw => trivial

/-- The split state after a condition that ends like another one. -/
theorem Reaches.split (h : Reaches c p a s σ r) (hr : r ≠ .done) {t f : Inits}
    (ht : s.whenTrue.Weakens t) (hf : s.whenFalse.Weakens f) :
    Reaches c p a (.split t f) σ r := by
  cases r with
  | done => exact absurd rfl hr
  | truth b =>
    cases b with
    | true => exact Covers.weaken h ht
    | false => exact Covers.weaken h hf
  | jump j => exact h
  | throw => trivial

/-! ## Starting points -/

theorem Ready.left (h : Ready p (D₁ ++ D₂) a s) : Ready p D₁ a s where
  tidy := h.tidy
  below := h.below
  nodup := (List.nodup_append.1 h.nodup).1
  fresh v hv := h.fresh v (List.mem_append_left _ hv)

/-- After the first of two steps, the second can start. -/
theorem Ready.right {t : Inits} (h : Ready p (D₁ ++ D₂) a s) (hs : Sound c p D₁ a t B a₁ s₁)
    (ht : s₂.Below a₁.nextSlot) : Ready p D₂ a₁ s₂ where
  tidy := hs.tidy
  below := ht
  nodup := (List.nodup_append.1 h.nodup).2.1
  fresh v hv := by
    refine hs.grows.untracked (h.fresh v (List.mem_append_right _ hv)) fun hv' => ?_
    exact (List.nodup_append.1 h.nodup).2.2 v hv' v hv rfl

/-- A step that declares nothing can come after any other. -/
theorem Sound.ready (h : Sound c p D a s B a' s') : Ready p [] a' s' where
  tidy := h.tidy
  below := h.below
  nodup := List.nodup_nil
  fresh := by simp

theorem Ready.mono (h : Ready p D₂ a s) (hn : D₂.Nodup → D₁.Nodup) (hD : ∀ v ∈ D₁, v ∈ D₂) :
    Ready p D₁ a s where
  tidy := h.tidy
  below := h.below
  nodup := hn h.nodup
  fresh v hv := h.fresh v (hD v hv)

theorem Ready.kept (h : Ready p D a s) (hk : Kept a a') : Ready p D a' s where
  tidy := hk.tidy h.tidy
  below := by
    rw [hk.nextSlot]
    exact h.below
  nodup := h.nodup
  fresh v hv := by
    rw [hk.slots]
    exact h.fresh v hv

/-! ## Steps in order -/

/-- Two parts of a walk in which nothing of concern was reported. -/
theorem Grows.quiet (h₁ : Grows c D₁ a a₁) (h₂ : Grows c D₂ a₁ a₂)
    (hq : c.count a₂ = c.count a) : c.count a₁ = c.count a ∧ c.count a₂ = c.count a₁ := by
  have := h₁.reported
  have := h₂.reported
  omega

theorem Sound.andThen (h₁ : Sound c p D₁ a s B a₁ s₁) (h₂ : Sound c p D₂ a₁ s₁ C a₂ s₂) :
    Sound c p (D₁ ++ D₂) a s (B.andThen C) a₂ s₂ where
  tidy := h₂.tidy
  below := h₂.below
  grows := h₁.grows.trans h₂.grows
  runs hq σ es r hσ hr := by
    obtain ⟨q₁, q₂⟩ := h₁.grows.quiet h₂.grows hq
    obtain ⟨hB, habrupt⟩ | ⟨e₁, e₂, rfl, hB, hC⟩ := hr
    · obtain ⟨safe, reach⟩ := h₁.runs q₁ σ es r hσ hB
      exact ⟨safe, (reach.abrupt habrupt s₂).grow h₂.grows⟩
    · obtain ⟨safe₁, reach₁⟩ := h₁.runs q₁ σ e₁ _ hσ hB
      obtain ⟨safe₂, reach₂⟩ := h₂.runs q₂ _ e₂ r reach₁ hC
      rw [Store.after_append]
      exact ⟨safe₁.append safe₂, reach₂⟩

theorem Sound.mono (h : Sound c p D₁ a s B a' s') (hD : ∀ v ∈ D₁, v ∈ D₂) :
    Sound c p D₂ a s B a' s' :=
  ⟨h.tidy, h.below, h.grows.mono hD, h.runs⟩

/-- A step that is followed by others. -/
theorem Sound.earlier (h : Sound c p D₁ a s B a₁ s') (hg : Grows c D₂ a₁ a₂) (ht : Tidy p a₂) :
    Sound c p (D₁ ++ D₂) a s B a₂ s' where
  tidy := ht
  below := h.below.mono hg.nextSlot
  grows := h.grows.trans hg
  runs hq σ es r hσ hr := by
    obtain ⟨q, -⟩ := h.grows.quiet hg hq
    obtain ⟨safe, reach⟩ := h.runs q σ es r hσ hr
    exact ⟨safe, reach.grow hg⟩

/-- A step that comes later. -/
theorem Sound.later (hg : Grows c D₁ a a₁) (h : Sound c p D₂ a₁ s B a₂ s') :
    Sound c p (D₁ ++ D₂) a s B a₂ s' where
  tidy := h.tidy
  below := h.below
  grows := hg.trans h.grows
  runs hq σ es r hσ hr := by
    obtain ⟨-, q⟩ := hg.quiet h.grows hq
    exact h.runs q σ es r (hg.covers hσ) hr

theorem Sound.keepAfter (h : Sound c p D a s B a₁ s') (hk : Kept a₁ a₂) :
    Sound c p D a s B a₂ s' := by
  simpa using h.earlier (hk.grows (D := [])) (hk.tidy h.tidy)

theorem Sound.keepBefore (hk : Kept a a₁) (h : Sound c p D a₁ s B a₂ s') :
    Sound c p D a s B a₂ s' :=
  h.later (hk.grows (D := []))

/-- Nothing runs, and nothing is walked. -/
theorem sound_skip (hr : Ready p D a s) : Sound c p D a s .skip a s where
  tidy := hr.tidy
  below := hr.below
  grows := .refl a
  runs := by
    rintro - σ _ _ hσ ⟨rfl, rfl⟩
    exact ⟨trivial, hσ⟩

/-- Runs that are those of another behavior up to how they end. -/
theorem Sound.of_runs (h : Sound c p D a s B a' s₁) (hb : s₂.Below a'.nextSlot)
    (hC : ∀ (σ : Store) es r, C es r → (∀ r', B es r' → Reaches c p a' s₁ (σ.after es) r') →
      (∃ r', B es r') ∧ Reaches c p a' s₂ (σ.after es) r) :
    Sound c p D a s C a' s₂ where
  tidy := h.tidy
  below := hb
  grows := h.grows
  runs hq σ es r hσ hr := by
    obtain ⟨⟨r', hr'⟩, reach⟩ := hC σ es r hr fun r hr => (h.runs hq σ es r hσ hr).2
    exact ⟨(h.runs hq σ es r' hσ hr').1, reach⟩

theorem Sound.within (h : Sound c p D a s B a' s') (vs : List Symbol) :
    Sound c p D a s (B.within vs) a' s' where
  tidy := h.tidy
  below := h.below
  grows := h.grows
  runs hq σ es r hσ hr := by
    obtain ⟨e, rfl, hB⟩ := hr
    obtain ⟨safe, reach⟩ := h.runs hq σ e r hσ hB
    rw [Store.after_append]
    exact ⟨safe.append (Concern.safe_leave vs), reach.leave vs⟩

theorem Sound.exposed (h : Sound c p D a s B a' s') : Sound c p D a s B.exposed a' s' where
  tidy := h.tidy
  below := h.below
  grows := h.grows
  runs hq σ es r hσ hr := by
    obtain hB | ⟨rfl, rfl | ⟨o, hB⟩⟩ := hr
    · exact h.runs hq σ es r hσ hB
    · exact ⟨trivial, trivial⟩
    · exact ⟨(h.runs hq σ es o hσ hB).1, trivial⟩

theorem Sound.evaluated (h : Sound c p D a s B a' s') : Sound c p D a s B.evaluated a' s' :=
  ⟨h.tidy, h.below, h.grows, fun hq σ es r hσ hr => h.exposed.runs hq σ es r hσ hr.1⟩

theorem Sound.decided (h : Sound c p D a s B a' s') : Sound c p D a s B.decided a' s' :=
  ⟨h.tidy, h.below, h.grows, fun hq σ es r hσ hr => h.exposed.runs hq σ es r hσ hr.1⟩

/-- A condition whose truth is known. -/
theorem sound_truth (hr : Ready p D a s) (b : Bool) :
    Sound c p D a s (.finish (.truth b)) a (.split s s) where
  tidy := hr.tidy
  below := ⟨hr.below, hr.below⟩
  grows := .refl a
  runs := by
    rintro - σ _ _ hσ ⟨rfl, rfl⟩
    cases b <;> exact ⟨trivial, hσ⟩

/-- A condition and its branches. The last state must cover where either branch ends. -/
theorem Sound.branch {a₃ : Analysis} {q t f u : Inits} (hC : Sound c p D₁ a s C a₁ q)
    (hT : Sound c p D₂ a₁ q.whenTrue T a₂ t) (hF : Sound c p D₃ a₂ q.whenFalse F a₃ f)
    (hb : u.Below a₃.nextSlot)
    (ht : ∀ σ es r, T es r → Reaches c p a₃ t σ r → Reaches c p a₃ u σ r)
    (hf : ∀ σ es r, F es r → Reaches c p a₃ f σ r → Reaches c p a₃ u σ r) :
    Sound c p (D₁ ++ (D₂ ++ D₃)) a s (C.branch T F) a₃ u where
  tidy := hF.tidy
  below := hb
  grows := hC.grows.trans (hT.grows.trans hF.grows)
  runs hq σ es r hσ hr := by
    obtain ⟨q₁, q₂⟩ := hC.grows.quiet (hT.grows.trans hF.grows) hq
    obtain ⟨q₂, q₃⟩ := hT.grows.quiet hF.grows q₂
    obtain ⟨hr, habrupt⟩ | ⟨e₁, e₂, b, rfl, hr₁, hr₂⟩ := hr
    · obtain ⟨safe, reach⟩ := hC.runs q₁ σ es r hσ hr
      exact ⟨safe, ((reach.abrupt habrupt u).grow hT.grows).grow hF.grows⟩
    · obtain ⟨safe₁, reach₁⟩ := hC.runs q₁ σ e₁ _ hσ hr₁
      rw [Store.after_append]
      cases b with
      | true =>
        obtain ⟨safe₂, reach₂⟩ := hT.runs q₂ _ e₂ r reach₁ hr₂
        exact ⟨safe₁.append safe₂, ht _ e₂ r hr₂ (reach₂.grow hF.grows)⟩
      | false =>
        obtain ⟨safe₂, reach₂⟩ := hF.runs q₃ _ e₂ r (hT.grows.covers reach₁) hr₂
        exact ⟨safe₁.append safe₂, hf _ e₂ r hr₂ reach₂⟩

/-- Another state after a step that covers at least as much. -/
theorem Sound.weaken (h : Sound c p D a s B a' s₁) (hw : s₁.Weakens s₂)
    (hb : s₂.Below a'.nextSlot) (hB : ∀ es b, ¬ B es (.truth b)) : Sound c p D a s B a' s₂ where
  tidy := h.tidy
  below := hb
  grows := h.grows
  runs hq σ es r hσ hr := by
    obtain ⟨safe, reach⟩ := h.runs hq σ es r hσ hr
    refine ⟨safe, ?_⟩
    cases r with
    | done => exact Covers.weaken reach hw
    | truth b => exact absurd hr (hB es b)
    | jump j => exact reach
    | throw => trivial

/-- Some of the runs, from some of the stores. -/
theorem Sound.restrict (h : Sound c p D a s₁ B a' s')
    (hs : ∀ σ, Covers c p a.slots s₂ σ → Covers c p a.slots s₁ σ)
    (hC : ∀ es r, C es r → B es r) : Sound c p D a s₂ C a' s' :=
  ⟨h.tidy, h.below, h.grows, fun hq σ es r hσ hr => h.runs hq σ es r (hs σ hσ) (hC es r hr)⟩

theorem Sound.of_imp (h : Sound c p D a s B a' s') (hC : ∀ es r, C es r → B es r) :
    Sound c p D a s C a' s' :=
  h.restrict (fun _ hσ => hσ) hC

theorem Sound.before (h : Sound c p D a s₁ B a' s') (hw : s₂.Weakens s₁) :
    Sound c p D a s₂ B a' s' :=
  h.restrict (fun _ hσ => hσ.weaken hw) fun _ _ hr => hr

theorem Sound.nothing (h : Sound c p D a s₁ B a' s') : Sound c p D a s₂ .nothing a' s' :=
  ⟨h.tidy, h.below, h.grows, fun _ _ _ _ _ h => h.elim⟩

/-- After a piece that does not complete, any state will do. -/
theorem sound_nothing (ht : Tidy p a) (hb : s'.Below a.nextSlot) :
    Sound c p D a s .nothing a s' :=
  ⟨ht, hb, .refl a, fun _ _ _ _ _ h => h.elim⟩

theorem Sound.either (hB : Sound c p D a s B a' s') (hC : Sound c p D a s C a' s') :
    Sound c p D a s (B.either C) a' s' where
  tidy := hB.tidy
  below := hB.below
  grows := hB.grows
  runs hq σ es r hσ hr := hr.elim (hB.runs hq σ es r hσ) (hC.runs hq σ es r hσ)

/-- A jump that the frames know of. -/
theorem sound_jump {j : Jump} (hr : Ready p D a s) (hk : Kept a a')
    (hj : Recorded j s a'.frames) (hb : s'.Below a'.nextSlot) :
    Sound c p D a s (.finish (.jump j)) a' s' where
  tidy := hk.tidy hr.tidy
  below := hb
  grows := hk.grows
  runs := by
    rintro - σ _ _ hσ ⟨rfl, rfl⟩
    refine ⟨trivial, s, ?_, hj⟩
    rw [hk.slots]
    exact hσ

theorem sound_throw (hr : Ready p D a s) (hk : Kept a a') :
    Sound c p D a s (.finish .throw) a' .dead where
  tidy := hk.tidy hr.tidy
  below := trivial
  grows := hk.grows
  runs := by
    rintro - σ _ _ - ⟨rfl, rfl⟩
    exact ⟨trivial, trivial⟩

/-! ## Rules -/

variable {m n : Inits → Analyzer Inits}

theorem tracks_skip : Tracks c p D pure .skip := by
  intro s a s' a' hw hr
  obtain ⟨rfl, rfl⟩ := walks_pure hw
  exact sound_skip hr

theorem tracks_nothing (h : Tracks c p D m B) : Tracks c p D m .nothing := by
  intro s a s' a' hw hr
  have := h s a s' a' hw hr
  exact ⟨this.tidy, this.below, this.grows, fun _ _ _ _ _ h => h.elim⟩

theorem Tracks.bind (h₁ : Tracks c p D₁ m B) (h₂ : Tracks c p D₂ n C) :
    Tracks c p (D₁ ++ D₂) (fun s => m s >>= n) (B.andThen C) := by
  intro s a s' a' hw hr
  obtain ⟨t, a₁, hw₁, hw₂⟩ := walks_bind hw
  have first := h₁ s a t a₁ hw₁ hr.left
  exact first.andThen (h₂ t a₁ s' a' hw₂ (hr.right first first.below))

theorem Tracks.keepAfter (h : Tracks c p D m B) {k : Analyzer Unit} (hk : Keeps k) :
    Tracks c p D (fun s => m s >>= fun t => k >>= fun _ => pure t) B := by
  intro s a s' a' hw hr
  obtain ⟨t, a₁, hw₁, hw₂⟩ := walks_bind hw
  obtain ⟨_, a₂, hw₃, hw₄⟩ := walks_bind hw₂
  obtain ⟨rfl, rfl⟩ := walks_pure hw₄
  exact (h s a s' a₁ hw₁ hr).keepAfter (hk _ _ _ hw₃)

theorem Tracks.bindPure (h : Tracks c p D m B) : Tracks c p D (fun s => m s >>= pure) B := by
  intro s a s' a' hw hr
  obtain ⟨t, a₁, hw₁, hw₂⟩ := walks_bind hw
  obtain ⟨rfl, rfl⟩ := walks_pure hw₂
  exact h s a s' a' hw₁ hr

theorem Tracks.keepBefore (h : Tracks c p D m B) {α : Type} {k : Analyzer α} (hk : Keeps k) :
    Tracks c p D (fun s => k >>= fun _ => m s) B := by
  intro s a s' a' hw hr
  obtain ⟨_, a₁, hw₁, hw₂⟩ := walks_bind hw
  have kept := hk _ _ _ hw₁
  exact .keepBefore kept (h s a₁ s' a' hw₂ (hr.kept kept))

theorem Tracks.mono (h : Tracks c p D₁ m B) (hn : D₂.Nodup → D₁.Nodup) (hD : ∀ v ∈ D₁, v ∈ D₂) :
    Tracks c p D₂ m B := by
  intro s a s' a' hw hr
  exact (h s a s' a' hw (hr.mono hn hD)).mono hD

theorem Tracks.perm (h : Tracks c p D₁ m B) (hD : D₁.Perm D₂) : Tracks c p D₂ m B :=
  h.mono hD.nodup_iff.2 fun _ hv => hD.mem_iff.1 hv

theorem Tracks.sublist (h : Tracks c p D₁ m B) (hD : D₁.Sublist D₂) : Tracks c p D₂ m B :=
  h.mono (fun hn => hn.sublist hD) fun _ hv => hD.subset hv

theorem Tracks.within (h : Tracks c p D m B) (vs : List Symbol) :
    Tracks c p D m (B.within vs) :=
  fun s a s' a' hw hr => (h s a s' a' hw hr).within vs

theorem Tracks.exposed (h : Tracks c p D m B) : Tracks c p D m B.exposed :=
  fun s a s' a' hw hr => (h s a s' a' hw hr).exposed

theorem Tracks.evaluated (h : Tracks c p D m B) : Tracks c p D m B.evaluated :=
  fun s a s' a' hw hr => (h s a s' a' hw hr).evaluated

theorem Tracks.decided (h : Tracks c p D m B) : Tracks c p D m B.decided :=
  fun s a s' a' hw hr => (h s a s' a' hw hr).decided

/-! ## Conditions -/

/-- The state after a step is changed, and how runs end with it. -/
theorem Tracks.map (h : Tracks c p D m B) {f : Inits → Inits}
    (hf : ∀ k t, t.Below k → (f t).Below k)
    (hC : ∀ a t σ es r, C es r → (∀ r', B es r' → Reaches c p a t σ r') →
      (∃ r', B es r') ∧ Reaches c p a (f t) σ r) :
    Tracks c p D (fun s => m s >>= fun t => pure (f t)) C := by
  intro s a s' a' hw hr
  obtain ⟨t, a₁, hw₁, hw₂⟩ := walks_bind hw
  obtain ⟨rfl, rfl⟩ := walks_pure hw₂
  have first := h s a t a' hw₁ hr
  exact first.of_runs (hf _ t first.below) fun σ es r => hC a' t _ es r

theorem Tracks.negated (h : Tracks c p D m C) :
    Tracks c p D (fun s => m s >>= fun t => pure (.split t.whenFalse t.whenTrue)) C.negated := by
  refine h.map (fun k t ht => ⟨ht.whenFalse, ht.whenTrue⟩) fun a t σ es r hr reach => ?_
  obtain ⟨hr, habrupt⟩ | ⟨b, hr, rfl⟩ := hr
  · exact ⟨⟨r, hr⟩, (reach r hr).abrupt habrupt _⟩
  · refine ⟨⟨_, hr⟩, ?_⟩
    have := reach _ hr
    cases b <;> exact this

theorem Tracks.valued (h : Tracks c p D m C) :
    Tracks c p D (fun s => m s >>= fun t => pure t.unconditional) C.valued := by
  refine h.map (fun k t ht => ht.unconditional) fun a t σ es r hr reach => ?_
  obtain ⟨hr, habrupt⟩ | ⟨b, hr, rfl⟩ := hr
  · exact ⟨⟨r, hr⟩, (reach r hr).abrupt habrupt _⟩
  · refine ⟨⟨_, hr⟩, ?_⟩
    have := reach _ hr
    cases b with
    | true => exact Covers.weaken this (Inits.weakens_whenTrue t)
    | false => exact Covers.weaken this (Inits.weakens_whenFalse t)

/-- A condition and two values. -/
theorem Tracks.branch {k : Inits → Analyzer Inits} (hC : Tracks c p D₁ m C)
    (hT : Tracks c p D₂ n T) (hF : Tracks c p D₃ k F) :
    Tracks c p (D₁ ++ (D₂ ++ D₃))
      (fun s => m s >>= fun q => n q.whenTrue >>= fun t => k q.whenFalse >>= fun f =>
        pure (t.merge f)) (C.branch T F) := by
  intro s a s' a' hw hr
  obtain ⟨q, a₁, hw₁, hw⟩ := walks_bind hw
  obtain ⟨t, a₂, hw₂, hw⟩ := walks_bind hw
  obtain ⟨f, a₃, hw₃, hw⟩ := walks_bind hw
  obtain ⟨rfl, rfl⟩ := walks_pure hw
  have cond := hC s a q a₁ hw₁ hr.left
  have ready := hr.right cond cond.below.whenTrue
  have yes := hT _ a₁ t a₂ hw₂ ready.left
  have no := hF _ a₂ f a' hw₃ (ready.right yes (cond.below.whenFalse.mono yes.grows.nextSlot))
  exact cond.branch yes no ((yes.below.mono no.grows.nextSlot).merge no.below)
    (fun σ es r _ reach => reach.mergeLeft f) fun σ es r _ reach => reach.mergeRight t

/-- A condition and two conditions. -/
theorem Tracks.choose {k : Inits → Analyzer Inits} (hC : Tracks c p D₁ m C)
    (hT : Tracks c p D₂ n T) (hF : Tracks c p D₃ k F) (dT : ∀ es, ¬ T es .done)
    (dF : ∀ es, ¬ F es .done) :
    Tracks c p (D₁ ++ (D₂ ++ D₃))
      (fun s => m s >>= fun q => n q.whenTrue >>= fun t => k q.whenFalse >>= fun f =>
        pure (.split (t.whenTrue.merge f.whenTrue) (t.whenFalse.merge f.whenFalse)))
      (C.branch T F) := by
  intro s a s' a' hw hr
  obtain ⟨q, a₁, hw₁, hw⟩ := walks_bind hw
  obtain ⟨t, a₂, hw₂, hw⟩ := walks_bind hw
  obtain ⟨f, a₃, hw₃, hw⟩ := walks_bind hw
  obtain ⟨rfl, rfl⟩ := walks_pure hw
  have cond := hC s a q a₁ hw₁ hr.left
  have ready := hr.right cond cond.below.whenTrue
  have yes := hT _ a₁ t a₂ hw₂ ready.left
  have no := hF _ a₂ f a' hw₃ (ready.right yes (cond.below.whenFalse.mono yes.grows.nextSlot))
  have tb := yes.below.mono no.grows.nextSlot
  refine cond.branch yes no
    ⟨tb.whenTrue.merge no.below.whenTrue, tb.whenFalse.merge no.below.whenFalse⟩
    (fun σ es r hr reach => reach.split ?_ (Inits.weakens_merge_left _ _)
      (Inits.weakens_merge_left _ _))
    fun σ es r hr reach => reach.split ?_ (Inits.weakens_merge_right _ _)
      (Inits.weakens_merge_right _ _)
  · rintro rfl
    exact dT es hr
  · rintro rfl
    exact dF es hr

/-- The second condition counts if the first holds. -/
theorem Tracks.condAnd (hC : Tracks c p D₁ m C) (hT : Tracks c p D₂ n T)
    (dT : ∀ es, ¬ T es .done) :
    Tracks c p (D₁ ++ D₂)
      (fun s => m s >>= fun l => n l.whenTrue >>= fun r =>
        pure (.split r.whenTrue (l.whenFalse.merge r.whenFalse)))
      (C.branch T (.finish (.truth false))) := by
  intro s a s' a' hw hr
  obtain ⟨q, a₁, hw₁, hw⟩ := walks_bind hw
  obtain ⟨t, a₂, hw₂, hw⟩ := walks_bind hw
  obtain ⟨rfl, rfl⟩ := walks_pure hw
  have cond := hC s a q a₁ hw₁ hr.left
  have yes := hT _ a₁ t a' hw₂ (hr.right cond cond.below.whenTrue)
  have qb := cond.below.whenFalse.mono yes.grows.nextSlot
  have no := sound_truth (c := c) (D := []) ⟨yes.tidy, qb, List.nodup_nil, by simp⟩ false
  have := cond.branch yes no (u := .split t.whenTrue (q.whenFalse.merge t.whenFalse))
    ⟨yes.below.whenTrue, qb.merge yes.below.whenFalse⟩
    (fun σ es r hr reach => reach.split (by rintro rfl; exact dT es hr) (.refl _)
      (Inits.weakens_merge_right _ _))
    fun σ es r hr reach => by
      obtain ⟨-, rfl⟩ := hr
      exact Covers.weaken reach (Inits.weakens_merge_left _ _)
  simpa using this

/-- The second condition counts if the first does not hold. -/
theorem Tracks.condOr (hC : Tracks c p D₁ m C) (hF : Tracks c p D₂ n F)
    (dF : ∀ es, ¬ F es .done) :
    Tracks c p (D₁ ++ D₂)
      (fun s => m s >>= fun l => n l.whenFalse >>= fun r =>
        pure (.split (l.whenTrue.merge r.whenTrue) r.whenFalse))
      (C.branch (.finish (.truth true)) F) := by
  intro s a s' a' hw hr
  obtain ⟨q, a₁, hw₁, hw⟩ := walks_bind hw
  obtain ⟨f, a₂, hw₂, hw⟩ := walks_bind hw
  obtain ⟨rfl, rfl⟩ := walks_pure hw
  have cond := hC s a q a₁ hw₁ hr.left
  have yes := sound_truth (c := c) (D := [])
    ⟨cond.tidy, cond.below.whenTrue, List.nodup_nil, by simp⟩ true
  have no := hF _ a₁ f a' hw₂ (hr.right cond cond.below.whenFalse)
  have qb := cond.below.whenTrue.mono no.grows.nextSlot
  exact cond.branch yes no (u := .split (q.whenTrue.merge f.whenTrue) f.whenFalse)
    ⟨qb.merge no.below.whenTrue, no.below.whenFalse⟩
    (fun σ es r hr reach => by
      obtain ⟨-, rfl⟩ := hr
      exact Covers.weaken reach (Inits.weakens_merge_left _ _))
    fun σ es r hr reach => reach.split (by rintro rfl; exact dF es hr)
      (Inits.weakens_merge_right _ _) (.refl _)

theorem Tracks.guessed (h : Tracks c p D m B) :
    Tracks c p D (fun s => m s >>= fun t => pure (.split t t)) B.guessed := by
  refine h.map (fun k t ht => ⟨ht, ht⟩) fun a t σ es r hr reach => ?_
  obtain ⟨hr, habrupt⟩ | ⟨b, hr, rfl⟩ := hr
  · exact ⟨⟨r, hr⟩, (reach r hr).abrupt habrupt _⟩
  · refine ⟨⟨_, hr⟩, ?_⟩
    have := reach _ hr
    cases b <;> exact this

end Javelin.Flow
