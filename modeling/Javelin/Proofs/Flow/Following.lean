import Javelin.Proofs.Flow.Endings
import Javelin.Proofs.Flow.Escapes

/-!
# Walks that know how runs end

`Leads m A`: when the analysis takes the step `m` from a state that a path leads to, and reports no
exception as not handled, every ending in `A` is where the analysis says: a run that completes leads
to the state after the step, a jump to what the frames have recorded of it, and a checked exception
is accounted for.

The rules of this logic follow the ways to combine endings.
-/

namespace Javelin.Flow

/-! ## States that paths lead to -/

/-- Whether a path leads to a state, which depends on no condition. -/
def Inits.IsLive (s : Inits) : Prop := ∃ x y, s = .live x y

namespace Inits.IsLive

variable {s t : Inits}

theorem weaken (h : s.IsLive) (hw : s.Weakens t) : t.IsLive := by
  obtain ⟨x, y, rfl⟩ := h
  obtain ⟨x', y', rfl, -⟩ := hw x y rfl
  exact ⟨x', y', rfl⟩

theorem isReachable (h : s.IsLive) : s.isReachable := by
  obtain ⟨x, y, rfl⟩ := h
  rfl

theorem assign (h : s.IsLive) (n : Nat) : (s.assign n).IsLive := by
  obtain ⟨x, y, rfl⟩ := h
  exact ⟨_, _, rfl⟩

theorem forget (h : s.IsLive) (n : Nat) : (s.forget n).IsLive := by
  obtain ⟨x, y, rfl⟩ := h
  exact ⟨_, _, rfl⟩

theorem allow (h : s.IsLive) (ns : List Nat) : (s.allow ns).IsLive := by
  obtain ⟨x, y, rfl⟩ := h
  exact ⟨_, _, rfl⟩

theorem allowFrom (h : s.IsLive) (t : Inits) : (s.allowFrom t).IsLive := by
  obtain ⟨x, y, rfl⟩ := h
  unfold Inits.allowFrom
  split <;> exact ⟨_, _, by first | assumption | rfl⟩

theorem andThen (h : s.IsLive) (t : Inits) : (s.andThen t).IsLive := by
  obtain ⟨x, y, rfl⟩ := h
  unfold Inits.andThen
  split <;> exact ⟨_, _, by first | assumption | rfl⟩

end Inits.IsLive

/-! ## Where runs arrive -/

/-- Where a run is after a step of the analysis, by how it ends. -/
def Arrives (X : Exceptions) (a : Analysis) (s : Inits) : Ending → Prop
  | .done => s.IsLive
  | .truth b => (if b then s.whenTrue else s.whenFalse).IsLive
  | .jump j => ∃ t : Inits, t.IsLive ∧ Recorded j t a.frames
  | .throw e => X.isChecked e → X.Accounted e a.frames

/-- What the parameters of clauses hold is what the analysis takes them for. -/
def Holds (X : Exceptions) (ρ : Held) (a : Analysis) : Prop :=
  ∀ l e, ρ.lookup l = some e → X.isFixed l → X.isChecked e →
    ∃ ts, a.rethrown[l]? = some ts ∧ X.isOneOf e ts

/-- What a step leads to. -/
structure Led (X : Exceptions) (p : Program) (ρ : Held) (a : Analysis) (s : Inits) (A : Endings)
    (a' : Analysis) (s' : Inits) : Prop where
  fit : Fit X p a'
  onward : Onward ρ.names a a'
  ends : a'.unhandled = a.unhandled → Holds X ρ a → s.IsLive → ∀ r, A r → Arrives X a' s' r

/-- A step from a given state leads to some endings. -/
def LeadsAt (X : Exceptions) (p : Program) (W : World → Prop) (ρ : Held) (m : Analyzer Inits)
    (s : Inits) (A : Endings) : Prop :=
  ∀ a w s' a' w', W w → Fit X p a → Ran m a w s' a' w' → W w' ∧ Led X p ρ a s A a' s'

/-- A step from any state leads to some endings. -/
def Leads (X : Exceptions) (p : Program) (W : World → Prop) (ρ : Held)
    (m : Inits → Analyzer Inits) (A : Endings) : Prop :=
  ∀ s, LeadsAt X p W ρ (m s) s A

variable {X : Exceptions} {p : Program} {W : World → Prop} {ρ : Held} {a a' a₁ a₂ a₃ : Analysis}
  {s s' s₁ s₂ t u : Inits} {A B C T F : Endings} {r : Ending}

theorem mem_names_of_lookup {l : LocalId} {e : TypeId} (h : ρ.lookup l = some e) :
    l ∈ ρ.names := by
  induction ρ with
  | nil => cases h
  | cons x ρ ih =>
    rw [List.lookup_cons] at h
    split at h <;> rename_i hx
    · simp [eq_of_beq hx]
    · exact List.mem_cons_of_mem _ (ih h)

theorem Holds.onward (h : Holds X ρ a) (ho : Onward ρ.names a a') : Holds X ρ a' := by
  intro l e hl hfix hc
  rw [ho.rethrown l (mem_names_of_lookup hl)]
  exact h l e hl hfix hc

namespace Arrives

theorem abrupt (h : Arrives X a s r) (hr : r.isAbrupt) (t : Inits) : Arrives X a t r := by
  cases r with
  | done | truth => simp [Ending.isAbrupt] at hr
  | jump | throw => exact h

theorem gain (h : Arrives X a s r) (hg : FramesGain a.frames a'.frames) : Arrives X a' s r := by
  cases r with
  | done | truth => exact h
  | jump j =>
    obtain ⟨t, ht, hj⟩ := h
    exact ⟨t, ht, hj.weaken hg.weaken⟩
  | throw e => exact fun hc => (h hc).gain hg

theorem weaken (h : Arrives X a s r) (hr : ∀ b, r ≠ .truth b) (hw : s.Weakens t) :
    Arrives X a t r := by
  cases r with
  | done => exact Inits.IsLive.weaken h hw
  | truth b => exact absurd rfl (hr b)
  | jump | throw => exact h

theorem mergeLeft (h : Arrives X a s r) (t : Inits) : Arrives X a (s.merge t) r := by
  cases r with
  | done => exact Inits.IsLive.weaken h (Inits.weakens_merge_left s t)
  | truth b =>
    cases b with
    | true =>
      simp only [Arrives, if_true, Inits.whenTrue_merge]
      exact Inits.IsLive.weaken h ((Inits.weakens_whenTrue s).trans (Inits.weakens_join_left _ _))
    | false =>
      simp only [Arrives, Bool.false_eq_true, if_false, Inits.whenFalse_merge]
      exact Inits.IsLive.weaken h ((Inits.weakens_whenFalse s).trans (Inits.weakens_join_left _ _))
  | jump | throw => exact h

theorem mergeRight (h : Arrives X a s r) (t : Inits) : Arrives X a (t.merge s) r := by
  have right := Inits.weakens_join_right _ s.unconditional (Inits.isFlat_unconditional t)
  cases r with
  | done => exact Inits.IsLive.weaken h (Inits.weakens_merge_right t s)
  | truth b =>
    cases b with
    | true =>
      simp only [Arrives, if_true, Inits.whenTrue_merge]
      exact Inits.IsLive.weaken h ((Inits.weakens_whenTrue s).trans right)
    | false =>
      simp only [Arrives, Bool.false_eq_true, if_false, Inits.whenFalse_merge]
      exact Inits.IsLive.weaken h ((Inits.weakens_whenFalse s).trans right)
  | jump | throw => exact h

/-- The split state after a condition that ends like another one. -/
theorem split (h : Arrives X a s r) (hr : r ≠ .done) (ht : s.whenTrue.Weakens t)
    (hf : s.whenFalse.Weakens u) : Arrives X a (.split t u) r := by
  cases r with
  | done => exact absurd rfl hr
  | truth b =>
    cases b with
    | true => exact Inits.IsLive.weaken h ht
    | false => exact Inits.IsLive.weaken h hf
  | jump | throw => exact h

end Arrives

/-! ## Steps in order -/

namespace Led

theorem andThen (h₁ : Led X p ρ a s A a₁ s₁) (h₂ : Led X p ρ a₁ s₁ B a₂ s₂) :
    Led X p ρ a s (A.andThen B) a₂ s₂ where
  fit := h₂.fit
  onward := h₁.onward.trans h₂.onward
  ends hq hρ hs r hr := by
    obtain ⟨q₁, q₂⟩ := h₁.onward.quiet h₂.onward hq
    obtain ⟨hA, habrupt⟩ | ⟨hA, hB⟩ := hr
    · exact ((h₁.ends q₁ hρ hs r hA).abrupt habrupt s₂).gain h₂.onward.frames
    · exact h₂.ends q₂ (hρ.onward h₁.onward) (h₁.ends q₁ hρ hs _ hA) r hB

/-- A step that is followed by others. -/
theorem earlier (h : Led X p ρ a s A a₁ s') (ho : Onward ρ.names a₁ a₂) (hf : Fit X p a₂) :
    Led X p ρ a s A a₂ s' where
  fit := hf
  onward := h.onward.trans ho
  ends hq hρ hs r hr :=
    (h.ends (h.onward.quiet ho hq).1 hρ hs r hr).gain ho.frames

/-- A step that comes later. -/
theorem later (ho : Onward ρ.names a a₁) (h : Led X p ρ a₁ s A a₂ s') : Led X p ρ a s A a₂ s' where
  fit := h.fit
  onward := ho.trans h.onward
  ends hq hρ hs r hr := h.ends (ho.quiet h.onward hq).2 (hρ.onward ho) hs r hr

theorem unmoved (hu : Unmoved a a₁) (h : Led X p ρ a₁ s A a₂ s') : Led X p ρ a s A a₂ s' :=
  h.later hu.onward

/-- Endings that arrive where others do. -/
theorem of_ends (h : Led X p ρ a s A a' s₁)
    (hB : ∀ r, B r → (∀ r', A r' → Arrives X a' s₁ r') → Arrives X a' s₂ r) :
    Led X p ρ a s B a' s₂ :=
  ⟨h.fit, h.onward, fun hq hρ hs r hr => hB r hr (h.ends hq hρ hs)⟩

theorem of_imp (h : Led X p ρ a s A a' s') (hB : ∀ r, B r → A r) : Led X p ρ a s B a' s' :=
  h.of_ends fun r hr ends => ends r (hB r hr)

/-- A step that was taken from a state with fewer paths. -/
theorem before (h : Led X p ρ a s₁ A a' s') (hs : s.IsLive → s₁.IsLive) : Led X p ρ a s A a' s' :=
  ⟨h.fit, h.onward, fun hq hρ hl => h.ends hq hρ (hs hl)⟩

theorem weaken (h : Led X p ρ a s A a' s₁) (hw : s₁.Weakens s₂) (hA : ∀ b, ¬ A (.truth b)) :
    Led X p ρ a s A a' s₂ :=
  h.of_ends fun r hr ends => (ends r hr).weaken (fun b hb => hA b (hb ▸ hr)) hw

theorem nothing (h : Led X p ρ a s₁ A a' s') : Led X p ρ a s₂ .nothing a' t :=
  ⟨h.fit, h.onward, fun _ _ _ _ h => h.elim⟩

theorem either (hA : Led X p ρ a s A a' s') (hB : Led X p ρ a s B a' s') :
    Led X p ρ a s (A.either B) a' s' :=
  ⟨hA.fit, hA.onward, fun hq hρ hs r hr => hr.elim (hA.ends hq hρ hs r) (hB.ends hq hρ hs r)⟩

theorem exposed (h : Led X p ρ a s A a' s') : Led X p ρ a s (A.exposed X) a' s' :=
  h.of_ends fun r hr ends => by
    obtain hr | ⟨e, hc, rfl⟩ := hr
    · exact ends r hr
    · exact fun h => absurd h (by simp [hc])

theorem evaluated (h : Led X p ρ a s A a' s') : Led X p ρ a s (A.evaluated X) a' s' :=
  h.exposed.of_imp fun _ hr => hr.1

theorem decided (h : Led X p ρ a s A a' s') : Led X p ρ a s (A.decided X) a' s' :=
  h.exposed.of_imp fun _ hr => hr.1

/-- A condition and its branches. The last state must cover where either branch ends. -/
theorem branch (hC : Led X p ρ a s C a₁ s₁) (hT : Led X p ρ a₁ s₁.whenTrue T a₂ t)
    (hF : Led X p ρ a₂ s₁.whenFalse F a₃ u)
    (ht : ∀ r, T r → Arrives X a₃ t r → Arrives X a₃ s' r)
    (hu : ∀ r, F r → Arrives X a₃ u r → Arrives X a₃ s' r) :
    Led X p ρ a s (C.branch T F) a₃ s' where
  fit := hF.fit
  onward := hC.onward.trans (hT.onward.trans hF.onward)
  ends hq hρ hs r hr := by
    obtain ⟨q₁, q₂⟩ := hC.onward.quiet (hT.onward.trans hF.onward) hq
    obtain ⟨q₂, q₃⟩ := hT.onward.quiet hF.onward q₂
    obtain ⟨hr, habrupt⟩ | ⟨b, hr₁, hr₂⟩ := hr
    · exact (((hC.ends q₁ hρ hs r hr).abrupt habrupt s').gain hT.onward.frames).gain
        hF.onward.frames
    · have test := hC.ends q₁ hρ hs _ hr₁
      have hρ₁ := hρ.onward hC.onward
      cases b with
      | true => exact ht r hr₂ ((hT.ends q₂ hρ₁ test r hr₂).gain hF.onward.frames)
      | false => exact hu r hr₂ (hF.ends q₃ (hρ₁.onward hT.onward) test r hr₂)

end Led

theorem led_skip (ha : Fit X p a) : Led X p ρ a s .skip a s :=
  ⟨ha, .refl a, fun _ _ hs r hr => by
    subst hr
    exact hs⟩

/-- After a piece that does not complete, any state will do. -/
theorem led_nothing (ha : Fit X p a) : Led X p ρ a s .nothing a t :=
  ⟨ha, .refl a, fun _ _ _ _ h => h.elim⟩

/-- A condition whose truth is known. -/
theorem led_truth (ha : Fit X p a) {b : Bool} (hs : s.Weakens (if b then t else u)) :
    Led X p ρ a s (.finish (.truth b)) a (.split t u) :=
  ⟨ha, .refl a, fun _ _ hl r hr => by
    subst hr
    cases b <;> exact hl.weaken hs⟩

/-- A jump that the frames know of. -/
theorem led_jump {j : Jump} (ha : Fit X p a') (ho : Onward ρ.names a a')
    (hj : Recorded j s a'.frames) : Led X p ρ a s (.finish (.jump j)) a' t :=
  ⟨ha, ho, fun _ _ hl r hr => by
    subst hr
    exact ⟨s, hl, hj⟩⟩

/-- Exceptions that are thrown. -/
theorem Thrown.led {ts : List TypeId} (h : Thrown X p ts ρ.names a a') :
    Led X p ρ a s (.raise X ts) a' s :=
  ⟨h.fit, h.onward, fun hq _ hs r hr => by
    obtain rfl | ⟨e, he, rfl⟩ := hr
    · exact hs
    · exact fun hc => h.accounted hq e hc he⟩

/-! ## Rules -/

section

variable {m n k : Inits → Analyzer Inits}

theorem leads_skip : Leads X p W ρ pure .skip := by
  intro s a w s' a' w' hw ha h
  obtain ⟨rfl, rfl, rfl⟩ := ran_pure h
  exact ⟨hw, led_skip ha⟩

theorem leads_nothing (h : Leads X p W ρ m A) : Leads X p W ρ m .nothing :=
  fun s a w s' a' w' hw ha hr => (h s a w s' a' w' hw ha hr).imp_right fun led => led.nothing

/-- A step that has nothing to do with exceptions. -/
theorem leads_calm (h : ∀ s, Calm W (m s) fun t => s.IsLive → t.IsLive) :
    Leads X p W ρ m .skip := by
  intro s a w s' a' w' hw ha hr
  obtain ⟨hw', same, live⟩ := h s a w s' a' w' hw hr
  refine ⟨hw', same.fit ha, same.onward, fun _ _ hs r hr => ?_⟩
  subst hr
  exact live hs

theorem Leads.bind (h₁ : Leads X p W ρ m A) (h₂ : Leads X p W ρ n B) :
    Leads X p W ρ (fun s => m s >>= n) (A.andThen B) := by
  intro s a w s' a' w' hw ha hr
  obtain ⟨t, a₁, w₁, hr₁, hr₂⟩ := ran_bind hr
  obtain ⟨hw₁, first⟩ := h₁ s a w t a₁ w₁ hw ha hr₁
  obtain ⟨hw', second⟩ := h₂ t a₁ w₁ s' a' w' hw₁ first.fit hr₂
  exact ⟨hw', first.andThen second⟩

theorem LeadsAt.calmBind {α : Type} {c : Analyzer α} {f : α → Analyzer Inits} {Q : α → Prop}
    (hc : Calm W c Q) (hf : ∀ x, Q x → LeadsAt X p W ρ (f x) s A) :
    LeadsAt X p W ρ (c >>= f) s A := by
  intro a w s' a' w' hw ha hr
  obtain ⟨x, a₁, w₁, hr₁, hr₂⟩ := ran_bind hr
  obtain ⟨hw₁, same, hx⟩ := hc a w x a₁ w₁ hw hr₁
  obtain ⟨hw', led⟩ := hf x hx a₁ w₁ s' a' w' hw₁ (same.fit ha) hr₂
  exact ⟨hw', led.unmoved same⟩

/-- A step that starts from a state with more paths. -/
theorem LeadsAt.before {m : Analyzer Inits} (h : LeadsAt X p W ρ m s₁ A)
    (hs : s.IsLive → s₁.IsLive) : LeadsAt X p W ρ m s A :=
  fun a w s' a' w' hw ha hr => (h a w s' a' w' hw ha hr).imp_right fun led => led.before hs

theorem LeadsAt.constantBind {x : Expr} {f : Option Bool → Analyzer Inits}
    (hf : LeadsAt X p W ρ (f (p.constantCondition x)) s A) :
    LeadsAt X p W ρ (constantCondition x >>= f) s A := by
  intro a w s' a' w' hw ha hr
  have hr : Ran (f (a.program.constantCondition x)) a w s' a' w' := hr
  rw [ha.program] at hr
  exact hf a w s' a' w' hw ha hr

theorem LeadsAt.of_imp {m : Analyzer Inits} (h : LeadsAt X p W ρ m s A) (hB : ∀ r, B r → A r) :
    LeadsAt X p W ρ m s B :=
  fun a w s' a' w' hw ha hr => (h a w s' a' w' hw ha hr).imp_right fun led => led.of_imp hB

theorem Leads.of_imp (h : Leads X p W ρ m A) (hB : ∀ r, B r → A r) : Leads X p W ρ m B :=
  fun s => (h s).of_imp hB

theorem Leads.exposed (h : Leads X p W ρ m A) : Leads X p W ρ m (A.exposed X) :=
  fun s a w s' a' w' hw ha hr => (h s a w s' a' w' hw ha hr).imp_right Led.exposed

theorem Leads.evaluated (h : Leads X p W ρ m A) : Leads X p W ρ m (A.evaluated X) :=
  fun s a w s' a' w' hw ha hr => (h s a w s' a' w' hw ha hr).imp_right Led.evaluated

theorem Leads.decided (h : Leads X p W ρ m A) : Leads X p W ρ m (A.decided X) :=
  fun s a w s' a' w' hw ha hr => (h s a w s' a' w' hw ha hr).imp_right Led.decided

/-- The state after a step is changed, and how runs end with it. -/
theorem Leads.map (h : Leads X p W ρ m A) {f : Inits → Inits}
    (hB : ∀ a t r, B r → (∀ r', A r' → Arrives X a t r') → Arrives X a (f t) r) :
    Leads X p W ρ (fun s => m s >>= fun t => pure (f t)) B := by
  intro s a w s' a' w' hw ha hr
  obtain ⟨t, a₁, w₁, hr₁, hr₂⟩ := ran_bind hr
  obtain ⟨rfl, rfl, rfl⟩ := ran_pure hr₂
  exact (h s a w t _ _ hw ha hr₁).imp_right fun led => led.of_ends fun r => hB _ t r

theorem Leads.bindPure (h : Leads X p W ρ m A) : Leads X p W ρ (fun s => m s >>= pure) A :=
  h.map fun _ _ r hr ends => ends r hr

theorem Leads.negated (h : Leads X p W ρ m C) :
    Leads X p W ρ (fun s => m s >>= fun t => pure (.split t.whenFalse t.whenTrue)) C.negated := by
  refine h.map fun a t r hr ends => ?_
  obtain ⟨hr, habrupt⟩ | ⟨b, hr, rfl⟩ := hr
  · exact (ends r hr).abrupt habrupt _
  · have := ends _ hr
    cases b <;> exact this

theorem Leads.valued (h : Leads X p W ρ m C) :
    Leads X p W ρ (fun s => m s >>= fun t => pure t.unconditional) C.valued := by
  refine h.map fun a t r hr ends => ?_
  obtain ⟨hr, habrupt⟩ | ⟨b, hr, rfl⟩ := hr
  · exact (ends r hr).abrupt habrupt _
  · have := ends _ hr
    cases b with
    | true => exact Inits.IsLive.weaken this (Inits.weakens_whenTrue t)
    | false => exact Inits.IsLive.weaken this (Inits.weakens_whenFalse t)

theorem Leads.guessed (h : Leads X p W ρ m A) :
    Leads X p W ρ (fun s => m s >>= fun t => pure (.split t t)) A.guessed := by
  refine h.map fun a t r hr ends => ?_
  obtain ⟨hr, habrupt⟩ | ⟨b, hr, rfl⟩ := hr
  · exact (ends r hr).abrupt habrupt _
  · have := ends _ hr
    cases b <;> exact this

/-- A condition, and what is done in either case. -/
theorem Leads.choose (hC : Leads X p W ρ m C) (hT : Leads X p W ρ n T) (hF : Leads X p W ρ k F)
    {f : Inits → Inits → Inits} (ht : ∀ a t u r, T r → Arrives X a t r → Arrives X a (f t u) r)
    (hu : ∀ a t u r, F r → Arrives X a u r → Arrives X a (f t u) r) :
    Leads X p W ρ (fun s => m s >>= fun q => n q.whenTrue >>= fun t => k q.whenFalse >>= fun u =>
      pure (f t u)) (C.branch T F) := by
  intro s a w s' a' w' hw ha hr
  obtain ⟨q, a₁, w₁, hr₁, hr⟩ := ran_bind hr
  obtain ⟨t, a₂, w₂, hr₂, hr⟩ := ran_bind hr
  obtain ⟨u, a₃, w₃, hr₃, hr⟩ := ran_bind hr
  obtain ⟨rfl, rfl, rfl⟩ := ran_pure hr
  obtain ⟨hw₁, cond⟩ := hC s a w q a₁ w₁ hw ha hr₁
  obtain ⟨hw₂, yes⟩ := hT _ a₁ w₁ t a₂ w₂ hw₁ cond.fit hr₂
  obtain ⟨hw₃, no⟩ := hF _ a₂ w₂ u _ _ hw₂ yes.fit hr₃
  exact ⟨hw₃, cond.branch yes no (ht _ t u) (hu _ t u)⟩

/-- A condition and two values. -/
theorem Leads.branch (hC : Leads X p W ρ m C) (hT : Leads X p W ρ n T) (hF : Leads X p W ρ k F) :
    Leads X p W ρ (fun s => m s >>= fun q => n q.whenTrue >>= fun t => k q.whenFalse >>= fun u =>
      pure (t.merge u)) (C.branch T F) :=
  hC.choose hT hF (fun _ _ u _ _ h => h.mergeLeft u) fun _ t _ _ _ h => h.mergeRight t

/-- A condition and two conditions. -/
theorem Leads.conditional (hC : Leads X p W ρ m C) (hT : Leads X p W ρ n T)
    (hF : Leads X p W ρ k F) (dT : ¬ T .done) (dF : ¬ F .done) :
    Leads X p W ρ (fun s => m s >>= fun q => n q.whenTrue >>= fun t => k q.whenFalse >>= fun u =>
      pure (.split (t.whenTrue.merge u.whenTrue) (t.whenFalse.merge u.whenFalse)))
      (C.branch T F) := by
  refine hC.choose hT hF (fun a t u r hr h => h.split ?_ (Inits.weakens_merge_left _ _)
    (Inits.weakens_merge_left _ _)) fun a t u r hr h => h.split ?_ (Inits.weakens_merge_right _ _)
    (Inits.weakens_merge_right _ _)
  · rintro rfl
    exact dT hr
  · rintro rfl
    exact dF hr

/-- The second condition counts if the first holds. -/
theorem Leads.condAnd (hC : Leads X p W ρ m C) (hT : Leads X p W ρ n T) (dT : ¬ T .done) :
    Leads X p W ρ (fun s => m s >>= fun l => n l.whenTrue >>= fun r =>
      pure (.split r.whenTrue (l.whenFalse.merge r.whenFalse)))
      (C.branch T (.finish (.truth false))) := by
  intro s a w s' a' w' hw ha hr
  obtain ⟨q, a₁, w₁, hr₁, hr⟩ := ran_bind hr
  obtain ⟨t, a₂, w₂, hr₂, hr⟩ := ran_bind hr
  obtain ⟨rfl, rfl, rfl⟩ := ran_pure hr
  obtain ⟨hw₁, cond⟩ := hC s a w q a₁ w₁ hw ha hr₁
  obtain ⟨hw₂, yes⟩ := hT _ a₁ w₁ t _ _ hw₁ cond.fit hr₂
  have no : Led X p ρ a' q.whenFalse (.finish (.truth false)) a'
      (.split t.whenTrue (q.whenFalse.merge t.whenFalse)) :=
    led_truth yes.fit (Inits.weakens_merge_left _ _)
  refine ⟨hw₂, cond.branch yes no (fun r hr h => h.split ?_ (.refl _)
    (Inits.weakens_merge_right _ _)) fun r _ h => h⟩
  rintro rfl
  exact dT hr

/-- The second condition counts if the first does not hold. -/
theorem Leads.condOr (hC : Leads X p W ρ m C) (hF : Leads X p W ρ n F) (dF : ¬ F .done) :
    Leads X p W ρ (fun s => m s >>= fun l => n l.whenFalse >>= fun r =>
      pure (.split (l.whenTrue.merge r.whenTrue) r.whenFalse))
      (C.branch (.finish (.truth true)) F) := by
  intro s a w s' a' w' hw ha hr
  obtain ⟨q, a₁, w₁, hr₁, hr⟩ := ran_bind hr
  obtain ⟨u, a₂, w₂, hr₂, hr⟩ := ran_bind hr
  obtain ⟨rfl, rfl, rfl⟩ := ran_pure hr
  obtain ⟨hw₁, cond⟩ := hC s a w q a₁ w₁ hw ha hr₁
  obtain ⟨hw₂, no⟩ := hF _ a₁ w₁ u _ _ hw₁ cond.fit hr₂
  have yes : Led X p ρ a₁ q.whenTrue (.finish (.truth true)) a₁
      (.split (q.whenTrue.merge u.whenTrue) u.whenFalse) :=
    led_truth cond.fit (Inits.weakens_merge_left _ _)
  refine ⟨hw₂, cond.branch yes no (fun r _ h => h) fun r hr h => h.split ?_
    (Inits.weakens_merge_right _ _) (.refl _)⟩
  rintro rfl
  exact dF hr

end

end Javelin.Flow
