import Javelin.Proofs.Flow.Throwing
import Javelin.Proofs.Flow.Walks

/-!
# What is asked about exceptions

`Exceptions.Agrees` says that in the worlds of some kind, what is looked up about exceptions is what
`Exceptions` says. In such a world, every exception that is noted as thrown is accounted for, or
reported.

1. How steps are taken apart together with their worlds, and `Calm`, a step that has nothing to do
   with exceptions.
2. Questions about classes.
3. An exception on its way outward.
-/

namespace Javelin.Flow

/-! ## Steps in a world -/

section

variable {α β : Type} {a a' : Analysis} {w w' : World} {r : α}

theorem ran_pure {x : α} (h : Ran (pure x) a w r a' w') : r = x ∧ a' = a ∧ w' = w := by
  cases h
  exact ⟨rfl, rfl, rfl⟩

theorem ran_bind {m : Analyzer β} {f : β → Analyzer α} (h : Ran (m >>= f) a w r a' w') :
    ∃ b a₁ w₁, Ran m a w b a₁ w₁ ∧ Ran (f b) a₁ w₁ r a' w' := by
  unfold Ran at h
  rw [StateT.run_bind] at h
  obtain ⟨x, w₁, h₁, h₂⟩ := Run.bind_ok h
  exact ⟨x.1, x.2, w₁, h₁, h₂⟩

theorem ran_lift {m : Lookup α} (h : Ran (liftM m : Analyzer α) a w r a' w') :
    a' = a ∧ m w = .ok r w' := by
  obtain ⟨x, w₁, h₁, h₂⟩ := Run.bind_ok (m := m) h
  cases h₂
  exact ⟨rfl, h₁⟩

theorem ran_liftBind {m : Lookup β} {f : β → Analyzer α}
    (h : Ran ((liftM m : Analyzer β) >>= f) a w r a' w') :
    ∃ b w₁, m w = .ok b w₁ ∧ Ran (f b) a w₁ r a' w' := by
  obtain ⟨b, a₁, w₁, h₁, h₂⟩ := ran_bind h
  obtain ⟨rfl, hm⟩ := ran_lift h₁
  exact ⟨b, w₁, hm, h₂⟩

theorem ran_getBind {f : Analysis → Analyzer α} (h : Ran (get >>= f) a w r a' w') :
    Ran (f a) a w r a' w' := h

theorem ran_gets {g : Analysis → α} (h : Ran (do return g (← get)) a w r a' w') :
    r = g a ∧ a' = a ∧ w' = w :=
  ran_pure (x := g a) (ran_getBind h)

theorem ran_modify {g : Analysis → Analysis} {u : Unit} (h : Ran (modify g) a w u a' w') :
    a' = g a ∧ w' = w := by
  cases h
  exact ⟨rfl, rfl⟩

theorem ran_modifyBind {g : Analysis → Analysis} {f : Unit → Analyzer α}
    (h : Ran (modify g >>= f) a w r a' w') : Ran (f ()) (g a) w r a' w' := h

theorem ran_knownBind {g : Findings → β} {f : β → Analyzer α}
    (h : Ran (known g >>= f) a w r a' w') : Ran (f (g a.program.findings)) a w r a' w' := h

end

/-! ## States of the analysis -/

/-- How many exceptions were reported as not handled. -/
def Analysis.unhandled (a : Analysis) : Nat := a.reported.count .unhandledException

/-- What always holds of a state of the analysis: its frames and the exceptions of parameters are
known. -/
structure Fit (X : Exceptions) (p : Program) (a : Analysis) : Prop where
  program : a.program = p
  frames : ∀ f ∈ a.frames, X.KnownFrame f
  rethrown : ∀ l ts, a.rethrown[l]? = some ts → X.isParam l ∧ ∀ t ∈ ts, X.isKnown t

/-- How a later state relates to an earlier one: frames and reports only gain, and the given
parameters still stand for the same exceptions. -/
structure Onward (ls : List LocalId) (a a' : Analysis) : Prop where
  frames : FramesGain a.frames a'.frames
  rethrown : ∀ l ∈ ls, a'.rethrown[l]? = a.rethrown[l]?
  unhandled : a.unhandled ≤ a'.unhandled

/-- Two states that differ in nothing that concerns exceptions. -/
structure Unmoved (a a' : Analysis) : Prop where
  program : a'.program = a.program
  frames : a'.frames = a.frames
  rethrown : a'.rethrown = a.rethrown
  unhandled : a'.unhandled = a.unhandled

section

variable {X : Exceptions} {p : Program} {ls : List LocalId} {a a' a'' : Analysis}

theorem Onward.refl (a : Analysis) : Onward ls a a :=
  ⟨FramesGain.refl _, fun _ _ => rfl, Nat.le_refl _⟩

theorem Onward.trans (h : Onward ls a a') (h' : Onward ls a' a'') : Onward ls a a'' where
  frames := h.frames.trans h'.frames
  rethrown l hl := (h'.rethrown l hl).trans (h.rethrown l hl)
  unhandled := Nat.le_trans h.unhandled h'.unhandled

theorem Onward.mono {ls' : List LocalId} (h : Onward ls a a') (hl : ∀ l ∈ ls', l ∈ ls) :
    Onward ls' a a' :=
  ⟨h.frames, fun l h' => h.rethrown l (hl l h'), h.unhandled⟩

/-- Two parts of a walk in which nothing was reported as not handled. -/
theorem Onward.quiet (h : Onward ls a a') (h' : Onward ls a' a'')
    (hq : a''.unhandled = a.unhandled) : a'.unhandled = a.unhandled ∧ a''.unhandled = a'.unhandled := by
  have := h.unhandled
  have := h'.unhandled
  omega

theorem Unmoved.refl (a : Analysis) : Unmoved a a := ⟨rfl, rfl, rfl, rfl⟩

theorem Unmoved.trans (h : Unmoved a a') (h' : Unmoved a' a'') : Unmoved a a'' :=
  ⟨h'.program.trans h.program, h'.frames.trans h.frames, h'.rethrown.trans h.rethrown,
    h'.unhandled.trans h.unhandled⟩

theorem Unmoved.fit (h : Unmoved a a') (hf : Fit X p a) : Fit X p a' where
  program := h.program.trans hf.program
  frames := by
    rw [h.frames]
    exact hf.frames
  rethrown := by
    rw [h.rethrown]
    exact hf.rethrown

theorem Unmoved.onward (h : Unmoved a a') : Onward ls a a' where
  frames := by
    rw [h.frames]
    exact FramesGain.refl _
  rethrown _ _ := by rw [h.rethrown]
  unhandled := Nat.le_of_eq h.unhandled.symm

end

/-! ## What is looked up -/

/-- What is looked up about exceptions in worlds of some kind. -/
structure Exceptions.Agrees [Answers] (X : Exceptions) (W : World → Prop) : Prop where
  /-- Reporting a problem leads to another such world. -/
  reports : ∀ {w} rs fs, W w → W { w with reports := rs, findings := fs }
  shape : ∀ {t w s w'}, X.isKnown t → W w → Lookup.shape t w = .ok s w' →
    W w' ∧ s.isAbsent = false ∧ s.isMissing = false
  subtype : ∀ {s t w b w'}, X.isKnown s → X.isKnown t → W w →
    Lookup.isSubtype s t w = .ok b w' → W w' ∧ b = X.isSub s t
  typeName : ∀ {t w n w'}, X.isKnown t → W w → Lookup.typeName t w = .ok n w' → W w'
  exception : ∀ {w t w'}, W w → Lookup.wellKnown "java.lang.Exception" w = .ok t w' →
    W w' ∧ t = X.exception
  runtimeException : ∀ {w t w'}, W w →
    Lookup.wellKnown "java.lang.RuntimeException" w = .ok t w' → W w' ∧ t = X.runtimeException
  error : ∀ {w t w'}, W w → Lookup.wellKnown "java.lang.Error" w = .ok t w' →
    W w' ∧ t = X.error
  throws : ∀ {w} m, W w → (w.methods.getD m.index {}).throws = X.throws m
  localType : ∀ {w} l, W w → (w.locals.getD l.index {}).type = X.localType l
  isFixed : ∀ {w} l, W w → X.isFixed l =
    ((w.locals.getD l.index {}).isEffectivelyFinal || (w.locals.getD l.index {}).isFinal)
  /-- A resource is closed by the first method of the name without parameters. -/
  closing : ∀ {t w ms w'}, X.isResource t → W w → Lookup.methods t "close" w = .ok ms w' →
    W w' ∧ ((ms.find? fun m => (w'.methods.getD m.index {}).params.isEmpty).map X.throws).getD [] =
      X.closing t

/-! ### A few classes -/

/-- What a program of a few classes says about exceptions. -/
def fewExceptions : Exceptions where
  isKnown t := t ∈ fewIds
  isSub s t := t ∈ classesFrom s
  exception := ⟨13⟩
  runtimeException := ⟨14⟩
  error := ⟨15⟩
  throws m := (fewClasses.methods.getD m.index {}).throws
  isResource _ := False
  closing _ := []
  localType l := (fewClasses.locals.getD l.index {}).type
  isFixed l := (fewClasses.locals.getD l.index {}).isEffectivelyFinal ||
    (fewClasses.locals.getD l.index {}).isFinal
  isParam _ := False

theorem fewExceptions_lawful : fewExceptions.Lawful := by
  have hall : ∀ s ∈ fewIds, ∀ t ∈ classesFrom s, (∀ u ∈ classesFrom t, u ∈ classesFrom s) ∧
      ∀ u ∈ classesFrom s, u ∈ classesFrom t ∨ t ∈ classesFrom u := by
    decide
  have known : ∀ t : TypeId, fewIds.contains t → t ∈ fewIds := fun _ => List.mem_of_elem_eq_true
  have hids : ∀ t ∈ fewIds, t.isSome := by decide
  refine { trans := ?trans, chain := ?chain, isSome := hids, resource := nofun, exception := known _ rfl,
           runtimeException := known _ rfl, error := known _ rfl, throws := ?throws, closing := nofun }
  case trans =>
    intro s t u hst htu
    have hst : t ∈ classesFrom s := of_decide_eq_true hst
    exact decide_eq_true ((hall s (mem_fewIds_of_mem hst) t hst).1 u (of_decide_eq_true htu))
  case chain =>
    intro s t u hst hsu
    have hst : t ∈ classesFrom s := of_decide_eq_true hst
    exact ((hall s (mem_fewIds_of_mem hst) t hst).2 u (of_decide_eq_true hsu)).imp
      decide_eq_true decide_eq_true
  case throws =>
    rintro ⟨_ | _ | n⟩ t ht
    · cases ht
    · obtain rfl := List.mem_singleton.1 ht
      exact List.mem_of_elem_eq_true rfl
    · cases ht

/-- The worlds of these classes answer what it says. -/
theorem fewExceptions_agrees {n : Nat} : @Exceptions.Agrees ⟨answer (n + 2)⟩ fewExceptions FewClasses := by
  let _ : Answers := ⟨answer (n + 2)⟩
  -- A well-known class is looked up in the table, which no report changes.
  have known : ∀ {name : Text} {t u w w'}, fewClasses.wellKnown[name]? = some t → FewClasses w →
      Lookup.wellKnown name w = .ok u w' → FewClasses w' ∧ u = t := by
    intro name t u w w' ht hw h
    cases (hw.wellKnown ht).symm.trans h
    exact ⟨hw, rfl⟩
  obtain ⟨-, hexception, hruntime, herror⟩ := wellKnown_fewClasses
  refine { reports := ?reports, shape := ?shape, subtype := ?subtype, typeName := ?typeName,
           exception := known hexception, runtimeException := known hruntime,
           error := known herror, throws := ?throws, localType := ?localType, isFixed := ?isFixed,
           closing := fun h => h.elim }
  case reports =>
    rintro w rs fs ⟨_, _, rfl⟩
    exact ⟨rs, fs, rfl⟩
  case shape =>
    intro t w s w' ht hw h
    obtain ⟨name, super, hclass⟩ := hw.isClass ht
    cases (Lookup.shape_class hclass).symm.trans h
    exact ⟨hw, rfl, rfl⟩
  case subtype =>
    intro s t w b w' hs ht hw h
    cases (hw.subtype hs ht).symm.trans h
    exact ⟨hw, rfl⟩
  case typeName =>
    intro t w text w' ht hw h
    obtain ⟨text, htext⟩ := hw.typeName (n := n + 1) ht
    cases htext.symm.trans h
    exact hw
  all_goals
    rintro w x ⟨_, _, rfl⟩
    rfl

/-! ## Steps without exceptions -/

/-- A step that has nothing to do with exceptions and gives a result of some kind. -/
def Calm (W : World → Prop) {α : Type} (m : Analyzer α) (Q : α → Prop) : Prop :=
  ∀ a w r a' w', W w → Ran m a w r a' w' → W w' ∧ Unmoved a a' ∧ Q r

section

variable {α β : Type} {W : World → Prop} {P : β → Prop} {Q : α → Prop}

theorem calm_pure {x : α} (hx : Q x) : Calm W (pure x : Analyzer α) Q := by
  intro a w r a' w' hw h
  obtain ⟨rfl, rfl, rfl⟩ := ran_pure h
  exact ⟨hw, .refl _, hx⟩

theorem Calm.bind {m : Analyzer β} {f : β → Analyzer α} (hm : Calm W m P)
    (hf : ∀ b, P b → Calm W (f b) Q) : Calm W (m >>= f) Q := by
  intro a w r a' w' hw h
  obtain ⟨b, a₁, w₁, h₁, h₂⟩ := ran_bind h
  obtain ⟨hw₁, same, hb⟩ := hm _ _ _ _ _ hw h₁
  obtain ⟨hw', same', hr⟩ := hf b hb _ _ _ _ _ hw₁ h₂
  exact ⟨hw', same.trans same', hr⟩

theorem Calm.any {m : Analyzer α} (hm : Calm W m Q) : Calm W m fun _ => True :=
  fun a w r a' w' hw h =>
    have step := hm a w r a' w' hw h
    ⟨step.1, step.2.1, trivial⟩

theorem calm_gets (g : Analysis → α) : Calm W (do return g (← get) : Analyzer α) fun _ => True := by
  intro a w r a' w' hw h
  obtain ⟨-, rfl, rfl⟩ := ran_gets h
  exact ⟨hw, .refl _, trivial⟩

theorem calm_get : Calm W (get : Analyzer Analysis) fun _ => True := calm_gets fun a => a

theorem calm_known (f : Findings → α) : Calm W (known f) fun _ => True :=
  calm_gets fun a => f a.program.findings

theorem calm_slot (v : Symbol) : Calm W (slot? v) fun _ => True := calm_gets fun a => a.slots[v]?

theorem calm_modify {g : Analysis → Analysis} (h : ∀ a, Unmoved a (g a)) :
    Calm W (modify g : Analyzer Unit) fun _ => True := by
  intro a w r a' w' hw hr
  obtain ⟨rfl, rfl⟩ := ran_modify hr
  exact ⟨hw, h a, trivial⟩

theorem calm_foldlM {xs : List β} {f : α → β → Analyzer α} {x : α} (hx : Q x)
    (h : ∀ x y, Q x → Calm W (f x y) Q) : Calm W (xs.foldlM f x) Q := by
  induction xs generalizing x with
  | nil => exact calm_pure hx
  | cons y ys ih => exact (h x y hx).bind fun z hz => ih hz

theorem calm_filterMapM {xs : List β} {f : β → Analyzer (Option α)}
    (h : ∀ x, Calm W (f x) fun _ => True) : Calm W (xs.filterMapM f) fun _ => True := by
  induction xs with
  | nil => exact calm_pure trivial
  | cons x xs ih =>
    rw [List.filterMapM_cons]
    refine (h x).bind fun r _ => ?_
    cases r with
    | none => exact ih
    | some y => exact ih.bind fun _ _ => calm_pure trivial

end

/-- Reporting a problem changes the reports and marks the member. -/
theorem lookup_report {w w' : World} {c : Context} {id : Problem.Id} {i : Info} {args : List Text} {u : Unit}
    (hc : c.isQuiet = false) (h : Lookup.report c id i args w = .ok u w') :
    ∃ rs fs, w' = { w with reports := rs, findings := fs } := by
  have marks : ∀ {f v v'}, Lookup.modifyFindings c f v = .ok () v' →
      ∃ fs, v' = { v with findings := fs } := by
    intro f v v' h
    simp only [Lookup.modifyFindings, hc, Bool.false_eq_true, if_false] at h
    cases h
    exact ⟨_, rfl⟩
  have adds : ∀ {b : Bool} {p : Problem} {v v'}, (if b then pure () else
      modify fun w : World => { w with reports := w.reports.push p } : Lookup Unit) v =
        .ok u v' → ∃ rs, v' = { v with reports := rs } := by
    intro b p v v' h
    cases b <;> cases h <;> exact ⟨_, rfl⟩
  obtain ⟨e, w₁, h₁, h⟩ := Run.bind_ok h
  cases h₁
  dsimp only at h
  split at h
  · cases hm : c.member with
    | some m =>
      rw [hm] at h
      obtain ⟨_, w₂, h₂, h⟩ := Run.bind_ok h
      obtain ⟨fs, rfl⟩ := marks h₂
      obtain ⟨rs, rfl⟩ := adds h
      exact ⟨rs, fs, rfl⟩
    | none =>
      rw [hm] at h
      obtain ⟨rs, rfl⟩ := adds h
      exact ⟨rs, _, rfl⟩
  · obtain ⟨rs, rfl⟩ := adds h
    exact ⟨rs, _, rfl⟩

section

variable [Answers] {X : Exceptions} {p : Program} {W : World → Prop} {a a' : Analysis}
  {w w' : World} {e s t : TypeId} {ts : List TypeId} {ls : List LocalId}

theorem ran_report (hA : X.Agrees W) {id : Problem.Id} {i : Info} {args : List Text} {u : Unit}
    (hw : W w) (h : Ran (report id i args) a w u a' w') :
    W w' ∧ a' = { a with reported := id :: a.reported } := by
  obtain ⟨v, w₁, h₁, h₂⟩ := ran_liftBind (ran_getBind h)
  obtain ⟨rs, fs, rfl⟩ := lookup_report rfl h₁
  obtain ⟨rfl, rfl⟩ := ran_modify h₂
  exact ⟨hA.reports rs fs hw, rfl⟩

theorem calm_report (hA : X.Agrees W) {id : Problem.Id} (hid : id ≠ .unhandledException) (i : Info)
    (args : List Text) : Calm W (report id i args) fun _ => True := by
  intro a w r a' w' hw h
  obtain ⟨hw', rfl⟩ := ran_report hA hw h
  refine ⟨hw', ⟨rfl, rfl, rfl, ?_⟩, trivial⟩
  simp [Analysis.unhandled, hid]

end

/-! ## Classes -/

section

variable [Answers] {X : Exceptions} {p : Program} {W : World → Prop} (hX : X.Lawful)
  (hA : X.Agrees W) {a a' : Analysis} {w w' : World} {e t : TypeId} {ts : List TypeId} {b : Bool}

include hA in
theorem lookup_anyM (ht : X.isKnown t) (hts : ∀ u ∈ ts, X.isKnown u) (hw : W w)
    (h : Lookup.anyM (Lookup.isSubtype t) ts w = .ok b w') : W w' ∧ b = X.isOneOf t ts := by
  induction ts generalizing w with
  | nil =>
    cases h
    exact ⟨hw, rfl⟩
  | cons u ts ih =>
    obtain ⟨b', w₁, h₁, h⟩ := Run.bind_ok h
    obtain ⟨hw₁, hb⟩ := hA.subtype ht (hts u List.mem_cons_self) hw h₁
    subst hb
    simp only [Exceptions.isOneOf, List.any_cons] at ih ⊢
    cases hsub : X.isSub t u with
    | true =>
      rw [hsub] at h
      cases h
      exact ⟨hw₁, rfl⟩
    | false =>
      rw [hsub] at h
      exact ih (fun v hv => hts v (List.mem_cons_of_mem _ hv)) hw₁ h

include hX hA

theorem ran_isChecked (ht : X.isKnown t) (hw : W w) (h : Ran (isChecked t) a w b a' w') :
    W w' ∧ a' = a ∧ b = X.isChecked t := by
  obtain ⟨s, w₁, h₁, h⟩ := ran_liftBind h
  obtain ⟨hw₁, habsent, hmissing⟩ := hA.shape ht hw h₁
  simp only [habsent, hmissing, Bool.or_self, Bool.false_eq_true, if_false] at h
  obtain ⟨r, w₂, h₂, h⟩ := ran_liftBind h
  obtain ⟨hw₂, rfl⟩ := hA.runtimeException hw₁ h₂
  obtain ⟨b₁, w₃, h₃, h⟩ := ran_liftBind h
  obtain ⟨hw₃, rfl⟩ := hA.subtype ht hX.runtimeException hw₂ h₃
  unfold Exceptions.isChecked
  split at h <;> rename_i hsub
  · obtain ⟨rfl, rfl, rfl⟩ := ran_pure h
    exact ⟨hw₃, rfl, by simp [hsub]⟩
  · obtain ⟨r, w₄, h₄, h⟩ := ran_liftBind h
    obtain ⟨hw₄, rfl⟩ := hA.error hw₃ h₄
    obtain ⟨b₂, w₅, h₅, h⟩ := ran_liftBind h
    obtain ⟨hw₅, rfl⟩ := hA.subtype ht hX.error hw₄ h₅
    obtain ⟨rfl, rfl, rfl⟩ := ran_pure h
    exact ⟨hw₅, rfl, by simp [hsub]⟩

end

/-! ## Handlers -/

theorem mem_insertType {t u : TypeId} {ts : List TypeId} : u ∈ insertType t ts ↔ u = t ∨ u ∈ ts := by
  unfold insertType
  split <;> rename_i h
  · have : t ∈ ts := by simpa using h
    grind
  · simp [or_comm]

/-- What an exception leaves at the alternatives of a clause. -/
structure Offered (X : Exceptions) (t : TypeId) (as : List Alternative) (before : List TypeId)
    (r : List Alternative × List TypeId × Bool) : Prop where
  types : r.1.map Alternative.type = as.map Alternative.type
  caught : ∀ u ∈ before, u ∈ r.2.1
  known : (∀ u ∈ before, X.isKnown u) → ∀ u ∈ r.2.1, X.isKnown u
  noted : ∀ e, X.isSub e t → X.isOneOf e (as.map Alternative.type) → X.isOneOf e r.2.1
  all : r.2.2 → X.isOneOf t (as.map Alternative.type)

section

variable [Answers] {X : Exceptions} {p : Program} {W : World → Prop} (hX : X.Lawful)
  (hA : X.Agrees W) {a a' : Analysis} {w w' : World} {t : TypeId} {ts : List TypeId}
include hX hA

theorem ran_offerAlternatives {as : List Alternative} {caught : List TypeId}
    {r : List Alternative × List TypeId × Bool} (ht : X.isKnown t)
    (has : ∀ x ∈ as, X.isKnown x.type) (hw : W w)
    (h : Ran (offerAlternatives t caught as) a w r a' w') :
    W w' ∧ a' = a ∧ Offered X t as caught r := by
  induction as generalizing caught r w a' w' with
  | nil =>
    obtain ⟨rfl, rfl, rfl⟩ := ran_pure h
    exact ⟨hw, rfl, ⟨rfl, fun _ hu => hu, fun h => h, by simp [Exceptions.isOneOf], nofun⟩⟩
  | cons x as ih =>
    have hx := has x List.mem_cons_self
    obtain ⟨b, w₁, h₁, h⟩ := ran_liftBind h
    obtain ⟨hw₁, rfl⟩ := hA.subtype ht hx hw h₁
    split at h <;> rename_i hall
    · obtain ⟨rfl, rfl, rfl⟩ := ran_pure h
      refine ⟨hw₁, rfl, ⟨rfl, fun u hu => mem_insertType.2 (.inr hu), fun hk u hu => ?_,
        fun e he _ => ?_, fun _ => ?_⟩⟩
      · obtain rfl | hu := mem_insertType.1 hu
        · exact ht
        · exact hk u hu
      · exact Exceptions.isOneOf_iff.2 ⟨t, mem_insertType.2 (.inl rfl), he⟩
      · exact Exceptions.isOneOf_iff.2 ⟨x.type, by simp, hall⟩
    · obtain ⟨b, w₂, h₂, h⟩ := ran_liftBind h
      obtain ⟨hw₂, rfl⟩ := hA.subtype hx ht hw₁ h₂
      -- What is caught after the first alternative.
      obtain ⟨y, first, htype, hsub, hknown, hnoted, h⟩ : ∃ (y : Alternative) (first : List TypeId),
          y.type = x.type ∧ (∀ u ∈ caught, u ∈ first) ∧
          ((∀ u ∈ caught, X.isKnown u) → ∀ u ∈ first, X.isKnown u) ∧
          (X.isSub x.type t → x.type ∈ first) ∧
          Ran (offerAlternatives t first as >>= fun z => pure (y :: z.1, z.2.1, z.2.2))
            a w₂ r a' w' := by
        split at h <;> rename_i hpart
        · refine ⟨{ x with isUsed := true }, insertType x.type caught, rfl,
            fun u hu => mem_insertType.2 (.inr hu), fun hk u hu => ?_,
            fun _ => mem_insertType.2 (.inl rfl), h⟩
          obtain rfl | hu := mem_insertType.1 hu
          · exact hx
          · exact hk u hu
        · exact ⟨x, caught, rfl, fun _ hu => hu, fun hk => hk, fun h' => absurd h' hpart, h⟩
      obtain ⟨z, a₁, w₃, h₃, h₄⟩ := ran_bind h
      obtain ⟨hw₃, rfl, rest⟩ := ih (fun v hv => has v (List.mem_cons_of_mem _ hv)) hw₂ h₃
      obtain ⟨rfl, rfl, rfl⟩ := ran_pure h₄
      refine ⟨hw₃, rfl, ⟨by simp [htype, rest.types], fun u hu => rest.caught u (hsub u hu),
        fun hk => rest.known (hknown hk), fun e he hone => ?_, fun hz => ?_⟩⟩
      · obtain ⟨u, hu, heu⟩ := Exceptions.isOneOf_iff.1 hone
        obtain rfl | hu := List.mem_cons.1 hu
        · -- Both classes are above the exception, so one is above the other.
          have hpart := (hX.chain e t _ he heu).resolve_left hall
          exact Exceptions.isOneOf_iff.2 ⟨_, rest.caught _ (hnoted hpart), heu⟩
        · exact rest.noted e he (Exceptions.isOneOf_iff.2 ⟨u, hu, heu⟩)
      · exact Exceptions.isOneOf_mono (rest.all hz) fun u hu => List.mem_cons_of_mem _ hu

/-- What an exception leaves at clauses. -/
theorem ran_offer {hs : List Handler} {r : List Handler × Bool} (ht : X.isKnown t)
    (hhs : ∀ x ∈ hs, X.KnownHandler x) (hw : W w) (h : Ran (offer t hs) a w r a' w') :
    W w' ∧ a' = a ∧ List.Forall₂ Handler.Gains hs r.1 ∧ (∀ x ∈ r.1, X.KnownHandler x) ∧
      ∀ e, X.isSub e t → (∀ x, X.handlerFor r.1 e = some x → X.isOneOf e x.caught) ∧
        (r.2 → X.handlerFor r.1 e ≠ none) := by
  induction hs generalizing r w a' w' with
  | nil =>
    obtain ⟨rfl, rfl, rfl⟩ := ran_pure h
    exact ⟨hw, rfl, .nil, nofun, fun e _ => ⟨nofun, nofun⟩⟩
  | cons x hs ih =>
    have hx := hhs x List.mem_cons_self
    have hhs' := fun y hy => hhs y (List.mem_cons_of_mem x hy)
    obtain ⟨y, a₁, w₁, h₁, h₂⟩ := ran_bind h
    obtain ⟨hw₁, rfl, offered⟩ := ran_offerAlternatives hX hA ht
      (fun z hz => hx.types _ (List.mem_map_of_mem hz)) hw h₁
    dsimp only at h₂
    -- The clause after the exception was offered to it.
    have gains : x.Gains { x with alternatives := y.1, caught := y.2.1 } :=
      ⟨offered.types, offered.caught⟩
    have hknown : X.KnownHandler { x with alternatives := y.1, caught := y.2.1 } := by
      refine ⟨fun u hu => hx.types u ?_, offered.known hx.caught⟩
      rwa [← gains.types]
    split at h₂ <;> rename_i hall
    · obtain ⟨rfl, rfl, rfl⟩ := ran_pure h₂
      refine ⟨hw₁, rfl, .cons gains (List.forall₂_same.2 fun z _ => .refl z),
        List.forall_mem_cons.2 ⟨hknown, hhs'⟩, fun e he => ?_⟩
      have hone : X.isOneOf e x.types := Exceptions.isOneOf_trans hX he (offered.all hall)
      rw [Exceptions.handlerFor_cons_pos (gains.types ▸ hone)]
      refine ⟨fun z hz => ?_, nofun⟩
      obtain rfl := Option.some.inj hz
      exact offered.noted e he hone
    · obtain ⟨z, a₂, w₂, h₃, h₄⟩ := ran_bind h₂
      obtain ⟨hw₂, rfl, rest, known, found⟩ := ih hhs' hw₁ h₃
      obtain ⟨rfl, rfl, rfl⟩ := ran_pure h₄
      refine ⟨hw₂, rfl, .cons gains rest, List.forall_mem_cons.2 ⟨hknown, known⟩, fun e he => ?_⟩
      by_cases hone : X.isOneOf e x.types
      · rw [Exceptions.handlerFor_cons_pos (gains.types ▸ hone)]
        refine ⟨fun u hu => ?_, nofun⟩
        obtain rfl := Option.some.inj hu
        exact offered.noted e he hone
      · rw [Exceptions.handlerFor_cons_neg (gains.types ▸ hone)]
        exact found e he

/-- An exception on its way outward is accounted for, unless it leaves the body undeclared. -/
theorem ran_escape {fs : List Frame} {r : List Frame × Bool} (ht : X.isKnown t)
    (hfs : ∀ f ∈ fs, X.KnownFrame f) (hw : W w) (h : Ran (escape t fs) a w r a' w') :
    W w' ∧ a' = a ∧ FramesGain fs r.1 ∧ (∀ f ∈ r.1, X.KnownFrame f) ∧
      (r.2 = false → ∀ e, X.isChecked e → X.isSub e t → X.Accounted e r.1) := by
  induction fs generalizing r w a' w' with
  | nil =>
    obtain ⟨rfl, rfl, rfl⟩ := ran_pure h
    exact ⟨hw, rfl, .nil, nofun, fun _ _ _ _ => trivial⟩
  | cons f fs ih =>
    have hf := hfs f List.mem_cons_self
    have hfs' := fun g hg => hfs g (List.mem_cons_of_mem f hg)
    -- The walk ends at this frame.
    have here : ∀ {b : Bool} {v v' : World}, W v → Ran (pure (f :: fs, b)) a v r a' v' →
        (b = false → ∀ e, X.isChecked e → X.isSub e t → X.Accounted e (f :: fs)) →
        W v' ∧ a' = a ∧ FramesGain (f :: fs) r.1 ∧ (∀ f ∈ r.1, X.KnownFrame f) ∧
          (r.2 = false → ∀ e, X.isChecked e → X.isSub e t → X.Accounted e r.1) := by
      intro b v v' hv h hacc
      obtain ⟨rfl, rfl, rfl⟩ := ran_pure h
      exact ⟨hv, rfl, FramesGain.refl _, hfs, hacc⟩
    -- The walk goes on, and the frame has become another one.
    have onward : ∀ {g : Frame} {v v' : World}, W v → f.Gains g → X.KnownFrame g →
        Ran (escape t fs >>= fun x => pure (g :: x.1, x.2)) a v r a' v' →
        (∀ e rest, X.isSub e t → X.Accounted e rest → X.Accounted e (g :: rest)) →
        W v' ∧ a' = a ∧ FramesGain (f :: fs) r.1 ∧ (∀ f ∈ r.1, X.KnownFrame f) ∧
          (r.2 = false → ∀ e, X.isChecked e → X.isSub e t → X.Accounted e r.1) := by
      intro g v v' hv hg hknown h hacc
      obtain ⟨x, a₁, w₁, h₁, h₂⟩ := ran_bind h
      obtain ⟨hw₁, rfl, gains, known, accounted⟩ := ih hfs' hv h₁
      obtain ⟨rfl, rfl, rfl⟩ := ran_pure h₂
      exact ⟨hw₁, rfl, .cons hg gains, List.forall_mem_cons.2 ⟨hknown, known⟩,
        fun hr e hc he => hacc e _ he (accounted hr e hc he)⟩
    cases f with
    | handlers hs =>
      obtain ⟨x, a₁, w₁, h₁, h₂⟩ := ran_bind h
      obtain ⟨hw₁, rfl, gains, known, found⟩ := ran_offer hX hA ht hf hw h₁
      have hg : (Frame.handlers hs).Gains (.handlers x.1) := ⟨.handlers gains.length_eq, gains⟩
      dsimp only at h₂
      split at h₂ <;> rename_i hdone
      · obtain ⟨rfl, rfl, rfl⟩ := ran_pure h₂
        refine ⟨hw₁, rfl, .cons hg (FramesGain.refl _), List.forall_mem_cons.2 ⟨known, hfs'⟩,
          fun _ e _ he => ?_⟩
        obtain ⟨noted, all⟩ := found e he
        have some := all hdone
        unfold Exceptions.Accounted
        split <;> rename_i heq
        · exact noted _ heq
        · exact absurd heq some
      · refine onward hw₁ hg known h₂ fun e rest he hrest => ?_
        unfold Exceptions.Accounted
        split <;> rename_i heq
        · exact (found e he).1 _ heq
        · exact hrest
    | «finally» i completes stop =>
      cases completes with
      | false => exact here hw h fun _ _ _ _ => nofun
      | true => exact onward hw (.refl _) hf h fun _ _ _ hrest _ => hrest
    | body throws any returns =>
      cases any with
      | true => exact here hw h fun _ _ _ _ => .inl rfl
      | false =>
        obtain ⟨b, a₁, w₁, h₁, h₂⟩ := ran_bind h
        obtain ⟨hw₁, rfl, rfl⟩ := ran_isChecked hX hA ht hw h₁
        split at h₂ <;> rename_i hchecked
        · refine here hw₁ h₂ fun _ e hc he => ?_
          simp [Exceptions.isChecked_of_sub hX hc he] at hchecked
        · obtain ⟨b, w₂, h₃, h₄⟩ := ran_liftBind h₂
          obtain ⟨hw₂, rfl⟩ := lookup_anyM hA ht hf hw₁ h₃
          refine here hw₂ h₄ fun hcovered e _ he => .inr ?_
          exact Exceptions.isOneOf_trans hX he (by simpa using hcovered)
    | _ => exact onward hw (.refl _) hf h fun _ _ _ hrest => hrest

/-- What a step that throws exceptions does. -/
structure Thrown (X : Exceptions) (p : Program) (ts : List TypeId) (ls : List LocalId)
    (a a' : Analysis) : Prop where
  fit : Fit X p a'
  onward : Onward ls a a'
  accounted : a'.unhandled = a.unhandled → ∀ e, X.isChecked e → X.isOneOf e ts →
    X.Accounted e a'.frames

omit [Answers] hX hA in
theorem Thrown.refl {ls : List LocalId} (ha : Fit X p a) : Thrown X p [] ls a a :=
  ⟨ha, .refl a, fun _ e _ he => by simp [Exceptions.isOneOf] at he⟩

omit [Answers] hX hA in
theorem Thrown.append {ls : List LocalId} {a₁ : Analysis} {us : List TypeId}
    (h : Thrown X p ts ls a a₁) (h' : Thrown X p us ls a₁ a') : Thrown X p (ts ++ us) ls a a' := by
  refine ⟨h'.fit, h.onward.trans h'.onward, fun hq e hc he => ?_⟩
  obtain ⟨q, q'⟩ := h.onward.quiet h'.onward hq
  rw [Exceptions.isOneOf, List.any_append, Bool.or_eq_true] at he
  obtain he | he := he
  · exact (h.accounted q e hc he).gain h'.onward.frames
  · exact h'.accounted q' e hc he

/-- An exception that is thrown is accounted for or reported. -/
theorem ran_thrown {i : Info} {u : Unit} {ls : List LocalId} (ht : X.isKnown t) (ha : Fit X p a)
    (hw : W w) (h : Ran (thrown i t) a w u a' w') : W w' ∧ Thrown X p [t] ls a a' := by
  have hnone : t.isNone = false := by
    have := hX.isSome t ht
    simpa [TypeId.isSome, TypeId.isNone] using this
  unfold thrown at h
  simp only [hnone, Bool.false_eq_true, if_false] at h
  obtain ⟨x, a₁, w₁, h₁, h₂⟩ := ran_bind (ran_getBind h)
  obtain ⟨hw₁, rfl, gains, known, accounted⟩ := ran_escape hX hA ht ha.frames hw h₁
  have h₃ := ran_modifyBind h₂
  have fit : Fit X p { a₁ with frames := x.1 } := ⟨ha.program, known, ha.rethrown⟩
  split at h₃ <;> rename_i hr
  · obtain ⟨n, w₂, h₄, h₅⟩ := ran_liftBind h₃
    obtain ⟨hw', rfl⟩ := ran_report hA (hA.typeName ht hw₁ h₄) h₅
    refine ⟨hw', ⟨⟨ha.program, known, ha.rethrown⟩, ⟨gains, fun _ _ => rfl, ?_⟩, fun hq => ?_⟩⟩
    · simp [Analysis.unhandled]
    · simp [Analysis.unhandled] at hq
  · obtain ⟨rfl, rfl, rfl⟩ := ran_pure h₃
    refine ⟨hw₁, fit, ⟨gains, fun _ _ => rfl, Nat.le_refl _⟩, fun _ e hc he => ?_⟩
    exact accounted (by simpa using hr) e hc (by simpa [Exceptions.isOneOf] using he)

theorem ran_thrownAll {i : Info} {u : Unit} {ls : List LocalId} (hts : ∀ t ∈ ts, X.isKnown t)
    (ha : Fit X p a) (hw : W w) (h : Ran (ts.forM (thrown i)) a w u a' w') :
    W w' ∧ Thrown X p ts ls a a' := by
  induction ts generalizing a w with
  | nil =>
    obtain ⟨-, rfl, rfl⟩ := ran_pure h
    exact ⟨hw, .refl ha⟩
  | cons t ts ih =>
    obtain ⟨_, a₁, w₁, h₁, h₂⟩ := ran_bind h
    obtain ⟨hw₁, first⟩ := ran_thrown hX hA (hts t List.mem_cons_self) ha hw h₁
    obtain ⟨hw', rest⟩ := ih (fun u hu => hts u (List.mem_cons_of_mem _ hu)) first.fit hw₁ h₂
    exact ⟨hw', first.append rest⟩

theorem ran_thrownBy {i : Info} {m : MethodId} {u : Unit} {ls : List LocalId} (ha : Fit X p a)
    (hw : W w) (h : Ran (thrownBy i m) a w u a' w') : W w' ∧ Thrown X p (X.throws m) ls a a' := by
  obtain ⟨e, w₁, h₁, h₂⟩ := ran_liftBind h
  cases h₁
  rw [hA.throws m hw] at h₂
  exact ran_thrownAll hX hA (hX.throws m) ha hw h₂

/-- The first of some methods that has no parameters is called. -/
theorem ran_thrownByFirst {i : Info} {u : Unit} {ls : List LocalId} {ms : List MethodId}
    (ha : Fit X p a) (hw : W w)
    (h : Ran (do
      for m in ms do
        if (← Lookup.methodEntry m).params.isEmpty then
          return ← thrownBy i m) a w u a' w') :
    W w' ∧ Thrown X p (((ms.find? fun m => (w.methods.getD m.index {}).params.isEmpty).map
      X.throws).getD []) ls a a' := by
  induction ms with
  | nil =>
    obtain ⟨-, rfl, rfl⟩ := ran_pure h
    exact ⟨hw, .refl ha⟩
  | cons m ms ih =>
    rw [List.forIn_cons, bind_assoc] at h
    obtain ⟨r, a₁, w₁, h₁, h₂⟩ := ran_bind h
    obtain ⟨e, w₂, h₃, h₄⟩ := ran_liftBind h₁
    cases h₃
    rw [List.find?_cons]
    cases hm : (w.methods.getD m.index {}).params.isEmpty with
    | true =>
      rw [hm] at h₄
      obtain ⟨v, a₂, w₃, h₅, h₆⟩ := ran_bind h₄
      obtain ⟨hw₃, called⟩ := ran_thrownBy hX hA ha hw h₅
      obtain ⟨rfl, rfl, rfl⟩ := ran_pure h₆
      obtain ⟨-, rfl, rfl⟩ := ran_pure h₂
      exact ⟨hw₃, called⟩
    | false =>
      rw [hm] at h₄
      obtain ⟨rfl, rfl, rfl⟩ := ran_pure h₄
      exact ih h₂

/-- Closing a resource. -/
theorem ran_thrownByClose {i : Info} {u : Unit} {ls : List LocalId} (ht : X.isResource t)
    (ha : Fit X p a) (hw : W w) (h : Ran (thrownByClose i t) a w u a' w') :
    W w' ∧ Thrown X p (X.closing t) ls a a' := by
  have hnone : t.isNone = false := by
    have := hX.resource t ht
    simpa [TypeId.isSome, TypeId.isNone] using this
  unfold thrownByClose at h
  simp only [hnone, Bool.false_eq_true, if_false] at h
  obtain ⟨ms, w₁, h₁, h₂⟩ := ran_liftBind h
  obtain ⟨hw₁, hclosing⟩ := hA.closing ht hw h₁
  rw [← hclosing]
  exact ran_thrownByFirst hX hA ha hw₁ h₂

end

end Javelin.Flow
