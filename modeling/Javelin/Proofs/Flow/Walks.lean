import Javelin.Flow.Statements
import Javelin.Proofs.Flow.Coverage
import Javelin.Proofs.Flow.Frames
import Javelin.Proofs.Types.Questions

/-!
# Steps of the analysis

`Walks m a r a'` says that a step of the analysis can go from one state of the analysis to another.
The world is left out: what is looked up in it decides only about problems and handlers that play no
role there. `Ran` keeps it.

1. How steps are taken apart, and put together.
2. `Tidy`, what always holds of a state of the analysis, and `Grows`, how later states relate to
   earlier ones.
3. The steps that only report, and those that track variables.
-/

namespace Javelin.Flow

/-- A step of the analysis gives a result and leads to another state and another world. -/
def Ran {α : Type} (m : Analyzer α) (a : Analysis) (w : World) (r : α) (a' : Analysis)
    (w' : World) : Prop :=
  m.run a w = .ok (r, a') w'

/-- Whether a step of the analysis can give a result and lead to another state. -/
def Walks {α : Type} (m : Analyzer α) (a : Analysis) (r : α) (a' : Analysis) : Prop :=
  ∃ w w', m.run a w = .ok (r, a') w'

section

variable {α β : Type} {a a' : Analysis} {r : α}

theorem walks_pure {x : α} (h : Walks (pure x) a r a') : r = x ∧ a' = a := by
  obtain ⟨w, w', h⟩ := h
  cases h
  exact ⟨rfl, rfl⟩

theorem walks_bind {m : Analyzer β} {f : β → Analyzer α} (h : Walks (m >>= f) a r a') :
    ∃ b a₁, Walks m a b a₁ ∧ Walks (f b) a₁ r a' := by
  obtain ⟨w, w', h⟩ := h
  simp only [StateT.run_bind] at h
  change EStateM.bind _ _ w = _ at h
  unfold EStateM.bind at h
  split at h
  · rename_i x w₁ h₁
    exact ⟨x.1, x.2, ⟨w, w₁, h₁⟩, w₁, w', h⟩
  · cases h

theorem walks_get {s : Analysis} (h : Walks get a s a') : s = a ∧ a' = a := by
  obtain ⟨w, w', h⟩ := h
  cases h
  exact ⟨rfl, rfl⟩

theorem walks_modify {f : Analysis → Analysis} {u : Unit} (h : Walks (modify f) a u a') :
    a' = f a := by
  obtain ⟨w, w', h⟩ := h
  cases h
  rfl

/-- What is looked up in the world changes nothing else. -/
theorem walks_lift {m : Lookup α} (h : Walks (liftM m : Analyzer α) a r a') : a' = a := by
  obtain ⟨w, w', h⟩ := h
  change EStateM.bind m _ w = _ at h
  unfold EStateM.bind at h
  split at h
  · cases h
    rfl
  · cases h

/-! The first step of several, if its effect is known. -/

theorem walks_getBind {f : Analysis → Analyzer α} (h : Walks (get >>= f) a r a') :
    Walks (f a) a r a' := by
  obtain ⟨s, a₁, h₁, h₂⟩ := walks_bind h
  obtain ⟨rfl, rfl⟩ := walks_get h₁
  exact h₂

theorem walks_gets {g : Analysis → α} (h : Walks (do return g (← get)) a r a') :
    r = g a ∧ a' = a :=
  walks_pure (x := g a) (walks_getBind h)

theorem walks_modifyBind {g : Analysis → Analysis} {f : Unit → Analyzer α}
    (h : Walks (modify g >>= f) a r a') : Walks (f ()) (g a) r a' := by
  obtain ⟨_, a₁, h₁, h₂⟩ := walks_bind h
  obtain rfl := walks_modify h₁
  exact h₂

theorem walks_pureBind {x : β} {f : β → Analyzer α} (h : Walks (pure x >>= f) a r a') :
    Walks (f x) a r a' := by
  rwa [pure_bind] at h

theorem walks_liftBind {m : Lookup β} {f : β → Analyzer α}
    (h : Walks ((liftM m : Analyzer β) >>= f) a r a') : ∃ b, Walks (f b) a r a' := by
  obtain ⟨b, a₁, h₁, h₂⟩ := walks_bind h
  obtain rfl := walks_lift h₁
  exact ⟨b, h₂⟩

theorem walks_knownBind {g : Findings → β} {f : β → Analyzer α}
    (h : Walks (known g >>= f) a r a') : Walks (f (g a.program.findings)) a r a' := by
  obtain ⟨b, a₁, h₁, h₂⟩ := walks_bind h
  obtain ⟨rfl, rfl⟩ := walks_gets (g := fun s => g s.program.findings) h₁
  exact h₂

theorem walks_constantBind {x : Expr} {f : Option Bool → Analyzer α}
    (h : Walks (constantCondition x >>= f) a r a') :
    Walks (f (a.program.constantCondition x)) a r a' := by
  obtain ⟨b, a₁, h₁, h₂⟩ := walks_bind h
  obtain ⟨rfl, rfl⟩ := walks_gets (g := fun s => s.program.constantCondition x) h₁
  exact h₂

theorem walks_slotBind {v : Symbol} {f : Option Nat → Analyzer α}
    (h : Walks (slot? v >>= f) a r a') : Walks (f a.slots[v]?) a r a' := by
  obtain ⟨b, a₁, h₁, h₂⟩ := walks_bind h
  obtain ⟨rfl, rfl⟩ := walks_gets (g := fun s => s.slots[v]?) h₁
  exact h₂

theorem walks_report {id : Problem.Id} {i : Info} {args : List Text} {u : Unit}
    (h : Walks (report id i args) a u a') : a' = { a with reported := id :: a.reported } := by
  obtain ⟨_, h'⟩ := walks_liftBind (walks_getBind h)
  exact walks_modify h'

end

namespace Ran

variable {α β : Type} {a a' a₁ : Analysis} {w w' w₁ : World} {r : α} {b : β}

theorem pure (x : α) (a : Analysis) (w : World) : Ran (Pure.pure x) a w x a w := rfl

theorem bind {m : Analyzer β} {f : β → Analyzer α} (h : Ran m a w b a₁ w₁)
    (hf : Ran (f b) a₁ w₁ r a' w') : Ran (m >>= f) a w r a' w' := by
  unfold Ran
  rw [StateT.run_bind]
  exact (Run.bind_run h).trans hf

theorem liftBind {m : Lookup β} {f : β → Analyzer α} (h : m w = .ok b w₁)
    (hf : Ran (f b) a w₁ r a' w') : Ran ((liftM m : Analyzer β) >>= f) a w r a' w' :=
  Ran.bind (Run.bind_run h) hf

theorem getBind {f : Analysis → Analyzer α} (h : Ran (f a) a w r a' w') :
    Ran (get >>= f) a w r a' w' := h

theorem modifyBind {g : Analysis → Analysis} {f : Unit → Analyzer α}
    (h : Ran (f ()) (g a) w r a' w') : Ran (modify g >>= f) a w r a' w' := h

theorem knownBind {g : Findings → β} {f : β → Analyzer α} {x : β}
    (hx : g a.program.findings = x) (h : Ran (f x) a w r a' w') :
    Ran (known g >>= f) a w r a' w' := by
  subst hx
  exact h

theorem slotBind {v : Symbol} {f : Option Nat → Analyzer α} {n : Option Nat}
    (hn : a.slots[v]? = n) (h : Ran (f n) a w r a' w') : Ran (slot? v >>= f) a w r a' w' := by
  subst hn
  exact h

theorem constantBind {x : Expr} {f : Option Bool → Analyzer α} {c : Option Bool}
    (hc : a.program.constantCondition x = c) (h : Ran (f c) a w r a' w') :
    Ran (constantCondition x >>= f) a w r a' w' := by
  subst hc
  exact h

end Ran

/-! ## States of the analysis -/

/-- What always holds of a state of the analysis. -/
structure Tidy (p : Program) (a : Analysis) : Prop where
  program : a.program = p
  below : ∀ (v : Symbol) n, a.slots[v]? = some n → n < a.nextSlot
  distinct : DistinctSlots a.slots
  frames : ∀ f ∈ a.frames, f.Below a.nextSlot

/-- How a later state relates to an earlier one: at most the variables in `D` are tracked anew, and
frames and reports only gain. -/
structure Grows (c : Concern) (D : List Symbol) (a a' : Analysis) : Prop where
  kept : ∀ (v : Symbol) n, a.slots[v]? = some n → a'.slots[v]? = some n
  fresh : ∀ (v : Symbol) n, a.slots[v]? = none → a'.slots[v]? = some n →
    v ∈ D ∧ a.nextSlot ≤ n ∧ ∃ l, v = .var l
  nextSlot : a.nextSlot ≤ a'.nextSlot
  frames : FramesWeaken a.frames a'.frames
  reported : c.count a ≤ c.count a'

namespace Grows

variable {c : Concern} {p : Program} {D D' : List Symbol} {a a' a'' : Analysis} {s : Inits}
  {σ : Store}

theorem refl (a : Analysis) : Grows c D a a where
  kept _ _ h := h
  fresh v n h h' := by simp [h] at h'
  nextSlot := Nat.le_refl _
  frames := FramesWeaken.refl _
  reported := Nat.le_refl _

theorem trans (h : Grows c D a a') (h' : Grows c D' a' a'') : Grows c (D ++ D') a a'' where
  kept v n hn := h'.kept v n (h.kept v n hn)
  fresh v n hv hn := by
    cases hv' : a'.slots[v]? with
    | none =>
      obtain ⟨hd, hle, hl⟩ := h'.fresh v n hv' hn
      exact ⟨List.mem_append_right _ hd, Nat.le_trans h.nextSlot hle, hl⟩
    | some m =>
      obtain rfl : m = n := by simpa [h'.kept v m hv'] using hn
      obtain ⟨hd, hle, hl⟩ := h.fresh v m hv hv'
      exact ⟨List.mem_append_left _ hd, hle, hl⟩
  nextSlot := Nat.le_trans h.nextSlot h'.nextSlot
  frames := FramesWeaken.trans h.frames h'.frames
  reported := Nat.le_trans h.reported h'.reported

theorem mono (h : Grows c D a a') (hD : ∀ v ∈ D, v ∈ D') : Grows c D' a a' where
  kept := h.kept
  fresh v n hv hn := by
    obtain ⟨hd, rest⟩ := h.fresh v n hv hn
    exact ⟨hD v hd, rest⟩
  nextSlot := h.nextSlot
  frames := h.frames
  reported := h.reported

/-- What is not tracked anew is tracked before or not at all. -/
theorem untracked (h : Grows c D a a') {v : Symbol} (hv : a.slots[v]? = none) (hD : v ∉ D) :
    a'.slots[v]? = none := by
  cases hn : a'.slots[v]? with
  | none => rfl
  | some n => exact absurd (h.fresh v n hv hn).1 hD

/-- A store that was covered is covered later. -/
theorem covers (h : Grows c D a a') (hσ : Covers c p a.slots s σ) :
    Covers c p a'.slots s σ := by
  obtain ⟨x, y, rfl, hf⟩ := hσ
  refine ⟨x, y, rfl, fun v n hn => ?_, fun l hl => ?_⟩
  · cases hv : a.slots[v]? with
    | none =>
      -- A new variable is still out of scope.
      obtain ⟨-, -, l, rfl⟩ := h.fresh v n hv hn
      rw [hf.untracked l hv]
      exact Concern.agrees_absent _ _
    | some m =>
      obtain rfl : m = n := by simpa [h.kept v m hv] using hn
      exact hf.tracked v m hv
  · refine hf.untracked l ?_
    cases hv : a.slots[Symbol.var l]? with
    | none => rfl
    | some n => simp [h.kept _ n hv] at hl

end Grows

/-! ## Steps that track nothing -/

/-- A step that leaves the analysis as it is. -/
def Still {α : Type} (m : Analyzer α) : Prop := ∀ a r a', Walks m a r a' → a' = a

/-- How a state relates to an earlier one if nothing was tracked. -/
structure Kept (a a' : Analysis) : Prop where
  program : a'.program = a.program
  slots : a'.slots = a.slots
  nextSlot : a'.nextSlot = a.nextSlot
  frames : FramesWeaken a.frames a'.frames
  below : (∀ f ∈ a.frames, f.Below a.nextSlot) → ∀ f ∈ a'.frames, f.Below a.nextSlot
  reported : ∀ c : Concern, c.count a ≤ c.count a'

/-- A step that tracks nothing. -/
def Keeps {α : Type} (m : Analyzer α) : Prop := ∀ a r a', Walks m a r a' → Kept a a'

section

variable {α β : Type}

theorem Kept.refl (a : Analysis) : Kept a a :=
  ⟨rfl, rfl, rfl, FramesWeaken.refl _, fun h => h, fun _ => Nat.le_refl _⟩

theorem Kept.trans {a a' a'' : Analysis} (h : Kept a a') (h' : Kept a' a'') : Kept a a'' where
  program := h'.program.trans h.program
  slots := h'.slots.trans h.slots
  nextSlot := h'.nextSlot.trans h.nextSlot
  frames := FramesWeaken.trans h.frames h'.frames
  below hf := by
    have := h'.below
    rw [h.nextSlot] at this
    exact this (h.below hf)
  reported c := Nat.le_trans (h.reported c) (h'.reported c)

theorem Kept.tidy {p : Program} {a a' : Analysis} (h : Kept a a') (ha : Tidy p a) : Tidy p a' where
  program := h.program.trans ha.program
  below v n hn := by
    rw [h.slots] at hn
    rw [h.nextSlot]
    exact ha.below v n hn
  distinct := by
    rw [h.slots]
    exact ha.distinct
  frames := by
    rw [h.nextSlot]
    exact h.below ha.frames

theorem Kept.grows {c : Concern} {D : List Symbol} {a a' : Analysis} (h : Kept a a') :
    Grows c D a a' where
  kept v n hn := by rwa [h.slots]
  fresh v n hv hn := by simp [h.slots, hv] at hn
  nextSlot := Nat.le_of_eq h.nextSlot.symm
  frames := h.frames
  reported := h.reported c

theorem still_pure (x : α) : Still (pure x : Analyzer α) := fun _ _ _ h => (walks_pure h).2

theorem still_lift (m : Lookup α) : Still (liftM m : Analyzer α) := fun _ _ _ h => walks_lift h

theorem still_get : Still (get : Analyzer Analysis) := fun _ _ _ h => (walks_get h).2

theorem still_known (f : Findings → α) : Still (known f) := fun _ _ _ h =>
  (walks_gets (g := fun s => f s.program.findings) h).2

theorem still_slot (v : Symbol) : Still (slot? v) := fun _ _ _ h =>
  (walks_gets (g := fun s => s.slots[v]?) h).2

theorem Still.bind {m : Analyzer β} {f : β → Analyzer α} (hm : Still m)
    (hf : ∀ b, Still (f b)) : Still (m >>= f) := by
  intro a r a' h
  obtain ⟨b, a₁, h₁, h₂⟩ := walks_bind h
  obtain rfl := hm _ _ _ h₁
  exact hf b _ _ _ h₂

theorem Still.keeps {m : Analyzer α} (h : Still m) : Keeps m := by
  intro a r a' hw
  obtain rfl := h a r a' hw
  exact Kept.refl _

theorem keeps_pure (x : α) : Keeps (pure x : Analyzer α) := (still_pure x).keeps

theorem Keeps.bind {m : Analyzer β} {f : β → Analyzer α} (hm : Keeps m)
    (hf : ∀ b, Keeps (f b)) : Keeps (m >>= f) := by
  intro a r a' h
  obtain ⟨b, a₁, h₁, h₂⟩ := walks_bind h
  exact (hm _ _ _ h₁).trans (hf b _ _ _ h₂)

theorem keeps_modify {f : Analysis → Analysis} (h : ∀ a, Kept a (f a)) :
    Keeps (modify f : Analyzer Unit) := by
  intro a r a' hw
  obtain rfl := walks_modify hw
  exact h a

theorem keeps_forM {xs : List β} {f : β → Analyzer Unit} (h : ∀ x, Keeps (f x)) :
    Keeps (xs.forM f) := by
  induction xs with
  | nil => exact keeps_pure _
  | cons x xs ih => exact (h x).bind fun _ => ih

theorem keeps_forIn {xs : List β} {f : β → α → Analyzer (ForInStep α)} (init : α)
    (h : ∀ x b, Keeps (f x b)) : Keeps (forIn xs init f) := by
  induction xs generalizing init with
  | nil => exact keeps_pure _
  | cons x xs ih =>
    rw [List.forIn_cons]
    refine (h x init).bind fun step => ?_
    cases step with
    | done b => exact keeps_pure _
    | yield b => exact ih b

theorem still_filterMapM {γ : Type} {xs : List β} {f : β → Analyzer (Option γ)}
    (h : ∀ x, Still (f x)) : Still (xs.filterMapM f) := by
  induction xs with
  | nil => exact still_pure _
  | cons x xs ih =>
    rw [List.filterMapM_cons]
    refine (h x).bind fun r => ?_
    cases r with
    | none => exact ih
    | some y => exact ih.bind fun _ => still_pure _

theorem still_mapM {γ : Type} {xs : List β} {f : β → Analyzer γ} (h : ∀ x, Still (f x)) :
    Still (xs.mapM f) := by
  induction xs with
  | nil => exact still_pure _
  | cons x xs ih =>
    rw [List.mapM_cons]
    exact (h x).bind fun _ => ih.bind fun _ => still_pure _

theorem length_of_walks_mapM {γ : Type} {xs : List β} {f : β → Analyzer γ} {ys : List γ}
    {a a' : Analysis} (h : Walks (xs.mapM f) a ys a') : ys.length = xs.length := by
  induction xs generalizing ys a a' with
  | nil =>
    obtain ⟨rfl, -⟩ := walks_pure h
    rfl
  | cons x xs ih =>
    rw [List.mapM_cons] at h
    obtain ⟨y, a₁, -, h₁⟩ := walks_bind h
    obtain ⟨zs, a₂, h₂, h₃⟩ := walks_bind h₁
    obtain ⟨rfl, -⟩ := walks_pure h₃
    simp [ih h₂]

theorem still_thrownTypes (x : Expr) : Still (thrownTypes x) := by
  have other : Still (do
      let t ← known (·.typeOf x.info)
      return if t.isSome then [t] else []) := (still_known _).bind fun t => still_pure _
  unfold thrownTypes
  extract_lets _
  split
  · refine (still_known _).bind fun v => ?_
    split
    · refine still_get.bind fun s => ?_
      split
      · refine (still_lift _).bind fun e => ?_
        split
        · exact still_pure _
        · exact other
      · exact other
    · exact other
  · exact other

theorem still_handlerOf (c : CatchClause) : Still (handlerOf c) := by
  refine Still.bind (still_filterMapM fun n => ?_) fun _ => still_pure _
  exact (still_known _).bind fun t => still_pure _

theorem keeps_report (id : Problem.Id) (i : Info) (args : List Text) : Keeps (report id i args) := by
  intro a r a' h
  obtain rfl := walks_report h
  refine ⟨rfl, rfl, rfl, FramesWeaken.refl _, fun h => h, fun c => ?_⟩
  simp only [Concern.count, List.countP_cons]
  omega

theorem keeps_markUnreachable (st : Stmt) : Keeps (markUnreachable st) :=
  keeps_modify fun _ =>
    ⟨rfl, rfl, rfl, FramesWeaken.refl _, fun h => h, fun _ => Nat.le_refl _⟩

/-! ## Exceptions -/

variable [Answers]

theorem still_isChecked (t : TypeId) : Still (isChecked t) := by
  refine (still_lift _).bind fun s => ?_
  split
  · exact still_pure _
  · refine (still_lift _).bind fun e => (still_lift _).bind fun b => ?_
    split
    · exact still_pure _
    · exact (still_lift _).bind fun e => (still_lift _).bind fun b => still_pure _

theorem still_isCovered (t : TypeId) (ts : List TypeId) : Still (isCovered t ts) := still_lift _

theorem still_offerAlternatives (t : TypeId) (caught : List TypeId) (as : List Alternative) :
    Still (offerAlternatives t caught as) := by
  induction as generalizing caught with
  | nil => exact still_pure _
  | cons x as ih =>
    refine (still_lift _).bind fun b => ?_
    split
    · exact still_pure _
    · refine (still_lift _).bind fun b => ?_
      split
      · exact (still_pure _).bind fun r => (ih _).bind fun _ => still_pure _
      · exact (still_pure _).bind fun r => (ih _).bind fun _ => still_pure _

/-- Offering an exception marks clauses and drops none. -/
theorem walks_offer {t : TypeId} {hs : List Handler} {r : List Handler × Bool} {a a' : Analysis}
    (h : Walks (offer t hs) a r a') : a' = a ∧ r.1.length = hs.length := by
  induction hs generalizing r a a' with
  | nil =>
    obtain ⟨rfl, rfl⟩ := walks_pure h
    exact ⟨rfl, rfl⟩
  | cons x hs ih =>
    obtain ⟨b, a₁, h₁, h₂⟩ := walks_bind h
    obtain rfl := still_offerAlternatives _ _ _ _ _ _ h₁
    simp only at h₂
    split at h₂
    · obtain ⟨rfl, rfl⟩ := walks_pure h₂
      exact ⟨rfl, rfl⟩
    · obtain ⟨r', a₂, h₃, h₄⟩ := walks_bind h₂
      obtain ⟨rfl, hlen⟩ := ih h₃
      obtain ⟨rfl, rfl⟩ := walks_pure h₄
      exact ⟨rfl, by simp [hlen]⟩

/-- An exception on its way outward marks handlers and changes no state. -/
theorem walks_escape {t : TypeId} {fs : List Frame} {r : List Frame × Bool} {a a' : Analysis}
    (h : Walks (escape t fs) a r a') :
    a' = a ∧ FramesWeaken fs r.1 ∧ ∀ k, (∀ f ∈ fs, f.Below k) → ∀ f ∈ r.1, f.Below k := by
  induction fs generalizing r a a' with
  | nil =>
    obtain ⟨rfl, rfl⟩ := walks_pure h
    exact ⟨rfl, .nil, fun _ h => h⟩
  | cons f fs ih =>
    have same : ∀ {b : Bool} {a₁ : Analysis}, Walks (pure (f :: fs, b)) a₁ r a' →
        a' = a₁ ∧ FramesWeaken (f :: fs) r.1 ∧
          ∀ k, (∀ g ∈ f :: fs, g.Below k) → ∀ g ∈ r.1, g.Below k := by
      intro b a₁ h
      obtain ⟨rfl, rfl⟩ := walks_pure h
      exact ⟨rfl, FramesWeaken.refl _, fun _ h => h⟩
    have onward : ∀ {a₁ : Analysis}, Walks (escape t fs >>= fun x => pure (f :: x.1, x.2)) a₁ r a' →
        a' = a₁ ∧ FramesWeaken (f :: fs) r.1 ∧
          ∀ k, (∀ g ∈ f :: fs, g.Below k) → ∀ g ∈ r.1, g.Below k := by
      intro a₁ h
      obtain ⟨x, a₂, h₁, h₂⟩ := walks_bind h
      obtain ⟨rfl, hw, hb⟩ := ih h₁
      obtain ⟨rfl, rfl⟩ := walks_pure h₂
      refine ⟨rfl, .cons (.refl f) hw, fun k hk => ?_⟩
      simp only [List.mem_cons, forall_eq_or_imp] at hk ⊢
      exact ⟨hk.1, hb k hk.2⟩
    cases f with
    | handlers clauses =>
      obtain ⟨x, a₁, h₁, h₂⟩ := walks_bind h
      obtain ⟨rfl, hlen⟩ := walks_offer h₁
      simp only at h₂
      split at h₂
      · obtain ⟨rfl, rfl⟩ := walks_pure h₂
        refine ⟨rfl, .cons (.handlers hlen.symm) (FramesWeaken.refl _), fun k hk => ?_⟩
        simp only [List.mem_cons, forall_eq_or_imp] at hk ⊢
        exact ⟨trivial, hk.2⟩
      · obtain ⟨y, a₂, h₃, h₄⟩ := walks_bind h₂
        obtain ⟨rfl, hw, hb⟩ := ih h₃
        obtain ⟨rfl, rfl⟩ := walks_pure h₄
        refine ⟨rfl, .cons (.handlers hlen.symm) hw, fun k hk => ?_⟩
        simp only [List.mem_cons, forall_eq_or_imp] at hk ⊢
        exact ⟨trivial, hb k hk.2⟩
    | «finally» b completes stop =>
      cases completes with
      | false => exact same h
      | true => exact onward h
    | body throws any returns =>
      cases any with
      | true => exact same h
      | false =>
        obtain ⟨x, a₁, h₁, h₂⟩ := walks_bind h
        obtain rfl := still_isChecked _ _ _ _ h₁
        split at h₂
        · exact same h₂
        · obtain ⟨y, a₂, h₃, h₄⟩ := walks_bind h₂
          obtain rfl := still_isCovered _ _ _ _ _ h₃
          exact same h₄
    | _ => exact onward h

theorem keeps_thrown (i : Info) (t : TypeId) : Keeps (thrown i t) := by
  unfold thrown
  split
  · exact keeps_pure _
  · intro a r a' h
    have h' := walks_getBind h
    obtain ⟨x, a₁, h₁, h₂⟩ := walks_bind h'
    obtain ⟨rfl, hw, hb⟩ := walks_escape h₁
    have rest := walks_modifyBind h₂
    have kept : Kept a₁ { a₁ with frames := x.1 } :=
      ⟨rfl, rfl, rfl, hw, hb _, fun _ => Nat.le_refl _⟩
    refine kept.trans ?_
    split at rest
    · obtain ⟨n, h₃⟩ := walks_liftBind rest
      exact keeps_report _ _ _ _ _ _ h₃
    · exact keeps_pure _ _ _ _ rest

theorem keeps_thrownBy (i : Info) (m : MethodId) : Keeps (thrownBy i m) :=
  (still_lift _).keeps.bind fun _ => keeps_forM fun _ => keeps_thrown _ _

theorem keeps_thrownByCall (key i : Info) : Keeps (thrownByCall key i) := by
  refine (still_known _).keeps.bind fun m => ?_
  split
  · exact keeps_thrownBy _ _
  · exact keeps_pure _

theorem keeps_checkHandler (h : Handler) : Keeps (checkHandler h) := by
  refine (still_lift _).keeps.bind fun e => (keeps_forIn _ fun x _ => ?_).bind fun _ => keeps_pure _
  split
  · exact keeps_pure _
  · refine (still_isChecked _).keeps.bind fun b => ?_
    split
    · refine (still_lift _).keeps.bind fun b => ?_
      split
      · exact keeps_pure _
      · exact (still_lift _).keeps.bind fun n => (keeps_report _ _ _).bind fun _ => keeps_pure _
    · exact keeps_pure _

theorem keeps_thrownByClose (i : Info) (t : TypeId) : Keeps (thrownByClose i t) := by
  unfold thrownByClose
  split
  · exact keeps_pure _
  · refine (still_lift _).keeps.bind fun ms => (keeps_forIn _ fun m _ => ?_).bind fun r => ?_
    · refine (still_lift _).keeps.bind fun e => ?_
      split
      · exact (keeps_thrownBy _ _).bind fun _ => keeps_pure _
      · exact keeps_pure _
    · obtain ⟨_ | u, _⟩ := r <;> exact keeps_pure _

end

/-- An exception of a few classes must be caught or declared unless it is a runtime exception or an
error. -/
theorem isChecked_fewClasses {n : Nat} {w : World} {t : TypeId} (hw : FewClasses w)
    (ht : t ∈ fewIds) (a : Analysis) :
    Ran (@isChecked ⟨answer (n + 2)⟩ t) a w
      (decide (⟨14⟩ ∉ classesFrom t ∧ ⟨15⟩ ∉ classesFrom t)) a w := by
  let _ : Answers := ⟨answer (n + 2)⟩
  obtain ⟨name, superclass, hclass⟩ := hw.isClass ht
  obtain ⟨-, -, hruntime, herror⟩ := wellKnown_fewClasses
  refine Ran.liftBind (Lookup.shape_class hclass) (Ran.liftBind (hw.wellKnown hruntime) ?_)
  refine Ran.liftBind (hw.subtype ht (t := ⟨14⟩) (by decide)) ?_
  by_cases h : ⟨14⟩ ∈ classesFrom t
  · simp only [h, not_true_eq_false, false_and, decide_true, decide_false, if_true]
    exact Ran.pure _ a w
  · simp only [h, not_false_eq_true, true_and, decide_false, Bool.false_eq_true, if_false]
    refine Ran.liftBind (hw.wellKnown herror) ?_
    refine Ran.liftBind (hw.subtype ht (t := ⟨15⟩) (by decide)) ?_
    rw [decide_not]
    exact Ran.pure _ a w

end Javelin.Flow
