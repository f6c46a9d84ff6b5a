import Mathlib.Data.List.Forall2
import Mathlib.Data.List.Perm.Basic
import Javelin.Types.Overload
import Javelin.Proofs.Types.Questions

/-!
# The choice among candidates

What overload resolution is to find, if it is known which candidates are visible, which arguments
fit which parameters and which types are subtypes of which.

1. Profiles of methods.
2. `Facts`, the answers about one invocation, and the methods that are most specific by them.
3. Which problem there is with the choice, and that the order of the candidates does not matter.
-/

namespace Javelin.Lookup

/-! ## Profiles -/

/-- What overload resolution looks at in a method, with its types replaced by what they denote. A
method of variable arity has a last parameter. -/
structure Profile (τ : Type) where
  traits : Traits
  params : List τ
  isGeneric : Bool
  spreads : traits.has .varargs = true → params ≠ []

namespace Profile

variable {τ : Type}

def isVarargs (p : Profile τ) : Bool := p.traits.has .varargs

def isAbstract (p : Profile τ) : Bool := p.traits.has .abstract

/-- What the parameter that takes the argument at a position denotes; the last parameter of a method
of variable arity takes all further arguments by its elements. -/
def paramAt? (element : τ → τ) (p : Profile τ) (isVarargs : Bool) (i : Nat) : Option τ :=
  if isVarargs && i + 1 ≥ p.params.length then p.params.getLast?.map element else p.params[i]?

/-- How many positions a comparison for `n` arguments looks at. -/
def comparedCount (p q : Profile τ) (isVarargs : Bool) (n : Nat) : Nat :=
  if isVarargs then max n (max p.params.length q.params.length) else p.params.length

end Profile

/-! ## The choice -/

/-- The fixed answers to the questions about one invocation, by candidates and by what types
denote. -/
structure Facts (τ : Type) where
  /-- The candidates as they are declared. -/
  profile : MethodId → Profile τ
  /-- The candidates with inferred type arguments. -/
  instantiated : MethodId → Profile τ
  visible : MethodId → Bool
  fits : Arg → τ → Phase → Bool
  subtype : τ → τ → Bool
  element : τ → τ
  erased : τ → τ

namespace Facts

variable {τ : Type} (o : Facts τ) (args : List Arg)

/-- Whether a candidate can be applied to the arguments in a phase. -/
def applies (ph : Phase) (m : MethodId) : Bool :=
  let p := o.profile m
  (if ph == .varargs then p.isVarargs && p.params.length ≤ args.length + 1
    else args.length == p.params.length) &&
  args.zipIdx.all fun (a, i) =>
    ((o.instantiated m).paramAt? o.element (ph == .varargs) i).all (o.fits a · ph)

/-- Whether a candidate is at least as specific as another one: each of its parameters is a subtype
of the parameter of the other one. -/
def isMoreSpecific (ph : Phase) (m k : MethodId) : Bool :=
  let (p, q) := (o.instantiated m, o.instantiated k)
  (List.range (p.comparedCount q (ph == .varargs) args.length)).all fun i =>
    match p.paramAt? o.element (ph == .varargs) i, q.paramAt? o.element (ph == .varargs) i with
    | some x, some y => o.subtype x y
    | _, _ => true

def isAbstract (m : MethodId) : Bool := (o.instantiated m).isAbstract

/-- The erasures of the parameters of a candidate. -/
def erasures (m : MethodId) : List τ := (o.instantiated m).params.map o.erased

/-- The visible candidates that are applicable in a phase. -/
def fitting (cs : List MethodId) (ph : Phase) : List MethodId :=
  (cs.filter o.visible).filter (o.applies args ph)

/-- A phase is the first one in which visible candidates are applicable. -/
structure IsFirst (cs : List MethodId) (ph : Phase) : Prop where
  some_fits : o.fitting args cs ph ≠ []
  none_earlier : ∀ earlier ∈ phases.takeWhile (· != ph), o.fitting args cs earlier = []

/-- The methods that are at least as specific as all others. -/
def best (ph : Phase) (ms : List MethodId) : List MethodId :=
  ms.filter fun m => ms.all (o.isMoreSpecific args ph m)

/-- Of several most specific methods one that is not abstract is called, or any of them if they have
the same erasures. -/
def isDecided [DecidableEq τ] (top : List MethodId) : Bool :=
  !top.isEmpty && (top.any (!o.isAbstract ·) ||
    top.all fun m => top.all fun k => decide (o.erasures m = o.erasures k))

/-- The problem with an invocation of one of the candidates. -/
def verdict [DecidableEq τ] (cs : List MethodId) : Option Problem.Id :=
  match phases.find? fun ph => !(o.fitting args cs ph).isEmpty with
  | some ph =>
    if o.isDecided (o.best args ph (o.fitting args cs ph)) then none else some .ambiguousMethod
  | none =>
    if cs.any fun m => phases.any (o.applies args · m) then some .notVisible
    else some .undefinedMethod

variable {o args} {cs ds ms ks : List MethodId} {ph : Phase}

theorem isFirst_of_find? (h : phases.find? (fun ph => !(o.fitting args cs ph).isEmpty) = some ph) :
    o.IsFirst args cs ph where
  some_fits := by
    obtain ⟨hfits, -⟩ := List.find?_eq_some_iff_append.1 h
    rintro hnil
    rw [hnil] at hfits
    cases hfits
  none_earlier := by
    intro earlier hearlier
    obtain ⟨hfits, before, after, hphases, hbefore⟩ := List.find?_eq_some_iff_append.1 h
    rw [hphases] at hearlier
    have hmem : earlier ∈ before := by
      clear hphases hbefore
      induction before with
      | nil => simp at hearlier
      | cons first before ih =>
        rw [List.cons_append, List.takeWhile_cons] at hearlier
        split at hearlier
        · obtain rfl | hearlier := List.mem_cons.1 hearlier
          · exact List.mem_cons_self
          · exact List.mem_cons_of_mem first (ih hearlier)
        · cases hearlier
    simpa using hbefore earlier hmem

theorem isDecided_singleton [DecidableEq τ] (m : MethodId) : o.isDecided [m] = true := by
  simp [isDecided]

theorem isDecided_concrete [DecidableEq τ] {m : MethodId} (hm : m ∈ ms)
    (hconcrete : (!o.isAbstract m) = true) : o.isDecided ms = true := by
  cases ms with
  | nil => cases hm
  | cons first rest =>
    rw [isDecided, List.any_eq_true.2 ⟨m, hm, hconcrete⟩]
    rfl

/-- Abstract methods are compared with the first of them. -/
theorem isDecided_abstract [DecidableEq τ] {m : MethodId}
    (habstract : (m :: ms).find? (!o.isAbstract ·) = none) :
    o.isDecided (m :: ms) = ms.all fun k => decide (o.erasures k = o.erasures m) := by
  have hany : (m :: ms).any (!o.isAbstract ·) = false :=
    List.any_eq_false.2 (List.find?_eq_none.1 habstract)
  rw [isDecided, hany, List.isEmpty_cons, Bool.not_false, Bool.true_and, Bool.false_or,
    Bool.eq_iff_iff]
  simp only [List.all_eq_true, decide_eq_true_eq, List.mem_cons]
  constructor
  · exact fun hall k hk => hall k (.inr hk) m (.inl rfl)
  · intro hall k hk k' hk'
    have heq : ∀ x, x = m ∨ x ∈ ms → o.erasures x = o.erasures m :=
      fun x hx => hx.elim (fun hxm => hxm ▸ rfl) (hall x)
    rw [heq k hk, heq k' hk']

/-- Why most specific methods are not decided. -/
theorem tie_of_undecided [DecidableEq τ] (h : o.isDecided (o.best args ph ms) = false) :
    (∀ m ∈ ms, ∃ m' ∈ ms, o.isMoreSpecific args ph m m' = false) ∨
      ∃ m ∈ o.best args ph ms, ∃ m' ∈ o.best args ph ms, o.isAbstract m = true ∧
        o.isAbstract m' = true ∧ o.erasures m ≠ o.erasures m' := by
  cases hbest : o.best args ph ms with
  | nil =>
    refine .inl fun m hm => ?_
    have hworse := List.filter_eq_nil_iff.1 hbest m hm
    rw [Bool.not_eq_true, List.all_eq_false] at hworse
    obtain ⟨m', hm', hworse⟩ := hworse
    exact ⟨m', hm', Bool.not_eq_true _ ▸ hworse⟩
  | cons first rest =>
    right
    rw [← hbest]
    rw [isDecided, hbest, List.isEmpty_cons, ← hbest, Bool.not_false, Bool.true_and,
      Bool.or_eq_false_iff, List.any_eq_false, List.all_eq_false] at h
    obtain ⟨habstract, m, hm, hm'⟩ := h
    rw [List.all_eq_true] at hm'
    push Not at hm'
    obtain ⟨m', hm', hdiffer⟩ := hm'
    refine ⟨m, hm, m', hm', by simpa using habstract m hm, by simpa using habstract m' hm', ?_⟩
    simpa using hdiffer

theorem tie_of_verdict [DecidableEq τ] (h : o.verdict args cs = some .ambiguousMethod) :
    ∃ ph, o.IsFirst args cs ph ∧
      ((∀ m ∈ o.fitting args cs ph, ∃ m' ∈ o.fitting args cs ph,
          o.isMoreSpecific args ph m m' = false) ∨
        ∃ m ∈ o.best args ph (o.fitting args cs ph),
          ∃ m' ∈ o.best args ph (o.fitting args cs ph), o.isAbstract m = true ∧
            o.isAbstract m' = true ∧ o.erasures m ≠ o.erasures m') := by
  unfold verdict at h
  split at h
  next ph hfirst =>
    split at h
    · cases h
    next hundecided =>
      exact ⟨ph, isFirst_of_find? hfirst, tie_of_undecided (Bool.not_eq_true _ ▸ hundecided)⟩
  next =>
    split at h <;> cases h

/-- If all candidates are visible, those of no phase are applicable in none. -/
theorem applies_of_hidden (hall : (cs.filter o.visible).length = cs.length)
    (hnone : phases.find? (fun ph => !(o.fitting args cs ph).isEmpty) = none) :
    (cs.any fun m => phases.any (o.applies args · m)) = false := by
  rw [List.length_filter_eq_length_iff] at hall
  refine List.any_eq_false.2 fun m hm => ?_
  rw [Bool.not_eq_true, List.any_eq_false]
  intro ph hph happlies
  have hempty := List.find?_eq_none.1 hnone ph hph
  have hfits : m ∈ o.fitting args cs ph :=
    List.mem_filter.2 ⟨List.mem_filter.2 ⟨hm, hall m hm⟩, happlies⟩
  rw [Bool.not_eq_true, Bool.not_eq_false', List.isEmpty_iff] at hempty
  rw [hempty] at hfits
  cases hfits

/-! ### The order of the candidates -/

theorem fitting_perm (h : cs.Perm ds) (ph : Phase) :
    (o.fitting args cs ph).Perm (o.fitting args ds ph) :=
  (h.filter _).filter _

theorem best_perm (h : ms.Perm ks) : (o.best args ph ms).Perm (o.best args ph ks) := by
  have hall : ∀ m, ms.all (o.isMoreSpecific args ph m) = ks.all (o.isMoreSpecific args ph m) :=
    fun m => h.all_eq
  unfold best
  simp only [hall]
  exact h.filter _

theorem isDecided_perm [DecidableEq τ] (h : ms.Perm ks) : o.isDecided ms = o.isDecided ks := by
  have hall : ∀ m, (ms.all fun k => decide (o.erasures m = o.erasures k)) =
      ks.all fun k => decide (o.erasures m = o.erasures k) := fun m => h.all_eq
  unfold isDecided
  simp only [hall]
  rw [h.any_eq, h.all_eq, h.isEmpty_eq]

/-- The problem does not depend on the order of the candidates. -/
theorem verdict_perm [DecidableEq τ] (h : cs.Perm ds) : o.verdict args cs = o.verdict args ds := by
  have hempty : ∀ ph, (o.fitting args cs ph).isEmpty = (o.fitting args ds ph).isEmpty :=
    fun ph => (fitting_perm h ph).isEmpty_eq
  unfold verdict
  simp only [hempty, h.any_eq, isDecided_perm (best_perm (fitting_perm h _))]

end Facts

end Javelin.Lookup

/-!
## Questions about what numbers stand for

A question may enter new types and methods into the world, so the numbers in its answer are
described by what they stand for.

1. `Sight`, what numbers stand for, and worlds that may follow another one.
2. What a question yields.
3. Questions that are asked of all members of a list.
-/

namespace Javelin.Lookup

open Run

/-! ## Sights -/

/-- What the numbers of types and methods stand for in the worlds that may arise. -/
structure Sight (τ : Type) where
  Valid : World → Prop
  Denotes : World → TypeId → τ → Prop
  Has : World → MethodId → Profile τ → Prop

namespace Sight

variable {τ α β : Type} {s : Sight τ} {w v u : World}

/-- A world that may follow another one: numbers keep what they stand for. -/
structure Grows (s : Sight τ) (w v : World) : Prop where
  valid : s.Valid v
  denotes : ∀ {t x}, s.Denotes w t x → s.Denotes v t x
  has : ∀ {m p}, s.Has w m p → s.Has v m p

theorem Grows.refl (h : s.Valid w) : s.Grows w w := ⟨h, id, id⟩

theorem Grows.trans (h : s.Grows w v) (h' : s.Grows v u) : s.Grows w u :=
  ⟨h'.valid, h'.denotes ∘ h.denotes, h'.has ∘ h.has⟩

/-! ## Answers -/

/-- A question is answered, and the answer is as described. -/
def Yields (s : Sight τ) (w : World) (c : Lookup α) (P : World → α → Prop) : Prop :=
  ∃ a v, c w = .ok a v ∧ s.Grows w v ∧ P v a

theorem yields_pure {P : World → α → Prop} {a : α} (hw : s.Valid w) (h : P w a) :
    s.Yields w (pure a) P :=
  ⟨a, w, rfl, .refl hw, h⟩

theorem Yields.bind {c : Lookup α} {f : α → Lookup β} {P : World → α → Prop}
    {Q : World → β → Prop} (h : s.Yields w c P)
    (hf : ∀ v a, s.Grows w v → P v a → s.Yields v (f a) Q) : s.Yields w (c >>= f) Q := by
  obtain ⟨a, v, hc, hv, ha⟩ := h
  obtain ⟨b, u, hb, hu, hq⟩ := hf v a hv ha
  exact ⟨b, u, (bind_run hc).trans hb, hv.trans hu, hq⟩

theorem Yields.mono {c : Lookup α} {P Q : World → α → Prop} (h : s.Yields w c P)
    (hPQ : ∀ v a, s.Grows w v → P v a → Q v a) : s.Yields w c Q := by
  obtain ⟨a, v, hc, hv, ha⟩ := h
  exact ⟨a, v, hc, hv, hPQ v a hv ha⟩

theorem yields_methodEntry {m : MethodId} (hw : s.Valid w) :
    s.Yields w (methodEntry m) fun v e => v = w ∧ e = w.methods.getD m.index {} :=
  ⟨_, w, rfl, .refl hw, rfl, rfl⟩

/-! ## Questions about lists -/

/-- Whether the answer is yes for all members of a list, told from a list paired with it. -/
theorem yields_allM {p : β → Lookup Bool} {q : α → Bool} {R : World → α → β → Prop}
    {as : List α} {bs : List β} (hw : s.Valid w)
    (hR : ∀ {w v a b}, s.Grows w v → R w a b → R v a b) (hpairs : List.Forall₂ (R w) as bs)
    (h : ∀ a ∈ as, ∀ b, ∀ v, s.Grows w v → R v a b → s.Yields v (p b) fun _ r => r = q a) :
    s.Yields w (allM p bs) fun _ r => r = as.all q := by
  suffices ∀ v, s.Grows w v → s.Yields v (allM p bs) fun _ r => r = as.all q from
    this w (.refl hw)
  induction hpairs with
  | nil => exact fun v hv => yields_pure hv.valid rfl
  | @cons a b as bs hab _ ih =>
    intro v hv
    refine (h a List.mem_cons_self b v hv (hR hv hab)).bind fun u r hu hr => ?_
    cases r with
    | false => exact yields_pure hu.valid (by rw [List.all_cons, ← hr, Bool.false_and])
    | true =>
      refine (ih (fun a' ha' => h a' (List.mem_cons_of_mem a ha')) u (hv.trans hu)).mono
        fun _ r _ hr' => ?_
      rw [hr', List.all_cons, ← hr, Bool.true_and]

/-- A filter keeps, of paired lists, the pairs of which the question is answered by yes. -/
theorem yields_filterM {p : β → Lookup Bool} {q : α → Bool} {R : World → α → β → Prop}
    {as : List α} {bs : List β} (hw : s.Valid w)
    (hR : ∀ {w v a b}, s.Grows w v → R w a b → R v a b) (hpairs : List.Forall₂ (R w) as bs)
    (h : ∀ a ∈ as, ∀ b, ∀ v, s.Grows w v → R v a b → s.Yields v (p b) fun _ r => r = q a) :
    s.Yields w (bs.filterM p) fun v kept => List.Forall₂ (R v) (as.filter q) kept := by
  unfold List.filterM
  -- The pairs kept so far, in a world that has grown since the filter started.
  suffices ∀ v, s.Grows w v → ∀ acc bcc, List.Forall₂ (R v) acc bcc →
      s.Yields v (bs.filterAuxM p bcc) fun u kept =>
        List.Forall₂ (R u) ((as.filter q).reverse ++ acc) kept by
    refine (this w (.refl hw) [] [] .nil).bind fun v kept hv hkept => yields_pure hv.valid ?_
    rw [List.append_nil] at hkept
    simpa using List.rel_reverse hkept
  induction hpairs with
  | nil => exact fun v hv acc bcc hacc => yields_pure hv.valid hacc
  | @cons a b as bs hab _ ih =>
    intro v hv acc bcc hacc
    rw [List.filterAuxM]
    refine (h a List.mem_cons_self b v hv (hR hv hab)).bind fun u r hu hr => ?_
    have step := ih (fun a' ha' => h a' (List.mem_cons_of_mem a ha')) u (hv.trans hu)
    have kept := hacc.imp fun _ _ hx => hR hu hx
    cases r with
    | false =>
      refine (step acc bcc kept).mono fun x kept _ hkept => ?_
      rwa [List.filter_cons_of_neg (by simp [← hr])]
    | true =>
      refine (step (a :: acc) (b :: bcc) (.cons (hR (hv.trans hu) hab) kept)).mono
        fun x kept _ hkept => ?_
      rw [List.filter_cons_of_pos (by simp [← hr]), List.reverse_cons, List.append_assoc]
      exact hkept

/-- What a question finds for those members of a list for which it finds anything. -/
theorem yields_filterMapM {f : α → Lookup (Option β)} {q : α → Bool} {R : World → α → β → Prop}
    {as : List α} (hw : s.Valid w) (hR : ∀ {w v a b}, s.Grows w v → R w a b → R v a b)
    (h : ∀ a ∈ as, ∀ v, s.Grows w v → s.Yields v (f a) fun u r =>
      (∃ b, q a = true ∧ r = some b ∧ R u a b) ∨ (q a = false ∧ r = none)) :
    s.Yields w (as.filterMapM f) fun v bs => List.Forall₂ (R v) (as.filter q) bs := by
  unfold List.filterMapM
  suffices ∀ v, s.Grows w v → ∀ acc bcc, List.Forall₂ (R v) acc bcc →
      s.Yields v (List.filterMapM.loop f as bcc) fun u bs =>
        List.Forall₂ (R u) (acc.reverse ++ as.filter q) bs by
    exact this w (.refl hw) [] [] .nil
  induction as with
  | nil =>
    intro v hv acc bcc hacc
    refine yields_pure hv.valid ?_
    rw [List.filter_nil, List.append_nil]
    exact List.rel_reverse hacc
  | cons a as ih =>
    intro v hv acc bcc hacc
    rw [List.filterMapM.loop]
    refine (h a List.mem_cons_self v hv).bind fun u r hu hr => ?_
    have step := ih (fun a' ha' => h a' (List.mem_cons_of_mem a ha')) u (hv.trans hu)
    have kept := hacc.imp fun _ _ hx => hR hu hx
    obtain ⟨b, hq, rfl, hb⟩ | ⟨hq, rfl⟩ := hr
    · refine (step (a :: acc) (b :: bcc) (.cons hb kept)).mono fun x bs _ hbs => ?_
      rw [List.filter_cons_of_pos hq]
      rwa [List.reverse_cons, List.append_assoc] at hbs
    · refine (step acc bcc kept).mono fun x bs _ hbs => ?_
      rwa [List.filter_cons_of_neg (by simp [hq])]

/-- A loop that ends at the first member for which it finds a result, told from a list paired with
the one that it goes through. -/
theorem yields_search {γ : Type} {body : β → Lookup (ForInStep (Option γ × Unit))} {q : α → Bool}
    {R : World → α → β → Prop} {Q : World → α → γ → Prop} {as : List α} {bs : List β}
    (hw : s.Valid w) (hR : ∀ {w v a b}, s.Grows w v → R w a b → R v a b)
    (hpairs : List.Forall₂ (R w) as bs)
    (h : ∀ a ∈ as, ∀ b, ∀ v, s.Grows w v → R v a b → s.Yields v (body b) fun u r =>
      (∃ c, q a = true ∧ r = .done (some c, ()) ∧ Q u a c) ∨
        (q a = false ∧ r = .yield (none, ()))) :
    s.Yields w (forIn bs (none, ()) fun b _ => body b) fun v r =>
      (∃ a c, as.find? q = some a ∧ r = (some c, ()) ∧ Q v a c) ∨
        (as.find? q = none ∧ r = (none, ())) := by
  suffices ∀ v, s.Grows w v → s.Yields v (forIn bs (none, ()) fun b _ => body b) fun v r =>
      (∃ a c, as.find? q = some a ∧ r = (some c, ()) ∧ Q v a c) ∨
        (as.find? q = none ∧ r = (none, ())) from this w (.refl hw)
  induction hpairs with
  | nil => exact fun v hv => yields_pure hv.valid (.inr ⟨rfl, rfl⟩)
  | @cons a b as bs hab _ ih =>
    intro v hv
    rw [List.forIn_cons]
    refine (h a List.mem_cons_self b v hv (hR hv hab)).bind fun u r hu hr => ?_
    obtain ⟨c, hq, rfl, hc⟩ | ⟨hq, rfl⟩ := hr
    · exact yields_pure hu.valid (.inl ⟨a, c, List.find?_cons_of_pos hq, rfl, hc⟩)
    · refine (ih (fun a' ha' => h a' (List.mem_cons_of_mem a ha')) u (hv.trans hu)).mono
        fun _ r _ hr => ?_
      rwa [List.find?_cons_of_neg (by simp [hq])]

/-- A list is paired with itself. -/
theorem pairs_self (as : List α) : List.Forall₂ (fun a b => a = b) as as := by
  induction as with
  | nil => exact .nil
  | cons a as ih => exact .cons rfl ih

/-- Paired lists are equal if their pairs are. -/
theorem eq_of_pairs {as bs : List α} {P : α → Prop}
    (hpairs : List.Forall₂ (fun a b => a = b ∧ P a) as bs) : bs = as ∧ ∀ a ∈ as, P a := by
  induction hpairs with
  | nil => exact ⟨rfl, nofun⟩
  | cons hab _ ih =>
    obtain ⟨rfl, ha⟩ := hab
    exact ⟨by rw [ih.1], List.forall_mem_cons.2 ⟨ha, ih.2⟩⟩

end Sight

end Javelin.Lookup
