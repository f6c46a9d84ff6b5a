import Javelin.Resolve.Declarations

/-!
# Questions about types

The primitive types stand at fixed places of the table of types, so a question about them is
answered without looking anything up. A class whose supertypes are known stands for itself, and if
neither it nor its superclasses have interfaces, it is a subtype of exactly its superclasses
(`Lookup.subtypeRule_chain`).

1. Runs of questions.
2. `World.Settled`: the primitive types are at their places, and the class of strings is known.
3. What a settled world answers about primitive types.
4. What a world with `World.IsClass` answers about classes.
5. `FewClasses`: worlds of a few classes, and all that they answer.
-/

namespace Javelin

/-! ## Runs -/

namespace Run

variable {ε σ α β : Type}

theorem bind_ok {m : EStateM ε σ α} {f : α → EStateM ε σ β} {s s' : σ} {b : β}
    (h : (m >>= f) s = .ok b s') : ∃ a t, m s = .ok a t ∧ f a t = .ok b s' := by
  change EStateM.bind m f s = _ at h
  unfold EStateM.bind at h
  split at h
  · exact ⟨_, _, ‹_›, h⟩
  · cases h

theorem bind_run {m : EStateM ε σ α} {f : α → EStateM ε σ β} {s t : σ} {a : α}
    (h : m s = .ok a t) : (m >>= f) s = f a t := by
  change EStateM.bind m f s = _
  unfold EStateM.bind
  rw [h]

/-- The rest of a run whose first step is known. -/
theorem bind_rest {m : EStateM ε σ α} {f : α → EStateM ε σ β} {s t s' : σ} {a : α} {b : β}
    (hm : m s = .ok a t) (h : (m >>= f) s = .ok b s') : f a t = .ok b s' :=
  (bind_run hm).symm.trans h

theorem get_run (s : σ) : (get : EStateM ε σ σ) s = .ok s s := rfl

theorem pure_ok {a b : α} {s s' : σ} (h : (pure a : EStateM ε σ α) s = .ok b s') :
    b = a ∧ s' = s := by
  cases h
  exact ⟨rfl, rfl⟩

end Run

open Run

namespace Lookup

/-- A type that is no placeholder and not redirected stands for itself. -/
theorem resolve_ok [Answers] {t : TypeId} {w : World} (h : w.redirects[t]? = none)
    (h' : ∀ parts, (w.types.getD t.index {}).shape ≠ .unresolved parts false) :
    resolve t w = .ok t w := by
  unfold resolve
  rw [resolveIn, bind_run (get_run w)]
  simp only [h]
  rw [bind_run (show entry t w = .ok (w.types.getD t.index {}) w from rfl)]
  generalize (w.types.getD t.index {}).shape = s at h'
  cases s with
  | unresolved parts isDone =>
    cases isDone
    · exact absurd rfl (h' parts)
    · rfl
  | _ => rfl

end Lookup

/-! ## Settled worlds -/

open Lookup (base)

/-- The primitive types stand at their places, and the class of strings has been looked up. -/
structure World.Settled (w : World) : Prop where
  kept : ∀ b : BasicType, b.isPrimitive → w.redirects[base b]? = none
  placed : ∀ b : BasicType, b.isPrimitive → (w.types.getD (base b).index {}).shape = .base b
  strings : ∃ s, w.wellKnown[("java.lang.String" : Text)]? = some s ∧
    ∀ b, b.isPrimitive → base b ≠ s

/-- The table of types starts with the primitive types. -/
theorem shape_firstTypes {b : BasicType} (hb : b.isPrimitive) :
    (firstTypes.getD (base b).index {}).shape = .base b := by
  rw [firstTypes, List.map_toArray]
  cases b <;> first | rfl | cases hb

namespace BasicType

theorem base_isNone {b : BasicType} (h : b.isPrimitive) : (base b).isNone = false := by
  cases b <;> first | rfl | cases h

theorem base_isSome {b : BasicType} (h : b.isPrimitive) : (base b).isSome := by
  cases b <;> first | rfl | cases h

theorem base_ne_none {b : BasicType} (h : b.isPrimitive) : base b ≠ .none := by
  intro hb
  have hnone := base_isNone h
  rw [hb] at hnone
  cases hnone

theorem base_inj {a b : BasicType} (ha : a.isPrimitive) (hb : b.isPrimitive)
    (h : base a = base b) : a = b := by
  have hall : ∀ a ∈ BasicType.all, ∀ b ∈ BasicType.all, a.isPrimitive → b.isPrimitive →
      base a = base b → a = b := by decide
  exact hall a (by cases a <;> decide) b (by cases b <;> decide) ha hb h

theorem ne_undefined {b : BasicType} (h : b.isPrimitive) : b ≠ .undefined := by
  rintro rfl
  cases h

theorem ne_void {b : BasicType} (h : b.isPrimitive) : b ≠ .void := by
  rintro rfl
  cases h

end BasicType

namespace Lookup

section

variable [Answers] {w : World} {b : BasicType}

theorem resolve_base (hw : w.Settled) (hb : b.isPrimitive) :
    resolve (base b) w = .ok (base b) w := by
  apply resolve_ok (hw.kept b hb)
  intro parts h
  rw [hw.placed b hb] at h
  cases h

theorem shape_base (hw : w.Settled) (hb : b.isPrimitive) :
    shape (base b) w = .ok (.base b) w := by
  unfold shape
  rw [bind_run (resolve_base hw hb)]
  change EStateM.Result.ok (w.types.getD (base b).index {}).shape w = _
  rw [hw.placed b hb]

theorem view_base (hw : w.Settled) (hb : b.isPrimitive) :
    view (base b) w = .ok (base b, .base b) w := by
  unfold view
  rw [bind_run (resolve_base hw hb)]
  change EStateM.Result.ok (base b, (w.types.getD (base b).index {}).shape) w = _
  rw [hw.placed b hb]

theorem basicType_base (hw : w.Settled) (hb : b.isPrimitive) : basicType (base b) w = .ok b w :=
  bind_run (shape_base hw hb)

theorem isMissing_base (hw : w.Settled) (hb : b.isPrimitive) :
    isMissing (base b) w = .ok false w :=
  bind_run (shape_base hw hb)

theorem isPrimitive_base (hw : w.Settled) (hb : b.isPrimitive) :
    isPrimitive (base b) w = .ok true w := by
  unfold isPrimitive
  rw [bind_run (basicType_base hw hb), bne_iff_ne.2 (BasicType.ne_undefined hb)]
  rfl

theorem isVoid_base (hw : w.Settled) (hb : b.isPrimitive) : isVoid (base b) w = .ok false w := by
  unfold isVoid
  rw [bind_run (basicType_base hw hb), beq_eq_false_iff_ne.2 (BasicType.ne_void hb)]
  rfl

theorem primitiveOf_base (hw : w.Settled) (hb : b.isPrimitive) :
    primitiveOf (base b) w = .ok b w := by
  unfold primitiveOf
  rw [bind_run (basicType_base hw hb), if_pos (bne_iff_ne.2 (BasicType.ne_undefined hb))]
  rfl

/-- No primitive type is the class of strings. -/
theorem isString_base (hw : w.Settled) (hb : b.isPrimitive) :
    isString (base b) w = .ok false w := by
  obtain ⟨s, hs, hne⟩ := hw.strings
  have hstring : stringType w = .ok s w := by
    unfold stringType wellKnown
    rw [bind_run (get_run w)]
    simp only [hs]
    rfl
  unfold isString
  rw [bind_run hstring, bind_run (resolve_base hw hb), beq_eq_false_iff_ne.2 (hne b hb),
    Bool.and_false]
  rfl

/-- Casts are legal between numbers and between truth values. -/
theorem isCastable_base {a : BasicType} (hw : w.Settled) (ha : a.isPrimitive)
    (hb : b.isPrimitive) :
    isCastable (base a) (base b) w = .ok ((a == .boolean) == (b == .boolean)) w := by
  unfold isCastable
  rw [BasicType.base_isNone ha, BasicType.base_isNone hb]
  have hvoid : (a == .void || b == .void) = false := by
    rw [beq_eq_false_iff_ne.2 (BasicType.ne_void ha), beq_eq_false_iff_ne.2 (BasicType.ne_void hb)]
    rfl
  have hboth : (a != .undefined && b != .undefined) = true := by
    rw [bne_iff_ne.2 (BasicType.ne_undefined ha), bne_iff_ne.2 (BasicType.ne_undefined hb)]
    rfl
  change (basicType (base a) >>= fun s => basicType (base b) >>= fun t => _) w = _
  rw [bind_run (basicType_base hw ha), bind_run (basicType_base hw hb)]
  simp only [hvoid, hboth]
  rfl

end

/-! ### Questions that come back to themselves -/

section

variable {n : Nat} {w w' : World} {a b : BasicType}

/-- Two primitive types are the same only if they are one. -/
theorem same_base {r : Bool} (hw : w.Settled) (ha : a.isPrimitive) (hb : b.isPrimitive)
    (h : answer n (.same (base a) (base b)) w = .ok r w') : w' = w ∧ r = decide (a = b) := by
  cases n with
  | zero => cases h
  | succ n =>
    let _ : Answers := ⟨answer n⟩
    change sameRule (base a) (base b) w = _ at h
    unfold sameRule at h
    replace h := bind_rest (resolve_base hw ha) h
    replace h := bind_rest (resolve_base hw hb) h
    dsimp only at h
    by_cases hab : a = b
    · subst hab
      rw [if_pos (beq_self_eq_true _)] at h
      cases h
      exact ⟨rfl, (decide_eq_true rfl).symm⟩
    · rw [if_neg fun h => hab (BasicType.base_inj ha hb (eq_of_beq h))] at h
      replace h := bind_rest (shape_base hw ha) h
      replace h := bind_rest (shape_base hw hb) h
      cases h
      exact ⟨rfl, (decide_eq_false hab).symm⟩

theorem subtype_base {r : Bool} (hw : w.Settled) (ha : a.isPrimitive) (hb : b.isPrimitive)
    (h : answer n (.subtype (base a) (base b)) w = .ok r w') : w' = w := by
  cases n with
  | zero => cases h
  | succ n =>
    let _ : Answers := ⟨answer n⟩
    change subtypeRule (base a) (base b) w = _ at h
    unfold subtypeRule at h
    replace h := bind_rest (resolve_base hw ha) h
    replace h := bind_rest (resolve_base hw hb) h
    dsimp only at h
    split at h
    · exact (pure_ok h).2
    · replace h := bind_rest (shape_base hw ha) h
      replace h := bind_rest (shape_base hw hb) h
      exact (pure_ok h).2

theorem spelling_base {qualified : Bool} {text : Text} (hw : w.Settled) (hb : b.isPrimitive)
    (h : answer n (.spelling qualified (base b)) w = .ok text w') : w' = w := by
  cases n with
  | zero => cases h
  | succ n =>
    let _ : Answers := ⟨answer n⟩
    change spellingRule qualified (base b) w = _ at h
    unfold spellingRule at h
    replace h := bind_rest (view_base hw hb) h
    exact (pure_ok h).2

end

/-- Answers to questions about primitive types that leave a settled world as it is. -/
structure Steady [Answers] : Prop where
  same : ∀ {w w' : World} {a b : BasicType} {r : Bool}, w.Settled → a.isPrimitive → b.isPrimitive →
    isSame (base a) (base b) w = .ok r w' → w' = w ∧ r = decide (a = b)
  subtype : ∀ {w w' : World} {a b : BasicType} {r : Bool}, w.Settled → a.isPrimitive →
    b.isPrimitive → isSubtype (base a) (base b) w = .ok r w' → w' = w
  name : ∀ {w w' : World} {b : BasicType} {text : Text}, w.Settled → b.isPrimitive →
    typeName (base b) w = .ok text w' → w' = w

theorem steady_answer (n : Nat) : @Steady ⟨answer n⟩ :=
  let _ : Answers := ⟨answer n⟩
  ⟨same_base, subtype_base, spelling_base⟩

theorem isAssignable_base [Answers] (hA : Steady) {w w' : World} {a b : BasicType} {r : Bool}
    {k : Option Constant} (hw : w.Settled) (ha : a.isPrimitive) (hb : b.isPrimitive)
    (h : isAssignable (base a) (base b) k w = .ok r w') : w' = w := by
  unfold isAssignable at h
  rw [BasicType.base_isNone ha, BasicType.base_isNone hb] at h
  replace h := bind_rest (basicType_base hw ha) h
  replace h := bind_rest (basicType_base hw hb) h
  have hvoid : ¬ (a == .void || b == .void) = true := by
    simp [BasicType.ne_void ha, BasicType.ne_void hb]
  have hboth : (a != .undefined && b != .undefined) = true := by
    simp [BasicType.ne_undefined ha, BasicType.ne_undefined hb]
  dsimp only at h
  rw [if_neg hvoid, if_pos hboth] at h
  obtain ⟨widens, w₁, hsub, hrest⟩ := bind_ok h
  obtain rfl := hA.subtype hw ha hb hsub
  split at hrest <;> exact (pure_ok hrest).2

end Lookup

/-! ## Classes -/

theorem TypeId.eq_none {t : TypeId} (h : t.isSome = false) : t = .none := by
  obtain ⟨n⟩ := t
  simpa [TypeId.isSome, TypeId.none] using h

/-- A class, of a known superclass and without interfaces. -/
structure World.IsClass (w : World) (t : TypeId) (d : Declared) : Prop where
  kept : w.redirects[t]? = none
  shape : (w.types.getD t.index {}).shape = .declared d
  isSome : t.isSome
  found : d.isMissing = false
  supertypes : d.progress.hasSupertypes
  interfaces : d.interfaces = []

theorem World.IsClass.isNone {w : World} {t : TypeId} {d : Declared} (h : w.IsClass t d) :
    t.isNone = false := by
  simpa [TypeId.isNone, TypeId.isSome] using h.isSome

/-- The classes from a class up to one without a superclass. -/
inductive World.Chain (w : World) : List TypeId → Prop where
  | top {t : TypeId} {d : Declared} (hc : w.IsClass t d) (hd : d.superclass = .none)
    (kept : w.redirects[TypeId.none]? = none) (absent : (w.types.getD 0 {}).shape = .absent) :
    Chain w [t]
  | up {t u : TypeId} {d : Declared} {ts : List TypeId} (hc : w.IsClass t d)
    (hd : d.superclass = u) (rest : Chain w (u :: ts)) : Chain w (t :: u :: ts)

theorem World.Chain.mem {w : World} {cs : List TypeId} (h : w.Chain cs) :
    ∀ t ∈ cs, ∃ d, w.IsClass t d := by
  induction h with
  | top hc => exact List.forall_mem_singleton.2 ⟨_, hc⟩
  | up hc _ _ ih => exact List.forall_mem_cons.2 ⟨⟨_, hc⟩, ih⟩

namespace Lookup

/-! ### One class -/

section

variable [Answers] {w : World} {t : TypeId} {d : Declared}

theorem resolve_class (h : w.IsClass t d) : resolve t w = .ok t w := by
  apply resolve_ok h.kept
  intro parts hp
  rw [h.shape] at hp
  cases hp

theorem shape_class (h : w.IsClass t d) : shape t w = .ok (.declared d) w := by
  unfold shape
  rw [bind_run (resolve_class h)]
  change EStateM.Result.ok (w.types.getD t.index {}).shape w = _
  rw [h.shape]

theorem view_class (h : w.IsClass t d) : view t w = .ok (t, .declared d) w := by
  unfold view
  rw [bind_run (resolve_class h)]
  change EStateM.Result.ok (t, (w.types.getD t.index {}).shape) w = _
  rw [h.shape]

theorem declaration_class (h : w.IsClass t d) : declaration t w = .ok t w := by
  unfold declaration
  rw [bind_run (view_class h)]
  rfl

end

/-! ### Superclasses -/

section

variable [Answers] {w : World} {t u b : TypeId} {d : Declared} {ts seen : List TypeId} {n : Nat}
  (known : ∀ {t d}, w.IsClass t d → ensureSupertypes t w = .ok () w)
include known

theorem superclass_class (h : w.IsClass t d) (hu : resolve d.superclass w = .ok u w) :
    superclass t w = .ok u w := by
  have again : entry t w = .ok (w.types.getD t.index {}) w := rfl
  unfold superclass
  rw [bind_run (view_class h)]
  simp only [h.found, Bool.false_eq_true, if_false]
  rw [bind_run (known h), bind_run again, h.shape]
  exact hu

theorem superInterfaces_class (h : w.IsClass t d) : superInterfaces t w = .ok [] w := by
  have again : entry t w = .ok (w.types.getD t.index {}) w := rfl
  unfold superInterfaces
  rw [bind_run (view_class h)]
  simp only [h.found, Bool.false_eq_true, if_false]
  rw [bind_run (known h), bind_run again, h.shape]
  exact congrArg (EStateM.Result.ok · w) h.interfaces

omit known in
/-- A walk over supertypes ends at the class that it looks for. -/
theorem asSuperFrom_self (h : w.IsClass t d) (hseen : t ∉ seen) :
    asSuperFrom t (n + 1) seen t w = .ok (t, t :: seen) w := by
  rw [asSuperFrom, bind_run (resolve_class h)]
  simp only [h.isNone, List.contains_eq_mem, decide_eq_false hseen, Bool.or_self,
    Bool.false_eq_true, if_false]
  rw [bind_run (declaration_class h), if_pos (beq_self_eq_true t)]
  rfl

/-- Any other class leads to its superclass. -/
theorem asSuperFrom_up (h : w.IsClass t d) (hseen : t ∉ seen) (hb : t ≠ b)
    (hu : resolve d.superclass w = .ok u w) {x : TypeId × List TypeId}
    (hx : (if u.isSome then asSuperFrom b n (t :: seen) u else pure (.none, t :: seen)) w =
      .ok x w) : asSuperFrom b (n + 1) seen t w = .ok x w := by
  rw [asSuperFrom, bind_run (resolve_class h)]
  simp only [h.isNone, List.contains_eq_mem, decide_eq_false hseen, Bool.or_self,
    Bool.false_eq_true, if_false]
  rw [bind_run (declaration_class h), if_neg (by simpa using hb),
    bind_run (superclass_class known h hu)]
  obtain ⟨found, seen'⟩ := x
  split at hx <;> rename_i hs
  all_goals
    first | rw [if_pos hs, bind_run hx] | rw [if_neg hs, bind_run hx]
    cases hfound : found.isSome with
    | true => rfl
    | false =>
      obtain rfl := TypeId.eq_none hfound
      rw [if_neg (by simp), bind_run (superInterfaces_class known h)]
      rfl

/-- A walk over supertypes meets the superclasses of a class, and no other types. -/
theorem asSuperFrom_chain {cs : List TypeId} (h : w.Chain cs) (hn : cs.length ≤ n)
    (hnodup : cs.Nodup) (hseen : ∀ u ∈ cs, u ∉ seen) :
    ∃ seen', asSuperFrom b n seen (cs.headD .none) w =
      .ok (if b ∈ cs then b else .none, seen') w := by
  induction h generalizing n seen with
  | @top t d hc hd kept absent =>
    obtain ⟨n, rfl⟩ := Nat.exists_eq_add_of_lt hn
    have hup : resolve d.superclass w = .ok .none w := by
      rw [hd]
      exact resolve_ok kept fun parts hp => by cases absent.symm.trans hp
    by_cases ht : t = b
    · subst ht
      refine ⟨t :: seen, ?_⟩
      rw [if_pos List.mem_cons_self]
      exact asSuperFrom_self hc (hseen t List.mem_cons_self)
    · refine ⟨t :: seen, ?_⟩
      rw [if_neg (by simpa using Ne.symm ht)]
      exact asSuperFrom_up known hc (hseen t List.mem_cons_self) ht hup rfl
  | @up t u d ts hc hd rest ih =>
    obtain ⟨n, rfl⟩ := Nat.exists_eq_add_of_lt (Nat.lt_of_lt_of_le (Nat.zero_lt_succ _) hn)
    obtain ⟨hnot, hnodup⟩ := List.nodup_cons.1 hnodup
    by_cases ht : t = b
    · subst ht
      refine ⟨t :: seen, ?_⟩
      rw [if_pos List.mem_cons_self]
      exact asSuperFrom_self hc (hseen t List.mem_cons_self)
    · obtain ⟨e, hu⟩ := rest.mem u List.mem_cons_self
      have later : ∀ v ∈ u :: ts, v ∉ t :: seen := fun v hv => by
        rw [List.mem_cons, not_or]
        exact ⟨fun h => hnot (h ▸ hv), hseen v (List.mem_cons_of_mem t hv)⟩
      obtain ⟨seen', hrest⟩ := ih (n := 0 + n) (by simpa using hn) hnodup later
      refine ⟨seen', ?_⟩
      have hup : resolve d.superclass w = .ok u w := by
        rw [hd]
        exact resolve_class hu
      refine asSuperFrom_up known hc (hseen t List.mem_cons_self) ht hup ?_
      simpa [hu.isSome, List.mem_cons (a := b), Ne.symm ht] using hrest

theorem instanceSubtype_chain {e : Declared} (h : w.Chain (t :: ts))
    (hn : (t :: ts).length ≤ walkLimit) (hnodup : (t :: ts).Nodup) (hb : w.IsClass b e) :
    instanceSubtype t b (.declared e) w = .ok (decide (b ∈ t :: ts)) w := by
  have fresh : ∀ u ∈ t :: ts, u ∉ ([] : List TypeId) := nofun
  obtain ⟨seen, hup⟩ := asSuperFrom_chain (b := b) known h hn hnodup fresh
  have super : asSuper t b w = .ok (if b ∈ t :: ts then b else .none) w := bind_run hup
  unfold instanceSubtype
  rw [bind_run (declaration_class hb), bind_run super]
  by_cases hmem : b ∈ t :: ts
  · rw [if_pos hmem, if_neg (by simp [hb.isNone]), decide_eq_true hmem]
    rfl
  · rw [if_neg hmem, decide_eq_false hmem]
    rfl

/-- A class is a subtype of its superclasses, and of no other classes. -/
theorem subtypeRule_chain {o : TypeId} {e : Declared} (h : w.Chain (t :: ts))
    (hn : (t :: ts).length ≤ walkLimit) (hnodup : (t :: ts).Nodup) (hb : w.IsClass b e)
    (ho : w.wellKnown[("java.lang.Object" : Text)]? = some o) (htop : o ∈ t :: ts) :
    subtypeRule t b w = .ok (decide (b ∈ t :: ts)) w := by
  obtain ⟨d, hc⟩ := h.mem t List.mem_cons_self
  unfold subtypeRule
  rw [bind_run (resolve_class hc), bind_run (resolve_class hb)]
  dsimp only
  by_cases hab : t = b
  · subst hab
    rw [if_pos (beq_self_eq_true _), decide_eq_true List.mem_cons_self]
    rfl
  have object : objectType w = .ok o w := by
    unfold objectType wellKnown
    rw [bind_run (get_run w)]
    simp only [ho]
    rfl
  have isTop : isObject b w = .ok (b == o) w := by
    unfold isObject
    rw [bind_run (resolve_class hb), bind_run object]
    rfl
  rw [if_neg (by simpa using hab), bind_run (shape_class hc), bind_run (shape_class hb),
    if_neg (by simp [Shape.isAbsent, Shape.isMissing, hc.found, hb.found])]
  change (isObject b >>= fun q => if q then pure true else instanceSubtype t b (.declared e)) w = _
  rw [bind_run isTop]
  by_cases hbo : b = o
  · subst hbo
    rw [if_pos (beq_self_eq_true _), decide_eq_true htop]
    rfl
  · rw [if_neg (by simpa using hbo)]
    exact instanceSubtype_chain known h hn hnodup hb

end

end Lookup

/-! ## A few classes -/

/-- A class without members. -/
def emptyClass (name : Text) (superclass : TypeId) : Declared where
  origin := .binary {} none
  name
  qualified := name
  superclass
  progress := { hasSupertypes := true, hasMembers := true }

/-- The classes of a program and their superclasses: an exception `E` and a class `A` besides those
of the library. -/
def fewNames : List (Text × TypeId) :=
  [("java.lang.Object", .none), ("java.lang.Throwable", ⟨11⟩), ("java.lang.Exception", ⟨12⟩),
    ("java.lang.RuntimeException", ⟨13⟩), ("java.lang.Error", ⟨12⟩), ("E", ⟨13⟩), ("A", ⟨11⟩)]

/-- A program of these classes, in which `A` has a method that declares `Exception`. -/
def fewClasses : World where
  types := firstTypes ++
    (fewNames.map fun x => { shape := .declared (emptyClass x.1 x.2) : TypeEntry }).toArray
  wellKnown := ({} : Std.HashMap Text TypeId)
    |>.insert "java.lang.Object" ⟨11⟩ |>.insert "java.lang.Exception" ⟨13⟩
    |>.insert "java.lang.RuntimeException" ⟨14⟩ |>.insert "java.lang.Error" ⟨15⟩
  methods := #[{}, { name := "m", declaring := ⟨17⟩, result := base .void, throws := [⟨13⟩] }]
  methodOfDecl := ({} : Std.HashMap Nat MethodId).insert 1 ⟨1⟩

/-- The worlds of these classes, whatever was reported and found out about nodes. -/
def FewClasses (w : World) : Prop :=
  ∃ rs fs, w = { fewClasses with reports := rs, findings := fs }

def fewIds : List TypeId := [⟨11⟩, ⟨12⟩, ⟨13⟩, ⟨14⟩, ⟨15⟩, ⟨16⟩, ⟨17⟩]

/-- A class of these and its superclasses. -/
def classesFrom : TypeId → List TypeId
  | ⟨11⟩ => [⟨11⟩]
  | ⟨12⟩ => [⟨12⟩, ⟨11⟩]
  | ⟨13⟩ => [⟨13⟩, ⟨12⟩, ⟨11⟩]
  | ⟨14⟩ => [⟨14⟩, ⟨13⟩, ⟨12⟩, ⟨11⟩]
  | ⟨15⟩ => [⟨15⟩, ⟨12⟩, ⟨11⟩]
  | ⟨16⟩ => [⟨16⟩, ⟨13⟩, ⟨12⟩, ⟨11⟩]
  | ⟨17⟩ => [⟨17⟩, ⟨11⟩]
  | _ => []

section

variable {w : World} {s t : TypeId} {n : Nat}

theorem mem_fewIds : t ∈ fewIds ↔
    t = ⟨11⟩ ∨ t = ⟨12⟩ ∨ t = ⟨13⟩ ∨ t = ⟨14⟩ ∨ t = ⟨15⟩ ∨ t = ⟨16⟩ ∨ t = ⟨17⟩ := by
  simp only [fewIds, List.mem_cons, List.not_mem_nil, or_false]

theorem mem_fewIds_of_mem (h : t ∈ classesFrom s) : s ∈ fewIds := by
  unfold classesFrom at h
  split at h <;> first | decide | cases h

theorem classesFrom_eq_cons (ht : t ∈ fewIds) : ∃ ts, classesFrom t = t :: ts := by
  rcases mem_fewIds.1 ht with rfl | rfl | rfl | rfl | rfl | rfl | rfl <;> exact ⟨_, rfl⟩

theorem wellKnown_fewClasses :
    fewClasses.wellKnown[("java.lang.Object" : Text)]? = some ⟨11⟩ ∧
    fewClasses.wellKnown[("java.lang.Exception" : Text)]? = some ⟨13⟩ ∧
    fewClasses.wellKnown[("java.lang.RuntimeException" : Text)]? = some ⟨14⟩ ∧
    fewClasses.wellKnown[("java.lang.Error" : Text)]? = some ⟨15⟩ := by
  simp only [fewClasses, Std.HashMap.getElem?_insert]
  exact ⟨rfl, rfl, rfl, rfl⟩

namespace FewClasses

theorem self : FewClasses fewClasses := ⟨#[], {}, rfl⟩

theorem isClass_at (hw : FewClasses w) {i : Nat} {x : Text × TypeId} (h : fewNames[i]? = some x) :
    w.IsClass ⟨11 + i⟩ (emptyClass x.1 x.2) := by
  obtain ⟨rs, fs, rfl⟩ := hw
  refine ⟨Std.HashMap.getElem?_empty, ?_, by simp [TypeId.isSome], rfl, rfl, rfl⟩
  have hsize : firstTypes.size = 11 := by simp [firstTypes, baseTypes]
  change (fewClasses.types.getD (11 + i) {}).shape = _
  rw [fewClasses, Array.getD_eq_getD_getElem?, Array.getElem?_append_right (by omega), hsize,
    Nat.add_sub_cancel_left, List.getElem?_toArray, List.getElem?_map, h]
  rfl

theorem chain (hw : FewClasses w) (ht : t ∈ fewIds) : w.Chain (classesFrom t) := by
  have absent : (w.types.getD 0 {}).shape = .absent := by
    obtain ⟨rs, fs, rfl⟩ := hw
    change (fewClasses.types.getD 0 {}).shape = _
    rw [fewClasses, firstTypes, List.map_toArray]
    rfl
  have kept : w.redirects[TypeId.none]? = none := by
    obtain ⟨rs, fs, rfl⟩ := hw
    exact Std.HashMap.getElem?_empty
  have object : w.Chain [⟨11⟩] := .top (hw.isClass_at (i := 0) rfl) rfl kept absent
  have throwable : w.Chain [⟨12⟩, ⟨11⟩] := .up (hw.isClass_at (i := 1) rfl) rfl object
  have exception : w.Chain [⟨13⟩, ⟨12⟩, ⟨11⟩] := .up (hw.isClass_at (i := 2) rfl) rfl throwable
  have runtime := World.Chain.up (hw.isClass_at (i := 3) rfl) rfl exception
  have error := World.Chain.up (hw.isClass_at (i := 4) rfl) rfl throwable
  have own := World.Chain.up (hw.isClass_at (i := 5) rfl) rfl exception
  have user := World.Chain.up (hw.isClass_at (i := 6) rfl) rfl object
  rcases mem_fewIds.1 ht with rfl | rfl | rfl | rfl | rfl | rfl | rfl
  · exact object
  · exact throwable
  · exact exception
  · exact runtime
  · exact error
  · exact own
  · exact user

theorem isClass (hw : FewClasses w) (ht : t ∈ fewIds) :
    ∃ name superclass, w.IsClass t (emptyClass name superclass) := by
  have hall : ∀ t ∈ fewIds, 11 ≤ t.index ∧ t.index - 11 < fewNames.length := by decide
  obtain ⟨hlow, hlen⟩ := hall t ht
  have h := hw.isClass_at (List.getElem?_eq_getElem hlen)
  rw [Nat.add_sub_cancel' hlow] at h
  exact ⟨_, _, h⟩

theorem wellKnown [Answers] (hw : FewClasses w) {name : Text}
    (h : fewClasses.wellKnown[name]? = some t) : Lookup.wellKnown name w = .ok t w := by
  obtain ⟨rs, fs, rfl⟩ := hw
  unfold Lookup.wellKnown
  rw [bind_run (get_run _)]
  have h : ({ fewClasses with reports := rs, findings := fs } : World).wellKnown[name]? = some t := h
  simp only [h]
  rfl

/-- A class of these is a subtype of its superclasses, and of no others. -/
theorem subtype (hw : FewClasses w) (hs : s ∈ fewIds) (ht : t ∈ fewIds) :
    answer (n + 2) (.subtype s t) w = .ok (decide (t ∈ classesFrom s)) w := by
  let _ : Answers := ⟨answer (n + 1)⟩
  have known : ∀ {t d}, w.IsClass t d → Lookup.ensureSupertypes t w = .ok () w := by
    intro t d h
    let _ : Answers := ⟨answer n⟩
    change Lookup.supertypesRule t w = _
    unfold Lookup.supertypesRule
    rw [bind_run (Lookup.view_class h)]
    simp only [h.supertypes]
    rfl
  have line : ∀ s ∈ fewIds, (classesFrom s).length ≤ 4 ∧ (classesFrom s).Nodup ∧
      ⟨11⟩ ∈ classesFrom s := by decide
  obtain ⟨hlen, hnodup, htop⟩ := line s hs
  have chain := hw.chain hs
  obtain ⟨ts, hts⟩ := classesFrom_eq_cons hs
  obtain ⟨name, super, hclass⟩ := hw.isClass ht
  rw [hts] at chain hlen hnodup htop
  have object : w.wellKnown[("java.lang.Object" : Text)]? = some ⟨11⟩ := by
    obtain ⟨rs, fs, rfl⟩ := hw
    exact wellKnown_fewClasses.1
  change Lookup.subtypeRule s t w = _
  rw [Lookup.subtypeRule_chain known chain (Nat.le_trans hlen (by decide)) hnodup hclass object htop,
    ← hts]

theorem typeName (hw : FewClasses w) (ht : t ∈ fewIds) :
    ∃ text, @Lookup.typeName ⟨answer (n + 1)⟩ t w = .ok text w := by
  obtain ⟨name, super, hclass⟩ := hw.isClass ht
  let _ : Answers := ⟨answer n⟩
  refine ⟨?_, ?_⟩
  rotate_left
  · change Lookup.spellingRule _ t w = _
    unfold Lookup.spellingRule
    rw [bind_run (Lookup.view_class hclass)]
    rfl

end FewClasses

end

end Javelin
