import Javelin.Proofs.Text.Cutting
import Javelin.Proofs.Types.Growing

/-!
# Worlds that are reached by making types

To make a type is to add rows: what was known stays as it is, and the new type is of the shape that
was asked for. A name that is referred to leads to the type of that name, or to a placeholder.

1. `World.Is`, a type in use and what it is.
2. `World.Extends`, from a canonical world to one in which composite types were made.
3. `World.Tidy`, worlds whose types are canonical and found under their names, and `World.Reaches`,
   from one of them to the next.
4. What the operations on types reach.
-/

namespace Javelin

open Run

namespace World

variable {w v u : World} {t x : TypeId} {s : Shape} {c d : Composite} {name : Text}

/-! ## Types in use -/

/-- A type in use and what it is. -/
structure Is (w : World) (t : TypeId) (s : Shape) : Prop where
  live : w.IsLive t
  shape : (w.row t).shape = s

/-- A type that another one can be made of. -/
def Usable (w : World) (t : TypeId) : Prop := w.IsLive t ∧ t.index < w.types.size

theorem Is.usable (h : w.Is t s) (hs : s.isAbsent = false) : w.Usable t :=
  ⟨h.live, lt_size_of_shape (h.shape ▸ hs)⟩

theorem Is.follow (h : w.Is t s) : w.follow t = t := follow_live h.live

theorem Is.shape_eq {r : Shape} (h : w.Is t s) (h' : w.Is t r) : s = r :=
  h.shape.symm.trans h'.shape

theorem Is.isNone (hw : w.Canonical) (h : w.Is t s) (hs : s.isAbsent = false) :
    t.isNone = false := by
  refine beq_false_of_ne fun hindex => ?_
  have hnone : t = .none := TypeId.eq_of_index hindex
  rw [← h.shape, hnone, hw.absent] at hs
  cases hs

theorem Is.isSome (hw : w.Canonical) (h : w.Is t s) (hs : s.isAbsent = false) :
    t.isSome = true := by
  rw [TypeId.isSome, bne, show (t.index == 0) = false from h.isNone hw hs, Bool.not_false]

theorem Is.resolve [Answers] (h : w.Is t s) (hs : s.isWaiting = false) :
    Lookup.resolve t w = .ok t w := by
  refine Lookup.resolve_ok h.live fun parts hparts => ?_
  rw [← h.shape, show (w.row t).shape = .unresolved parts false from hparts] at hs
  cases hs

theorem Is.lookup [Answers] (h : w.Is t s) (hs : s.isWaiting = false) :
    Lookup.shape t w = .ok s w := by
  unfold Lookup.shape
  rw [bind_run (h.resolve hs), bind_run (Lookup.entry_run t w), h.shape]
  rfl

theorem Is.view [Answers] (h : w.Is t s) (hs : s.isWaiting = false) :
    Lookup.view t w = .ok (t, s) w := by
  unfold Lookup.view
  rw [bind_run (h.resolve hs), bind_run (Lookup.entry_run t w), h.shape]
  rfl

/-- Composite types are one if they have the same components. -/
theorem Canonical.eq_iff (h : w.Canonical) (ht : w.Is t (.composite c))
    (hx : w.Is x (.composite d)) : t = x ↔ c = d := by
  constructor
  · rintro rfl
    exact Shape.composite.inj (ht.shape_eq hx)
  · rintro rfl
    have htable := h.known.mpr ⟨ht.live, ht.shape⟩
    exact Option.some.inj (htable.symm.trans (h.known.mpr ⟨hx.live, hx.shape⟩))

/-- The components of a type in use. -/
theorem Canonical.component (h : w.Canonical) (ht : w.Is t (.composite c))
    (hx : x ∈ c.components) : w.Usable x := by
  have hmem : x ∈ w.mentioned (.type t) := (mentioned_type ht.shape).symm ▸ hx
  exact ⟨h.live (m := .type t) ht.live hmem, h.inside hmem⟩

theorem Canonical.usable_none (h : w.Canonical) : w.Usable .none := h.none_usable

/-! ## Composite types that are made -/

/-- A canonical world with the types of another one, and perhaps more composite types. -/
structure Extends (w v : World) : Prop where
  canonical : v.Canonical
  size : w.types.size ≤ v.types.size
  shape : ∀ {x : TypeId}, x.index < w.types.size → (v.row x).shape = (w.row x).shape
  redirects : v.redirects = w.redirects
  byBinaryName : v.byBinaryName = w.byBinaryName
  placeholders : v.placeholders = w.placeholders

namespace Extends

theorem refl (h : w.Canonical) : w.Extends w := ⟨h, Nat.le_refl _, fun _ => rfl, rfl, rfl, rfl⟩

theorem trans (h : w.Extends v) (h' : v.Extends u) : w.Extends u where
  canonical := h'.canonical
  size := Nat.le_trans h.size h'.size
  shape hx := (h'.shape (Nat.lt_of_lt_of_le hx h.size)).trans (h.shape hx)
  redirects := h'.redirects.trans h.redirects
  byBinaryName := h'.byBinaryName.trans h.byBinaryName
  placeholders := h'.placeholders.trans h.placeholders

theorem follow (h : w.Extends v) (x : TypeId) : v.follow x = w.follow x := by
  rw [World.follow, World.follow, h.redirects]

theorem isLive (h : w.Extends v) : v.IsLive x ↔ w.IsLive x := by
  rw [IsLive, IsLive, h.redirects]

end Extends

/-- The composite type of given components is known or made. -/
theorem Canonical.intern (h : w.Canonical) (hc : ∀ x ∈ c.components, w.Usable x)
    (hflat : ∀ {e n}, c = .array e n → (w.row e).shape.isArray = false) :
    ∃ t v, Lookup.intern c w = .ok t v ∧ w.Extends v ∧ v.Is t (.composite c) := by
  cases hknown : w.composites[c]? with
  | some t =>
    obtain ⟨hlive, hshape⟩ := h.known.mp hknown
    refine ⟨t, w, ?_, .refl h, hlive, hshape⟩
    rw [Lookup.intern_known hknown, follow_live hlive]
  | none =>
    have hrun := Lookup.intern_new hknown
    have hnotes := Lookup.notes_interned c hc
    have hshape (x : TypeId) : ((w.interned c).row x).shape =
        if x = w.nextType then .composite c else (w.row x).shape := by
      refine (hnotes.shape x).trans ((congrArg TypeEntry.shape (row_adding w _ x)).trans ?_)
      split <;> rfl
    refine ⟨w.nextType, w.interned c, hrun, ⟨?_, ?_, fun {x} hx => ?_, hnotes.redirects,
      hnotes.byBinaryName, hnotes.placeholders⟩, ?_, ?_⟩
    · exact Lookup.intern_canonical hrun h hc hflat
    · rw [hnotes.size]
      exact Nat.le_trans (Nat.le_succ _) (Nat.le_of_eq (Array.size_push ..).symm)
    · rw [hshape, if_neg]
      rintro rfl
      exact Nat.lt_irrefl _ hx
    · exact (congrArg (·[w.nextType]?) hnotes.redirects).trans h.live_nextType
    · rw [hshape, if_pos rfl]

/-- An array of a type that is no array. -/
theorem Canonical.array {n : Nat} (h : w.Canonical)
    (hx : (w.row (w.follow x)).shape.isAbsent = false)
    (harray : (w.row (w.follow x)).shape.isArray = false) (hn : n ≠ 0) :
    ∃ t v, Lookup.array x n w = .ok t v ∧ w.Extends v ∧
      v.Is t (.composite (.array (w.follow x) n)) := by
  have his : w.Is (w.follow x) (w.row (w.follow x)).shape := ⟨h.live_follow x, rfl⟩
  have hrun : Lookup.array x n w = Lookup.intern (.array (w.follow x) n) w := by
    unfold Lookup.array
    rw [bind_run (Lookup.follow_run x w), if_neg, bind_run (Lookup.rawShape_run _ w), his.follow]
    · cases hs : (w.row (w.follow x)).shape with
      | composite c =>
        cases c with
        | array =>
          rw [hs] at harray
          cases harray
        | _ => rfl
      | _ => rfl
    · rw [his.isNone h hx, beq_false_of_ne hn]
      exact Bool.false_ne_true
  rw [hrun]
  refine h.intern ?_ ?_
  · rintro y (_ | ⟨_, ⟨⟩⟩)
    exact his.usable hx
  · rintro e n ⟨⟩
    exact harray

/-- An array of arrays. -/
theorem Canonical.array_array {e : TypeId} {m n : Nat} (h : w.Canonical)
    (hx : (w.row (w.follow x)).shape = .composite (.array e m)) (hn : n ≠ 0) :
    ∃ t v, Lookup.array x n w = .ok t v ∧ w.Extends v ∧
      v.Is t (.composite (.array e (n + m))) := by
  have his : w.Is (w.follow x) (.composite (.array e m)) := ⟨h.live_follow x, hx⟩
  have hrun : Lookup.array x n w = Lookup.intern (.array e (n + m)) w := by
    unfold Lookup.array
    rw [bind_run (Lookup.follow_run x w), if_neg, bind_run (Lookup.rawShape_run _ w), his.follow,
      hx]
    rw [his.isNone h rfl, beq_false_of_ne hn]
    exact Bool.false_ne_true
  rw [hrun]
  refine h.intern ?_ ?_
  · rintro y (_ | ⟨_, ⟨⟩⟩)
    exact h.component his (List.mem_singleton_self e)
  · rintro e' n' ⟨⟩
    exact h.flat hx

theorem Canonical.wildcard (h : w.Canonical) (hx : x.index < w.types.size) (kind : WildcardKind) :
    ∃ t v, Lookup.wildcard x kind w = .ok t v ∧ w.Extends v ∧
      v.Is t (.composite (.wildcard (if kind == .unbounded then .none else w.follow x) kind)) := by
  unfold Lookup.wildcard
  rw [bind_run (Lookup.follow_run x w)]
  refine h.intern ?_ nofun
  rintro y (_ | ⟨_, ⟨⟩⟩)
  split
  · exact h.usable_none
  · exact ⟨h.live_follow x, h.follow_lt hx⟩

theorem Canonical.parameterizeAs {g outer : TypeId} {args : List TypeId} (h : w.Canonical)
    (hparts : ∀ x ∈ g :: outer :: args, x.index < w.types.size) (isDegraded : Bool) :
    ∃ t v, Lookup.parameterizeAs g args outer isDegraded w = .ok t v ∧ w.Extends v ∧
      v.Is t (.composite
        (.parameterized (w.follow g) (args.map w.follow) (w.follow outer) isDegraded)) := by
  unfold Lookup.parameterizeAs
  rw [bind_run (Lookup.follow_run g w), bind_run (Lookup.mapM_follow_run args w),
    bind_run (Lookup.follow_run outer w)]
  exact h.intern (Lookup.follow_usable h _ hparts) nofun

theorem Canonical.intersection {ts : List TypeId} (h : w.Canonical)
    (hts : ∀ x ∈ ts, x.index < w.types.size) (hlength : ts.length ≠ 1) :
    ∃ t v, Lookup.intersection ts w = .ok t v ∧ w.Extends v ∧
      v.Is t (.composite (.intersection (ts.map w.follow))) := by
  have hrun : Lookup.intersection ts w = Lookup.intern (.intersection (ts.map w.follow)) w := by
    unfold Lookup.intersection
    split
    · exact absurd rfl hlength
    · exact bind_run (Lookup.mapM_follow_run _ w)
  rw [hrun]
  exact h.intern (Lookup.follow_usable h _ hts) nofun

/-! ## Tidy worlds -/

/-- Whether a type has a name in class files. -/
def IsNamed (w : World) (name : Text) (t : TypeId) : Prop :=
  match (w.row t).shape with
  | .declared d => d.binaryName = name
  | .unresolved parts _ => Lookup.internalName parts = name
  | _ => False

/-- Types are canonical, and a name leads to a type of that name. -/
structure Tidy (w : World) : Prop where
  canonical : w.Canonical
  named : ∀ {name : Text} {t : TypeId},
    w.byBinaryName[name]? = some t ∨ w.placeholders[name]? = some t → w.IsNamed name (w.follow t)

/-- A tidy world with the types and the classes of another one, and perhaps more. -/
structure Reaches (w v : World) : Prop where
  tidy : v.Tidy
  size : w.types.size ≤ v.types.size
  shape : ∀ {x : TypeId}, x.index < w.types.size → (v.row x).shape = (w.row x).shape
  live : ∀ {x : TypeId}, x.index < w.types.size → w.IsLive x → v.IsLive x
  found : ∀ {name : Text} {t : TypeId},
    w.byBinaryName[name]? = some t → v.byBinaryName[name]? = some t

theorem IsNamed.isAbsent (h : w.IsNamed name t) : (w.row t).shape.isAbsent = false := by
  unfold IsNamed at h
  cases hs : (w.row t).shape <;> simp_all [Shape.isAbsent]

theorem IsNamed.isArray (h : w.IsNamed name t) : (w.row t).shape.isArray = false := by
  unfold IsNamed at h
  cases hs : (w.row t).shape <;> simp_all [Shape.isArray]

namespace Reaches

theorem refl (h : w.Tidy) : w.Reaches w where
  tidy := h
  size := Nat.le_refl _
  shape _ := rfl
  live _ h := h
  found h := h

theorem trans (h : w.Reaches v) (h' : v.Reaches u) : w.Reaches u where
  tidy := h'.tidy
  size := Nat.le_trans h.size h'.size
  shape hx := (h'.shape (Nat.lt_of_lt_of_le hx h.size)).trans (h.shape hx)
  live hx hlive := h'.live (Nat.lt_of_lt_of_le hx h.size) (h.live hx hlive)
  found hname := h'.found (h.found hname)

theorem is_of (h : w.Reaches v) (ht : w.Is t s) (hs : s.isAbsent = false) : v.Is t s where
  live := h.live (ht.usable hs).2 ht.live
  shape := (h.shape (ht.usable hs).2).trans ht.shape

theorem usable (h : w.Reaches v) (ht : w.Usable t) : v.Usable t :=
  ⟨h.live ht.2 ht.1, Nat.lt_of_lt_of_le ht.2 h.size⟩

end Reaches

/-- Names keep leading to types of that name in a world with more rows. -/
theorem IsNamed.mono (h : w.IsNamed name t)
    (shape : t.index < w.types.size → (v.row t).shape = (w.row t).shape) : v.IsNamed name t := by
  unfold IsNamed
  rwa [shape (lt_size_of_shape h.isAbsent)]

/-! ## What operations reach -/

/-- A world with one more row, perhaps under a name that is new. -/
theorem Tidy.reaches_added (h : w.Tidy) (canonical : v.Canonical)
    (size : w.types.size ≤ v.types.size)
    (shape : ∀ x : TypeId, (v.row x).shape = if x = w.nextType then s else (w.row x).shape)
    (redirects : v.redirects = w.redirects)
    (found : ∀ {name : Text} {t : TypeId},
      w.byBinaryName[name]? = some t → v.byBinaryName[name]? = some t)
    (names : ∀ {name : Text} {t : TypeId},
      v.byBinaryName[name]? = some t ∨ v.placeholders[name]? = some t →
      (w.byBinaryName[name]? = some t ∨ w.placeholders[name]? = some t) ∨
        t = w.nextType ∧ v.IsNamed name t) :
    w.Reaches v ∧ v.Is w.nextType s := by
  have old {x : TypeId} (hx : x.index < w.types.size) : (v.row x).shape = (w.row x).shape := by
    rw [shape, if_neg]
    rintro rfl
    exact Nat.lt_irrefl _ hx
  have live {x : TypeId} (hx : w.IsLive x) : v.IsLive x := (congrArg (·[x]?) redirects).trans hx
  have next := live h.canonical.live_nextType
  refine ⟨⟨⟨canonical, fun {name t} ht => ?_⟩, size, old, fun _ => live, found⟩, next, ?_⟩
  · rcases names ht with ht | ⟨rfl, ht⟩
    · rw [World.follow, redirects]
      exact (h.named ht).mono old
    · rwa [follow_live next]
  · rw [shape, if_pos rfl]

/-- A tidy world stays so when composite types are made. -/
theorem Tidy.extend (h : w.Tidy) {m : Lookup TypeId}
    (hm : ∃ t v, m w = .ok t v ∧ w.Extends v ∧ v.Is t s) :
    ∃ t v, m w = .ok t v ∧ w.Reaches v ∧ v.Is t s := by
  obtain ⟨t, v, hrun, hv, ht⟩ := hm
  refine ⟨t, v, hrun, ⟨⟨hv.canonical, fun {name u} hu => ?_⟩, hv.size, hv.shape,
    fun _ => hv.isLive.mpr, fun hu => hv.byBinaryName ▸ hu⟩, ht⟩
  rw [hv.byBinaryName, hv.placeholders] at hu
  rw [hv.follow]
  exact (h.named hu).mono hv.shape

/-- An array of a type that is no array. -/
theorem Tidy.array {n : Nat} (h : w.Tidy) (hx : w.Is x s) (hs : s.isAbsent = false)
    (harray : s.isArray = false) (hn : n ≠ 0) :
    ∃ t v, Lookup.array x n w = .ok t v ∧ w.Reaches v ∧ v.Is t (.composite (.array x n)) := by
  have hmade := h.canonical.array (x := x) (n := n)
  rw [hx.follow, hx.shape] at hmade
  exact h.extend (hmade hs harray hn)

/-- An array of arrays. -/
theorem Tidy.array_array {e : TypeId} {m n : Nat} (h : w.Tidy)
    (hx : w.Is x (.composite (.array e m))) (hn : n ≠ 0) :
    ∃ t v, Lookup.array x n w = .ok t v ∧ w.Reaches v ∧ v.Is t (.composite (.array e (n + m))) :=
  h.extend (h.canonical.array_array (hx.follow.symm ▸ hx.shape) hn)

theorem Tidy.wildcard (h : w.Tidy) (hx : w.Usable x) (kind : WildcardKind) :
    ∃ t v, Lookup.wildcard x kind w = .ok t v ∧ w.Reaches v ∧
      v.Is t (.composite (.wildcard (if kind == .unbounded then .none else x) kind)) := by
  have hmade := h.canonical.wildcard hx.2 kind
  rw [follow_live hx.1] at hmade
  exact h.extend hmade

theorem Tidy.parameterize {g outer : TypeId} {args : List TypeId} (h : w.Tidy)
    (hparts : ∀ x ∈ g :: outer :: args, w.Usable x) :
    ∃ t v, Lookup.parameterize g args outer w = .ok t v ∧ w.Reaches v ∧
      v.Is t (.composite (.parameterized g args outer false)) := by
  have hmade := h.canonical.parameterizeAs (fun x hx => (hparts x hx).2) false
  have hargs : args.map w.follow = args := by
    refine (List.map_congr_left fun x hx => ?_).trans (List.map_id _)
    exact follow_live (hparts x (List.mem_cons_of_mem _ (List.mem_cons_of_mem _ hx))).1
  rw [hargs, follow_live (hparts g (by simp)).1, follow_live (hparts outer (by simp)).1] at hmade
  exact h.extend hmade

/-- The world with a placeholder for a name. -/
def referringTo (w : World) (parts : List Text) : World :=
  { w.adding (.unresolved parts false) with
    placeholders := w.placeholders.insert (Lookup.internalName parts) w.nextType }

theorem reference_known {parts : List Text}
    (h : w.byBinaryName[Lookup.internalName parts]? = some t) :
    Lookup.reference parts w = .ok (w.follow t) w := by
  unfold Lookup.reference
  rw [bind_run (get_run w)]
  simp only [h]
  rfl

/-- A name that is referred to leads to a type of that name. -/
theorem Tidy.reference (h : w.Tidy) (parts : List Text) :
    ∃ t v, Lookup.reference parts w = .ok t v ∧ w.Reaches v ∧ v.IsLive t ∧
      v.IsNamed (Lookup.internalName parts) t := by
  cases hknown : w.byBinaryName[Lookup.internalName parts]? with
  | some t =>
    exact ⟨w.follow t, w, reference_known hknown, .refl h, h.canonical.live_follow t,
      h.named (.inl hknown)⟩
  | none =>
    cases hplaceholder : w.placeholders[Lookup.internalName parts]? with
    | some t =>
      refine ⟨w.follow t, w, ?_, .refl h, h.canonical.live_follow t, h.named (.inr hplaceholder)⟩
      unfold Lookup.reference
      rw [bind_run (get_run w)]
      simp only [hknown]
      rw [bind_run (get_run w)]
      simp only [hplaceholder]
      rfl
    | none =>
      have hrun : Lookup.reference parts w = .ok w.nextType (w.referringTo parts) := by
        unfold Lookup.reference
        rw [bind_run (get_run w)]
        simp only [hknown]
        rw [bind_run (get_run w)]
        simp only [hplaceholder]
        rfl
      have hrow (x : TypeId) : (w.referringTo parts).row x =
          if x = w.nextType then { shape := .unresolved parts false } else w.row x :=
        row_adding w _ x
      have hnamed : (w.referringTo parts).IsNamed (Lookup.internalName parts) w.nextType := by
        unfold IsNamed
        rw [hrow, if_pos rfl]
      obtain ⟨reaches, hnext⟩ := h.reaches_added (v := w.referringTo parts)
        (s := .unresolved parts false) (Lookup.reference_canonical hrun h.canonical)
        (Nat.le_trans (Nat.le_succ _) (Nat.le_of_eq (Array.size_push ..).symm))
        (fun x => by rw [hrow]; split <;> rfl) rfl id fun {name t} ht => by
          rcases ht with ht | ht
          · exact .inl (.inl ht)
          · change (w.placeholders.insert _ _)[name]? = _ at ht
            rw [Std.HashMap.getElem?_insert] at ht
            split at ht
            next heq =>
              obtain rfl := Option.some.inj ht
              exact .inr ⟨rfl, beq_iff_eq.mp heq ▸ hnamed⟩
            next => exact .inl (.inr ht)
      exact ⟨_, _, hrun, reaches, hnext.live, hnamed⟩

theorem Tidy.addVariable (h : w.Tidy) (name : Text) (rank : Nat) (ofType : TypeId)
    (ofMethod : MethodId) : ∃ t v, Lookup.addVariable name rank ofType ofMethod w = .ok t v ∧
      w.Reaches v ∧ v.Is t (.variable
        { name, rank, declaringType := ofType, declaringMethod := ofMethod }) ∧
      v.byBinaryName = w.byBinaryName := by
  have hrun : Lookup.addVariable name rank ofType ofMethod w = .ok w.nextType _ := rfl
  obtain ⟨reaches, hnext⟩ := h.reaches_added (Lookup.addVariable_canonical hrun h.canonical)
    (Nat.le_trans (Nat.le_succ _) (Nat.le_of_eq (Array.size_push ..).symm))
    (fun x => (congrArg TypeEntry.shape (row_adding w _ x)).trans (by split <;> rfl)) rfl id .inl
  exact ⟨_, _, hrun, reaches, hnext, rfl⟩

/-- A declared type whose name is new is found under its name. -/
theorem Tidy.recordType (h : w.Tidy) {d : Declared} (hd : w.byBinaryName[d.binaryName]? = none) :
    ∃ t v, Lookup.recordType d w = .ok t v ∧ w.Reaches v ∧ v.Is t (.declared d) ∧
      v.byBinaryName = w.byBinaryName.insert d.binaryName t := by
  let v : World :=
    { w.adding (.declared d) with byBinaryName := w.byBinaryName.insert d.binaryName w.nextType }
  have hrun : Lookup.recordType d w = .ok w.nextType v := rfl
  have hrow (x : TypeId) : v.row x = if x = w.nextType then { shape := .declared d } else w.row x :=
    row_adding w _ x
  have hget (name : Text) : v.byBinaryName[name]? =
      if d.binaryName == name then some w.nextType else w.byBinaryName[name]? :=
    Std.HashMap.getElem?_insert
  obtain ⟨reaches, hnext⟩ := h.reaches_added (v := v) (s := .declared d)
    (Lookup.recordType_canonical hrun h.canonical)
    (Nat.le_trans (Nat.le_succ _) (Nat.le_of_eq (Array.size_push ..).symm))
    (fun x => by rw [hrow]; split <;> rfl) rfl
    (fun {name t} ht => by
      rw [hget, if_neg fun heq => ?_]
      · exact ht
      · rw [← beq_iff_eq.mp heq, hd] at ht
        cases ht)
    fun {name t} ht => by
      rcases ht with ht | ht
      · rw [hget] at ht
        split at ht
        next heq =>
          obtain rfl := Option.some.inj ht
          refine .inr ⟨rfl, ?_⟩
          unfold IsNamed
          rw [hrow, if_pos rfl]
          exact beq_iff_eq.mp heq
        next => exact .inl (.inl ht)
      · exact .inl (.inr ht)
  exact ⟨_, v, hrun, reaches, hnext, rfl⟩

end World

end Javelin
