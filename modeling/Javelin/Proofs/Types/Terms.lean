import Mathlib.Data.List.Perm.Subperm
import Mathlib.Data.List.Zip
import Javelin.Proofs.Types.Reaching

/-!
# What types are made of

A number stands for a type, which may be made of other types by number, and so on. The term of a
type (`Term`) is all of this without numbers of composite types.

1. Terms and what a replacement of variables makes of them.
2. `World.Denotes`, the term of a type. A type has one term, and a term one type in use.
3. No type is nested deeper than there are types (`Denotes.bounded`).
4. `World.Means`, the same without a depth, and the terms of the types that operations make.
-/

namespace Javelin

open Run

/-! ## Terms -/

/-- A type with all that it is made of. -/
inductive Term where
  /-- No type: around a type that nothing encloses, and the bound of a wildcard without one. -/
  | absent
  | var (v : TypeId)
  /-- A type that is not made of others. -/
  | atom (t : TypeId)
  | raw (generic : TypeId)
  | array (elem : Term) (dims : Nat)
  | parameterized (generic : TypeId) (args : List Term) (outer : Term) (isDegraded : Bool)
  | wildcard (bound : Term) (kind : WildcardKind)
  | intersection (bounds : List Term)

namespace Term

variable {σ : TypeId → Option Term} {T : Term} {Ts : List Term}

/-- An array. Arrays of arrays are flattened, and there is no array of no type. -/
def arrayOf : Term → Nat → Term
  | .absent, _ => .absent
  | .array e m, n => .array e (n + m)
  | e, n => .array e n

/-- Whether an array of the type is not flattened. -/
def isElem : Term → Bool
  | .absent | .array .. => false
  | _ => true

theorem arrayOf_eq (h : T.isElem = true) (n : Nat) : T.arrayOf n = .array T n := by
  cases T <;> cases h <;> rfl

/-- An intersection; that of a single type is the type. -/
def meet : List Term → Term
  | [t] => t
  | ts => .intersection ts

theorem meet_eq (h : Ts.length ≠ 1) : meet Ts = .intersection Ts := by
  unfold meet
  split
  · exact absurd rfl h
  · rfl

mutual

/-- The term with each variable replaced for which there is something else. -/
def subst (σ : TypeId → Option Term) : Term → Term
  | .var v => (σ v).getD (.var v)
  | .array e n => arrayOf (e.subst σ) n
  | .parameterized g as o d => .parameterized g (substAll σ as) (o.subst σ) d
  | .wildcard b k => .wildcard (b.subst σ) k
  | .intersection bs => meet (substAll σ bs)
  | .absent => .absent
  | .atom t => .atom t
  | .raw g => .raw g

def substAll (σ : TypeId → Option Term) : List Term → List Term
  | [] => []
  | t :: ts => t.subst σ :: substAll σ ts

end

theorem substAll_eq_map (σ : TypeId → Option Term) (Ts : List Term) :
    substAll σ Ts = Ts.map (subst σ) := by
  induction Ts with
  | nil => rfl
  | cons T Ts ih => rw [substAll, ih, List.map_cons]

theorem length_substAll (σ : TypeId → Option Term) (Ts : List Term) :
    (substAll σ Ts).length = Ts.length := by
  rw [substAll_eq_map, List.length_map]

/-- Nothing is replaced in the term. -/
inductive Avoids (σ : TypeId → Option Term) : Term → Prop
  | absent : Avoids σ .absent
  | var {v : TypeId} (h : σ v = none) : Avoids σ (.var v)
  | atom {t : TypeId} : Avoids σ (.atom t)
  | raw {g : TypeId} : Avoids σ (.raw g)
  | array {e : Term} {n : Nat} (he : Avoids σ e) : Avoids σ (.array e n)
  | parameterized {g : TypeId} {as : List Term} {o : Term} {d : Bool}
    (has : ∀ a ∈ as, Avoids σ a) (ho : Avoids σ o) : Avoids σ (.parameterized g as o d)
  | wildcard {b : Term} {k : WildcardKind} (hb : Avoids σ b) : Avoids σ (.wildcard b k)
  | intersection {bs : List Term} (hbs : ∀ b ∈ bs, Avoids σ b) : Avoids σ (.intersection bs)

theorem Avoids.arrayOf (h : T.Avoids σ) (n : Nat) : (T.arrayOf n).Avoids σ := by
  cases h with
  | absent => exact .absent
  | array he => exact .array he
  | var h => exact .array (.var h)
  | atom => exact .array .atom
  | raw => exact .array .raw
  | parameterized has ho => exact .array (.parameterized has ho)
  | wildcard hb => exact .array (.wildcard hb)
  | intersection hbs => exact .array (.intersection hbs)

theorem avoids_meet (h : ∀ T ∈ Ts, T.Avoids σ) : (meet Ts).Avoids σ := by
  unfold meet
  split
  · exact h _ (List.mem_singleton_self _)
  · exact .intersection h

mutual

/-- If nothing is replaced in what is put in place of variables, nothing is replaced again. -/
theorem avoids_subst (h : ∀ v A, σ v = some A → A.Avoids σ) : ∀ T : Term, (T.subst σ).Avoids σ
  | .absent => .absent
  | .var v => by
    rw [subst]
    cases hv : σ v with
    | none => exact .var hv
    | some A => exact h v A hv
  | .atom _ => .atom
  | .raw _ => .raw
  | .array e n => by
    rw [subst]
    exact (avoids_subst h e).arrayOf n
  | .parameterized _ as o _ => by
    rw [subst]
    exact .parameterized (avoids_substAll h as) (avoids_subst h o)
  | .wildcard b _ => by
    rw [subst]
    exact .wildcard (avoids_subst h b)
  | .intersection bs => by
    rw [subst]
    exact avoids_meet (avoids_substAll h bs)

theorem avoids_substAll (h : ∀ v A, σ v = some A → A.Avoids σ) :
    ∀ Ts : List Term, ∀ T ∈ substAll σ Ts, T.Avoids σ
  | [] => nofun
  | T :: Ts => List.forall_mem_cons.mpr ⟨avoids_subst h T, avoids_substAll h Ts⟩

end

end Term

namespace Shape

variable {s : Shape}

/-- Whether a type is not made of others and no variable. -/
def isAtom : Shape → Bool
  | .base _ | .null | .declared _ | .captured _ | .unresolved .. => true
  | _ => false

theorem isAbsent_of_isAtom (h : s.isAtom = true) : s.isAbsent = false := by
  revert h
  cases s <;> simp [isAtom, isAbsent]

theorem isArray_of_isAtom (h : s.isAtom = true) : s.isArray = false := by
  revert h
  cases s <;> simp [isAtom, isArray]

end Shape

namespace World

open Term

/-! ## The term of a type -/

/-- A type is made of what the term says, nested less than `n` deep. Terms are as types are made:
elements of arrays are no arrays, no wildcard without bounds has one, and no intersection is one of
a single type. -/
inductive Denotes (w : World) : Nat → TypeId → Term → Prop
  | absent {n : Nat} : Denotes w (n + 1) .none .absent
  | var {n : Nat} {t : TypeId} {v : Variable}
    (h : (w.row (w.follow t)).shape = .variable v) : Denotes w (n + 1) t (.var (w.follow t))
  | atom {n : Nat} {t : TypeId} (h : (w.row (w.follow t)).shape.isAtom = true) :
    Denotes w (n + 1) t (.atom (w.follow t))
  | raw {n : Nat} {t g : TypeId} (h : (w.row (w.follow t)).shape = .composite (.raw g)) :
    Denotes w (n + 1) t (.raw g)
  | array {n k : Nat} {t e : TypeId} {E : Term}
    (h : (w.row (w.follow t)).shape = .composite (.array e k)) (hdims : k ≠ 0)
    (helem : E.isElem = true) (he : Denotes w n e E) : Denotes w (n + 1) t (.array E k)
  | parameterized {n : Nat} {t g outer : TypeId} {args : List TypeId} {isDegraded : Bool}
    {As : List Term} {O : Term}
    (h : (w.row (w.follow t)).shape = .composite (.parameterized g args outer isDegraded))
    (hlength : args.length = As.length) (hargs : ∀ p ∈ args.zip As, Denotes w n p.1 p.2)
    (houter : Denotes w n outer O) : Denotes w (n + 1) t (.parameterized g As O isDegraded)
  | wildcard {n : Nat} {t bound : TypeId} {kind : WildcardKind} {B : Term}
    (h : (w.row (w.follow t)).shape = .composite (.wildcard bound kind))
    (hkind : kind = .unbounded → B = .absent) (hbound : Denotes w n bound B) :
    Denotes w (n + 1) t (.wildcard B kind)
  | intersection {n : Nat} {t : TypeId} {bounds : List TypeId} {Bs : List Term}
    (h : (w.row (w.follow t)).shape = .composite (.intersection bounds))
    (hmany : bounds.length ≠ 1) (hlength : bounds.length = Bs.length)
    (hbounds : ∀ p ∈ bounds.zip Bs, Denotes w n p.1 p.2) : Denotes w (n + 1) t (.intersection Bs)

variable {w v : World} {n m : Nat} {t u : TypeId} {T U : Term}

theorem zip_unique {α β : Type} {as : List α} {bs cs : List β} (hb : as.length = bs.length)
    (hc : as.length = cs.length) (h : ∀ p ∈ as.zip bs, ∀ c, (p.1, c) ∈ as.zip cs → p.2 = c) :
    bs = cs := by
  induction as generalizing bs cs with
  | nil => rw [List.length_eq_zero_iff.mp hb.symm, List.length_eq_zero_iff.mp hc.symm]
  | cons a as ih =>
    obtain ⟨b, bs, rfl⟩ := List.exists_cons_of_length_eq_add_one hb.symm
    obtain ⟨c, cs, rfl⟩ := List.exists_cons_of_length_eq_add_one hc.symm
    have hhead := h (a, b) (List.mem_cons_self ..) c (List.mem_cons_self ..)
    have htail := ih (Nat.succ.inj hb) (Nat.succ.inj hc) fun p hp c hc =>
      h p (List.mem_cons_of_mem _ hp) c (List.mem_cons_of_mem _ hc)
    rw [show b = c from hhead, htail]

/-- A type has one term. -/
theorem Denotes.unique (hw : w.Canonical) (h : w.Denotes n t T) (h' : w.Denotes m u U)
    (hsame : w.follow t = w.follow u) : T = U := by
  have hnone : (w.row (w.follow .none)).shape = .absent := by
    rw [follow_live hw.usable_none.1, hw.absent]
  induction h generalizing m u U with
  | absent => cases h' <;> simp_all only [Shape.isAtom, reduceCtorEq, Bool.false_eq_true]
  | var h => cases h' <;> simp_all only [Shape.isAtom, reduceCtorEq, Bool.false_eq_true]
  | atom h => cases h' <;> simp_all only [Shape.isAtom, Bool.false_eq_true]
  | raw h =>
    cases h' <;>
      simp_all only [Shape.isAtom, reduceCtorEq, Bool.false_eq_true, Shape.composite.injEq,
        Composite.raw.injEq]
  | array h hdims helem he ih =>
    rw [hsame] at h
    cases h' with
    | array h' _ _ he' =>
      cases h.symm.trans h'
      rw [ih he' rfl]
    | _ => simp_all only [Shape.isAtom, reduceCtorEq, Bool.false_eq_true, Shape.composite.injEq]
  | parameterized h hlength hargs houter ihargs ihouter =>
    rw [hsame] at h
    cases h' with
    | parameterized h' hlength' hargs' houter' =>
      cases h.symm.trans h'
      rw [ihouter houter' rfl,
        zip_unique hlength hlength' fun p hp c hc => ihargs p hp (hargs' (p.1, c) hc) rfl]
    | _ => simp_all only [Shape.isAtom, reduceCtorEq, Bool.false_eq_true, Shape.composite.injEq]
  | wildcard h hkind hbound ih =>
    rw [hsame] at h
    cases h' with
    | wildcard h' _ hbound' =>
      cases h.symm.trans h'
      rw [ih hbound' rfl]
    | _ => simp_all only [Shape.isAtom, reduceCtorEq, Bool.false_eq_true, Shape.composite.injEq]
  | intersection h hmany hlength hbounds ih =>
    rw [hsame] at h
    cases h' with
    | intersection h' _ hlength' hbounds' =>
      cases h.symm.trans h'
      rw [zip_unique hlength hlength' fun p hp c hc => ih p hp (hbounds' (p.1, c) hc) rfl]
    | _ => simp_all only [Shape.isAtom, reduceCtorEq, Bool.false_eq_true, Shape.composite.injEq]

theorem zip_injective {α β : Type} {as bs : List α} {cs : List β} (ha : as.length = cs.length)
    (hb : bs.length = cs.length) (h : ∀ p ∈ as.zip cs, ∀ b, (b, p.2) ∈ bs.zip cs → p.1 = b) :
    as = bs := by
  have hswap {xs : List α} {a : α} {c : β} (hmem : (c, a) ∈ cs.zip xs) : (a, c) ∈ xs.zip cs := by
    rw [← List.zip_swap]
    exact List.mem_map.mpr ⟨(c, a), hmem, rfl⟩
  exact zip_unique ha.symm hb.symm fun p hp b hmem => h p.swap (hswap hp) b (hswap hmem)

/-- The types that a type in use is made of are in use. -/
theorem Canonical.follow_component {c : Composite} {x : TypeId} (hw : w.Canonical)
    (h : (w.row (w.follow t)).shape = .composite c) (hx : x ∈ c.components) : w.follow x = x :=
  follow_live (hw.component ⟨hw.live_follow t, h⟩ hx).1

/-- Types with one term have one number. -/
theorem Denotes.follow_eq (hw : w.Canonical) (h : w.Denotes n t T) (h' : w.Denotes m u T) :
    w.follow t = w.follow u := by
  have hsame {t u : TypeId} {c d : Composite} (ht : (w.row (w.follow t)).shape = .composite c)
      (hu : (w.row (w.follow u)).shape = .composite d) (hcd : c = d) : w.follow t = w.follow u :=
    (hw.eq_iff ⟨hw.live_follow t, ht⟩ ⟨hw.live_follow u, hu⟩).mpr hcd
  have hpart {t u x y : TypeId} {c d : Composite} (ht : (w.row (w.follow t)).shape = .composite c)
      (hu : (w.row (w.follow u)).shape = .composite d) (hx : x ∈ c.components)
      (hy : y ∈ d.components) (hxy : w.follow x = w.follow y) : x = y := by
    rwa [hw.follow_component ht hx, hw.follow_component hu hy] at hxy
  induction h generalizing m u with
  | absent =>
    cases h'
    rfl
  | @var n t v h =>
    generalize hT : Term.var (w.follow t) = T at h'
    cases h' with
    | var => exact Term.var.inj hT
    | _ => cases hT
  | @atom n t h =>
    generalize hT : Term.atom (w.follow t) = T at h'
    cases h' with
    | atom => exact Term.atom.inj hT
    | _ => cases hT
  | raw h =>
    cases h' with
    | raw h' => exact hsame h h' rfl
  | array h hdims helem he ih =>
    cases h' with
    | array h' _ _ he' =>
      have helems := hpart h h' (List.mem_cons_self ..) (List.mem_cons_self ..) (ih he')
      exact hsame h h' (by rw [helems])
  | parameterized h hlength hargs houter ihargs ihouter =>
    cases h' with
    | parameterized h' hlength' hargs' houter' =>
      have houters := hpart h h' (by simp [Composite.components])
        (by simp [Composite.components]) (ihouter houter')
      refine hsame h h' ?_
      rw [houters, zip_injective hlength hlength' fun p hp b hb => ?_]
      exact hpart h h' (by simp [Composite.components, (List.of_mem_zip hp).1])
        (by simp [Composite.components, (List.of_mem_zip hb).1]) (ihargs p hp (hargs' (b, p.2) hb))
  | wildcard h hkind hbound ih =>
    cases h' with
    | wildcard h' _ hbound' =>
      have hbounds := hpart h h' (List.mem_cons_self ..) (List.mem_cons_self ..) (ih hbound')
      exact hsame h h' (by rw [hbounds])
  | intersection h hmany hlength hbounds ih =>
    cases h' with
    | intersection h' _ hlength' hbounds' =>
      refine hsame h h' ?_
      rw [zip_injective hlength hlength' fun p hp b hb => ?_]
      exact hpart h h' (List.of_mem_zip hp).1 (List.of_mem_zip hb).1
        (ih p hp (hbounds' (b, p.2) hb))

theorem Denotes.lt_size (hw : w.Canonical) (h : w.Denotes n t T) : t.index < w.types.size := by
  have hshape (hs : (w.row (w.follow t)).shape.isAbsent = false) : t.index < w.types.size := by
    cases hr : w.redirects[t]? with
    | none => exact lt_size_of_shape (follow_live hr ▸ hs)
    | some u => exact (hw.redirected hr).1
  cases h with
  | absent => exact hw.usable_none.2
  | atom h => exact hshape (Shape.isAbsent_of_isAtom h)
  | _ h => exact hshape (h ▸ rfl)

/-- What types are made of does not change when other composite types are made. -/
theorem Denotes.grow (h : w.Denotes n t T) (hv : w.Extends v) : v.Denotes n t T := by
  have hrow {t : TypeId} (hs : (w.row (w.follow t)).shape.isAbsent = false) :
      (v.row (v.follow t)).shape = (w.row (w.follow t)).shape := by
    rw [hv.follow]
    exact hv.shape (lt_size_of_shape hs)
  induction h with
  | absent => exact .absent
  | var h =>
    rw [← hv.follow]
    exact .var ((hrow (h ▸ rfl)).trans h)
  | atom h =>
    rw [← hv.follow]
    exact .atom (hrow (Shape.isAbsent_of_isAtom h) ▸ h)
  | raw h => exact .raw ((hrow (h ▸ rfl)).trans h)
  | array h hdims helem _ ih => exact .array ((hrow (h ▸ rfl)).trans h) hdims helem ih
  | parameterized h hlength _ _ ihargs ihouter =>
    exact .parameterized ((hrow (h ▸ rfl)).trans h) hlength ihargs ihouter
  | wildcard h hkind _ ih => exact .wildcard ((hrow (h ▸ rfl)).trans h) hkind ih
  | intersection h hmany hlength _ ih =>
    exact .intersection ((hrow (h ▸ rfl)).trans h) hmany hlength ih

/-- Where nothing is replaced, terms stay what they are. -/
theorem Denotes.subst_none {σ : TypeId → Option Term} (hσ : ∀ x, σ x = none)
    (h : w.Denotes n t T) : T.subst σ = T := by
  have hall {ts : List TypeId} {Ts : List Term} (hlength : ts.length = Ts.length)
      (h : ∀ p ∈ ts.zip Ts, p.2.subst σ = p.2) : substAll σ Ts = Ts := by
    rw [substAll_eq_map]
    refine (List.map_congr_left fun T hT => ?_).trans (List.map_id Ts)
    rw [← List.map_snd_zip (Nat.le_of_eq hlength.symm)] at hT
    obtain ⟨p, hp, rfl⟩ := List.mem_map.mp hT
    exact h p hp
  induction h with
  | var h => rw [subst, hσ, Option.getD_none]
  | array h hdims helem he ih => rw [subst, ih, arrayOf_eq helem]
  | parameterized h hlength hargs houter ihargs ihouter => rw [subst, hall hlength ihargs, ihouter]
  | wildcard h hkind hbound ih => rw [subst, ih]
  | intersection h hmany hlength hbounds ih =>
    rw [subst, hall hlength ih, meet_eq (hlength ▸ hmany)]
  | _ => rfl

/-! ## The depth of types -/

/-- Different types with different terms that all have more in them than `T`. -/
structure Path (w : World) (T : Term) (ts : List TypeId) : Prop where
  nodup : ts.Nodup
  larger : ∀ u ∈ ts, u.index < w.types.size ∧
    ∃ m x U, w.follow x = u ∧ w.Denotes m x U ∧ sizeOf T < sizeOf U

variable {ts : List TypeId} {A : Term}

theorem Path.length_le (h : w.Path T ts) : ts.length ≤ w.types.size := by
  have hnodup : (ts.map (·.index)).Nodup :=
    h.nodup.map fun _ _ hindex => TypeId.eq_of_index hindex
  have hsubset : ts.map (·.index) ⊆ List.range w.types.size := by
    intro i hi
    obtain ⟨u, hu, rfl⟩ := List.mem_map.mp hi
    exact List.mem_range.mpr (h.larger u hu).1
  simpa using (hnodup.subperm hsubset).length_le

theorem Path.cons (hw : w.Canonical) (h : w.Path T ts) (ht : w.Denotes n t T)
    (hinside : (w.follow t).index < w.types.size) (hA : sizeOf A < sizeOf T) :
    w.Path A (w.follow t :: ts) where
  nodup := by
    refine List.nodup_cons.mpr ⟨fun hmem => ?_, h.nodup⟩
    obtain ⟨-, m, x, U, hx, hU, hlt⟩ := h.larger _ hmem
    rw [ht.unique hw hU hx.symm] at hlt
    exact Nat.lt_irrefl _ hlt
  larger := by
    refine List.forall_mem_cons.mpr ⟨⟨hinside, n, t, T, rfl, ht, hA⟩, fun u hu => ?_⟩
    obtain ⟨hu, m, x, U, hx, hU, hlt⟩ := h.larger u hu
    exact ⟨hu, m, x, U, hx, hU, Nat.lt_trans hA hlt⟩

theorem sizeOf_arg_lt {g : TypeId} {As : List Term} {O : Term} {isDegraded : Bool} (h : A ∈ As) :
    sizeOf A < sizeOf (Term.parameterized g As O isDegraded) := by
  have := List.sizeOf_lt_of_mem h
  rw [Term.parameterized.sizeOf_spec]
  omega

theorem sizeOf_bound_lt {Bs : List Term} (h : A ∈ Bs) :
    sizeOf A < sizeOf (Term.intersection Bs) := by
  have := List.sizeOf_lt_of_mem h
  rw [Term.intersection.sizeOf_spec]
  omega

theorem Path.depth (h : w.Path T ts) {k : Nat} (hk : w.types.size < k + ts.length) :
    ∃ j, k = j + 1 ∧ ∀ x, w.types.size < j + (x :: ts).length := by
  have hlength := h.length_le
  refine ⟨k - 1, by omega, fun x => ?_⟩
  rw [List.length_cons]
  omega

/-- A type inside another is not on the path to it, so the path has room for all that is left. -/
theorem Denotes.within (hw : w.Canonical) (h : w.Denotes n t T) (hpath : w.Path T ts) {k : Nat}
    (hk : w.types.size < k + ts.length) : w.Denotes k t T := by
  induction h generalizing ts k
  all_goals obtain ⟨k, rfl, hroom⟩ := hpath.depth hk
  case absent => exact .absent
  case var h => exact .var h
  case atom h => exact .atom h
  case raw h => exact .raw h
  case array h hdims helem he ih =>
    refine .array h hdims helem (ih (hpath.cons hw (.array h hdims helem he)
      (lt_size_of_composite h) ?_) (hroom _))
    rw [Term.array.sizeOf_spec]
    omega
  case parameterized h hlength hargs houter ihargs ihouter =>
    have hself := Denotes.parameterized h hlength hargs houter
    have hinside := lt_size_of_composite h
    refine .parameterized h hlength (fun p hp => ihargs p hp (hpath.cons hw hself hinside ?_)
      (hroom _)) (ihouter (hpath.cons hw hself hinside ?_) (hroom _))
    · exact sizeOf_arg_lt (List.of_mem_zip hp).2
    · rw [Term.parameterized.sizeOf_spec]
      omega
  case wildcard h hkind hbound ih =>
    refine .wildcard h hkind (ih (hpath.cons hw (.wildcard h hkind hbound)
      (lt_size_of_composite h) ?_) (hroom _))
    rw [Term.wildcard.sizeOf_spec]
    omega
  case intersection h hmany hlength hbounds ih =>
    have hself := Denotes.intersection h hmany hlength hbounds
    exact .intersection h hmany hlength fun p hp => ih p hp
      (hpath.cons hw hself (lt_size_of_composite h) (sizeOf_bound_lt (List.of_mem_zip hp).2))
      (hroom _)

/-- No type is nested deeper than there are types. -/
theorem Denotes.bounded (hw : w.Canonical) (h : w.Denotes n t T) :
    w.Denotes (w.types.size + 1) t T :=
  h.within hw ⟨List.nodup_nil, nofun⟩ (Nat.lt_succ_self _)

/-! ## Types by their terms -/

theorem Is.here {s : Shape} (h : w.Is t s) : (w.row (w.follow t)).shape = s :=
  h.follow.symm ▸ h.shape

/-- The term of a type. -/
def Means (w : World) (t : TypeId) (T : Term) : Prop := ∃ n, w.Denotes n t T

namespace Means

theorem bounded (h : w.Means t T) (hw : w.Canonical) : w.Denotes (w.types.size + 1) t T :=
  h.choose_spec.bounded hw

theorem grow (h : w.Means t T) (hv : w.Extends v) : v.Means t T :=
  ⟨_, h.choose_spec.grow hv⟩

theorem unique (h : w.Means t T) (h' : w.Means u U) (hw : w.Canonical)
    (hsame : w.follow t = w.follow u) : T = U :=
  h.choose_spec.unique hw h'.choose_spec hsame

theorem lt_size (h : w.Means t T) (hw : w.Canonical) : t.index < w.types.size :=
  h.choose_spec.lt_size hw

/-- The end of the redirections from a type has its term. -/
theorem follow (h : w.Means t T) (hw : w.Canonical) : w.Means (w.follow t) T := by
  have hend : w.follow (w.follow t) = w.follow t := follow_live (hw.live_follow t)
  obtain ⟨_, @⟨n⟩ | @⟨n, t, v, h⟩ | @⟨n, t, h⟩ | h | ⟨h, hdims, helem, he⟩ |
    ⟨h, hlength, hargs, houter⟩ | ⟨h, hkind, hbound⟩ | ⟨h, hmany, hlength, hbounds⟩⟩ := h
  · rw [follow_live hw.usable_none.1]
    exact ⟨n + 1, .absent⟩
  · have hvar := Denotes.var (n := n) (hend.symm ▸ h)
    rw [hend] at hvar
    exact ⟨n + 1, hvar⟩
  · have hatom := Denotes.atom (n := n) (hend.symm ▸ h)
    rw [hend] at hatom
    exact ⟨n + 1, hatom⟩
  · exact ⟨_, .raw (n := 0) (hend.symm ▸ h)⟩
  · exact ⟨_, .array (hend.symm ▸ h) hdims helem he⟩
  · exact ⟨_, .parameterized (hend.symm ▸ h) hlength hargs houter⟩
  · exact ⟨_, .wildcard (hend.symm ▸ h) hkind hbound⟩
  · exact ⟨_, .intersection (hend.symm ▸ h) hmany hlength hbounds⟩

end Means

variable {x : TypeId} {X : Term} {xs : List TypeId} {Xs : List Term}

theorem Means.follow_all (hw : w.Canonical) (h : ∀ p ∈ xs.zip Xs, w.Means p.1 p.2) :
    ∀ p ∈ (xs.map w.follow).zip Xs, w.Means p.1 p.2 := by
  intro p hp
  rw [List.zip_map_left] at hp
  obtain ⟨q, hq, rfl⟩ := List.mem_map.mp hp
  exact (h q hq).follow hw

theorem Means.elem (hx : w.Means x X) (helem : X.isElem = true) :
    (w.row (w.follow x)).shape.isAbsent = false ∧ (w.row (w.follow x)).shape.isArray = false := by
  obtain ⟨_, _ | h | h | h | _ | h | h | h⟩ := hx
  · cases helem
  · rw [h]
    exact ⟨rfl, rfl⟩
  · exact ⟨Shape.isAbsent_of_isAtom h, Shape.isArray_of_isAtom h⟩
  · rw [h]
    exact ⟨rfl, rfl⟩
  · cases helem
  all_goals
    rw [h]
    exact ⟨rfl, rfl⟩

theorem Is.means_atom {s : Shape} (h : w.Is t s) (hs : s.isAtom = true) :
    w.Means t (.atom t) := by
  have hatom := Denotes.atom (n := 0) ((congrArg Shape.isAtom h.here).trans hs)
  rw [h.follow] at hatom
  exact ⟨1, hatom⟩

theorem Is.means_var {x : Variable} (h : w.Is t (.variable x)) : w.Means t (.var t) := by
  have hvar := Denotes.var (n := 0) h.here
  rw [h.follow] at hvar
  exact ⟨1, hvar⟩

theorem Is.means_parameterized {g : TypeId} {isDegraded : Bool} (hw : w.Canonical)
    (h : w.Is t (.composite (.parameterized g xs x isDegraded))) (hlength : xs.length = Xs.length)
    (hargs : ∀ p ∈ xs.zip Xs, w.Means p.1 p.2) (houter : w.Means x X) :
    w.Means t (.parameterized g Xs X isDegraded) :=
  ⟨_, .parameterized h.here hlength (fun p hp => (hargs p hp).bounded hw) (houter.bounded hw)⟩

/-- The array of a type is one of its term. -/
theorem means_array (hw : w.Canonical) (hx : w.Means x X) {k : Nat} (hk : k ≠ 0) :
    ∃ t v, Lookup.array x k w = .ok t v ∧ w.Extends v ∧ v.IsLive t ∧ v.Means t (arrayOf X k) := by
  have ofElem (helem : X.isElem = true) : ∃ t v, Lookup.array x k w = .ok t v ∧
      w.Extends v ∧ v.IsLive t ∧ v.Means t (arrayOf X k) := by
    obtain ⟨habsent, harray⟩ := hx.elem helem
    obtain ⟨t, v, hrun, hv, ht⟩ := hw.array habsent harray hk
    obtain ⟨_, hfollow⟩ := (hx.follow hw).grow hv
    rw [arrayOf_eq helem]
    exact ⟨t, v, hrun, hv, ht.live, _, .array ht.here hk helem hfollow⟩
  cases X with
  | absent =>
    obtain ⟨_, ⟨⟩⟩ := hx
    refine ⟨.none, w, ?_, .refl hw, hw.usable_none.1, 1, .absent⟩
    have hstop : (k == 0 || TypeId.none.isNone) = true := (Bool.or_eq_true ..).mpr (.inr rfl)
    unfold Lookup.array
    rw [bind_run (Lookup.follow_run _ w), follow_live hw.usable_none.1, if_pos hstop]
    rfl
  | array E m =>
    obtain ⟨_, _ | _ | _ | _ | ⟨h, hdims, helem, he⟩⟩ := hx
    obtain ⟨t, v, hrun, hv, ht⟩ := hw.array_array h hk
    exact ⟨t, v, hrun, hv, ht.live, _, .array ht.here (by omega) helem
      (he.grow hv)⟩
  | _ => exact ofElem rfl

theorem means_wildcard (hw : w.Canonical) (hx : w.Means x X) {kind : WildcardKind}
    (hkind : kind ≠ .unbounded) : ∃ t v, Lookup.wildcard x kind w = .ok t v ∧ w.Extends v ∧
      v.IsLive t ∧ v.Means t (.wildcard X kind) := by
  obtain ⟨t, v, hrun, hv, ht⟩ := hw.wildcard (hx.lt_size hw) kind
  rw [beq_false_of_ne hkind] at ht
  obtain ⟨_, hfollow⟩ := (hx.follow hw).grow hv
  exact ⟨t, v, hrun, hv, ht.live, _, .wildcard ht.here (absurd · hkind) hfollow⟩

theorem lt_size_of_means (hw : w.Canonical) (hlength : xs.length = Xs.length)
    (h : ∀ p ∈ xs.zip Xs, w.Means p.1 p.2) : ∀ y ∈ xs, y.index < w.types.size := by
  intro y hy
  rw [← List.map_fst_zip (Nat.le_of_eq hlength)] at hy
  obtain ⟨p, hp, rfl⟩ := List.mem_map.mp hy
  exact (h p hp).lt_size hw

theorem means_parameterized (hw : w.Canonical) {g : TypeId} (hg : w.Usable g)
    (hlength : xs.length = Xs.length) (hargs : ∀ p ∈ xs.zip Xs, w.Means p.1 p.2)
    (houter : w.Means x X) (isDegraded : Bool) :
    ∃ t v, Lookup.parameterizeAs g xs x isDegraded w = .ok t v ∧ w.Extends v ∧ v.IsLive t ∧
      v.Means t (.parameterized g Xs X isDegraded) := by
  have hparts : ∀ y ∈ g :: x :: xs, y.index < w.types.size := by
    refine List.forall_mem_cons.mpr ⟨hg.2, List.forall_mem_cons.mpr ⟨houter.lt_size hw, ?_⟩⟩
    exact lt_size_of_means hw hlength hargs
  obtain ⟨t, v, hrun, hv, ht⟩ := hw.parameterizeAs hparts isDegraded
  rw [follow_live hg.1] at ht
  refine ⟨t, v, hrun, hv, ht.live, ht.means_parameterized hv.canonical ?_ (fun p hp => ?_)
    ((houter.follow hw).grow hv)⟩
  · rw [List.length_map, hlength]
  · exact (Means.follow_all hw hargs p hp).grow hv

theorem means_intersection (hw : w.Canonical) (hmany : xs.length ≠ 1)
    (hlength : xs.length = Xs.length) (hbounds : ∀ p ∈ xs.zip Xs, w.Means p.1 p.2) :
    ∃ t v, Lookup.intersection xs w = .ok t v ∧ w.Extends v ∧ v.IsLive t ∧
      v.Means t (.intersection Xs) := by
  obtain ⟨t, v, hrun, hv, ht⟩ := hw.intersection (lt_size_of_means hw hlength hbounds) hmany
  rw [← List.length_map (f := w.follow)] at hmany hlength
  refine ⟨t, v, hrun, hv, ht.live, v.types.size + 2, .intersection ht.here
    hmany hlength fun p hp => ?_⟩
  exact ((Means.follow_all hw hbounds p hp).grow hv).bounded hv.canonical

end World

end Javelin
