import Javelin.Proofs.Types.Resolving
import Javelin.Proofs.Types.TypeSignatures

/-!
# Types that are read back from their signatures

The type that a signature names need not be the one it was written for. A raw type is written as its
class, and is read as that; so is a member type without arguments of its own, although the type that
encloses it is written with arguments. `World.Lossy` are the types that are not read back.

1. `World.Lossy`.
2. `World.Read`: what is read from the tree of a signature.
3. The text that a class file holds for a type is read as that type, if it is not lossy
   (`World.types_reread`).
-/

namespace Javelin

open Run
open Signature (TypeSig ClassSig ArgSig IsClassName IsIdentifier)

namespace World

variable {w v v' : World} {vars : List TypeId} {t u e g o x : TypeId} {as us : List TypeId}
  {d d' : Declared} {c : Composite} {s : Shape} {n : Nat} {isDegraded : Bool}

/-! ## Types that are not read back -/

/-- Types that are read back as other types. -/
inductive Lossy (w : World) : TypeId → Prop
  | raw {t g : TypeId} (h : w.Is t (.composite (.raw g))) : Lossy w t
  /-- A member type that has no arguments but those of its outer type. -/
  | bare {t g o : TypeId} {isDegraded : Bool}
    (h : w.Is t (.composite (.parameterized g [] o isDegraded))) : Lossy w t
  | degraded {t g o : TypeId} {as : List TypeId}
    (h : w.Is t (.composite (.parameterized g as o true))) : Lossy w t
  /-- A member type that the class of its outer type inherits. -/
  | inherited {t g o g' o' : TypeId} {as as' : List TypeId} {isDegraded isDegraded' : Bool}
    {d d' : Declared} (h : w.Is t (.composite (.parameterized g as o isDegraded)))
    (hg : w.Is g (.declared d)) (ho : w.Is o (.composite (.parameterized g' as' o' isDegraded')))
    (hg' : w.Is g' (.declared d')) (hname : d'.binaryName ++ "$" ++ d.name ≠ d.binaryName) :
    Lossy w t
  | part {t x : TypeId} {c : Composite} (h : w.Is t (.composite c)) (hx : x ∈ c.components)
    (hpart : Lossy w x) : Lossy w t

theorem Lossy.composite (h : w.Lossy t) : ∃ c, w.Is t (.composite c) := by
  cases h with
  | raw h | bare h | degraded h | inherited h | part h => exact ⟨_, h⟩

theorem not_lossy (h : w.Is t s) (hs : s.composite? = none) : ¬ w.Lossy t := by
  intro hlossy
  obtain ⟨c, hc⟩ := hlossy.composite
  rw [h.shape_eq hc] at hs
  cases hs

/-- An array or wildcard is lossy with its element or bound. -/
theorem lossy_single (h : w.Is t (.composite c)) (hc : c.components = [e])
    (hraw : ∀ g, c ≠ .raw g) : w.Lossy t ↔ w.Lossy e := by
  constructor
  · intro hlossy
    cases hlossy with
    | raw h' => exact absurd (Shape.composite.inj (h.shape_eq h')) (hraw _)
    | bare h' | degraded h' | inherited h' =>
      rw [Shape.composite.inj (h.shape_eq h')] at hc
      cases hc
    | part h' hx hpart =>
      rw [← Shape.composite.inj (h.shape_eq h'), hc, List.mem_singleton] at hx
      rwa [hx] at hpart
  · exact .part h (hc ▸ List.mem_singleton_self e)

/-- The class of a member type does not bear the name that it is written with. -/
def Inherits (w : World) (o : TypeId) (d : Declared) : Prop :=
  ∃ g' as' o' isDegraded' d', w.Is o (.composite (.parameterized g' as' o' isDegraded')) ∧
    w.Is g' (.declared d') ∧ d'.binaryName ++ "$" ++ d.name ≠ d.binaryName

theorem lossy_parameterized (h : w.Is t (.composite (.parameterized g as o isDegraded)))
    (hg : w.Is g (.declared d)) : ¬ w.Lossy t ↔
      as ≠ [] ∧ isDegraded = false ∧ ¬ w.Inherits o d ∧ ¬ w.Lossy o ∧ ∀ x ∈ as, ¬ w.Lossy x := by
  constructor
  · intro hkept
    refine ⟨?_, ?_, ?_, ?_, ?_⟩
    · rintro rfl
      exact hkept (.bare h)
    · cases isDegraded with
      | false => rfl
      | true => exact absurd (.degraded h) hkept
    · rintro ⟨_, _, _, _, _, ho, hg', hname⟩
      exact hkept (.inherited h hg ho hg' hname)
    · exact fun ho => hkept (.part h (by simp [Composite.components]) ho)
    · exact fun x hx hlossy => hkept (.part h (by simp [Composite.components, hx]) hlossy)
  · rintro ⟨hne, hdegraded, hinherits, ho, has⟩ hlossy
    cases hlossy with
    | raw h' => cases h.shape_eq h'
    | bare h' =>
      cases h.shape_eq h'
      exact hne rfl
    | degraded h' =>
      cases h.shape_eq h'
      cases hdegraded
    | inherited h' hg' ho' hg'' hname =>
      cases h.shape_eq h'
      cases hg.shape_eq hg'
      exact hinherits ⟨_, _, _, _, _, ho', hg'', hname⟩
    | part h' hx hpart =>
      cases h.shape_eq h'
      rcases List.mem_cons.mp hx with rfl | hx
      · exact not_lossy hg rfl hpart
      · rcases List.mem_cons.mp hx with rfl | hx
        · exact ho hpart
        · exact has _ hx hpart

/-! ## Reading -/

/-- The type `u` is read in the place of `t`, in a world that goes on from another one. -/
structure Read (w v : World) (t u : TypeId) (v' : World) : Prop where
  reaches : v.Reaches v'
  live : v'.IsLive u
  known : (v'.row u).shape.isAbsent = false
  same : u = t ↔ ¬ w.Lossy t
  array : (v'.row u).shape.isArray = true → (w.row t).shape.isArray = true

theorem internalName_nameParts (name : Text) :
    Lookup.internalName (Lookup.nameParts name) = name :=
  Text.join_split name _

theorem Read.is (h : w.Read v t u v') : v'.Is u (v'.row u).shape := ⟨h.live, rfl⟩

/-- A type that is read as itself. -/
theorem Read.refl (hw : w.Reaches v) (ht : w.Is t s) (hs : s.isAbsent = false)
    (hkept : ¬ w.Lossy t) : w.Read v t t v := by
  have hv := hw.is_of ht hs
  exact ⟨.refl hw.tidy, hv.live, hv.shape ▸ hs, iff_of_true rfl hkept, by
    rw [hv.shape, ht.shape]
    exact id⟩

/-- A composite type that is read is known by its components. -/
theorem Read.composite {c' : Composite} (hw : w.Reaches v') (hreaches : v.Reaches v')
    (ht : w.Is t (.composite c)) (hu : v'.Is u (.composite c')) (hsame : c' = c ↔ ¬ w.Lossy t)
    (harray : (Shape.composite c').isArray = true → (Shape.composite c).isArray = true) :
    w.Read v t u v' where
  reaches := hreaches
  live := hu.live
  known := hu.shape ▸ rfl
  same := (hw.tidy.canonical.eq_iff hu (hw.is_of ht rfl)).trans hsame
  array := by rwa [hu.shape, ht.shape]

theorem reference_knows (hw : w.Reaches v) (h : w.Knows g d) :
    Lookup.reference (Lookup.nameParts d.binaryName) v = .ok g v := by
  have hfound : v.byBinaryName[Lookup.internalName (Lookup.nameParts d.binaryName)]? = some g := by
    rw [internalName_nameParts]
    exact hw.found h.found
  rw [reference_known hfound, (hw.is_of h.is rfl).follow]

theorem variableNamed_run {front back : List TypeId} {y : Variable}
    (hfirst : ∀ u ∈ front, (v.row u).shape.name ≠ y.name) (ht : v.Is t (.variable y)) :
    Lookup.variableNamed y.name (front ++ t :: back) v = .ok t v := by
  induction front with
  | nil =>
    have hname : (v.row t).shape.name = y.name := by rw [ht.shape]; rfl
    rw [List.nil_append, Lookup.variableNamed, bind_run (Lookup.entry_run t v),
      if_pos (beq_iff_eq.mpr hname)]
    rfl
  | cons u front ih =>
    rw [List.cons_append, Lookup.variableNamed, bind_run (Lookup.entry_run u v), if_neg]
    · exact ih fun x hx => hfirst x (List.mem_cons_of_mem u hx)
    · simpa using hfirst u List.mem_cons_self

section

variable [Answers]

theorem ofClassSignature_class (hw : w.Reaches v) (h : w.Knows g d) :
    Lookup.ofClassSignature vars (.mk d.binaryName [] none) v = .ok g v := by
  rw [Lookup.ofClassSignature, bind_run (reference_knows hw h)]
  rfl

/-- An array is read dimension by dimension. -/
theorem ofSignature_arrays {a : TypeSig} (hrun : Lookup.ofSignature vars a v = .ok u v')
    (hv : v'.Tidy) (hu : v'.Is u s) (hs : s.isAbsent = false) (harray : s.isArray = false)
    (n : Nat) : ∃ x v₂, Lookup.ofSignature vars (a.arrays (n + 1)) v = .ok x v₂ ∧
      v'.Reaches v₂ ∧ v₂.Is x (.composite (.array u (n + 1))) := by
  induction n with
  | zero =>
    obtain ⟨x, v₂, hx, hreaches, his⟩ := hv.array hu hs harray (Nat.succ_ne_zero 0)
    exact ⟨x, v₂, (bind_run hrun).trans hx, hreaches, his⟩
  | succ n ih =>
    obtain ⟨x, v₂, hx, hreaches, his⟩ := ih
    obtain ⟨y, v₃, hy, hreaches', his'⟩ := hreaches.tidy.array_array his (Nat.succ_ne_zero 0)
    rw [Nat.add_comm 1] at his'
    exact ⟨y, v₃, (bind_run hx).trans hy, hreaches.trans hreaches', his'⟩

/-- Arguments are read one after the other. -/
theorem read_args {f : TypeId → ArgSig} (has : ∀ x ∈ as, ∀ v, w.Reaches v →
      ∃ u v', Lookup.ofArgSignature vars (f x) v = .ok u v' ∧ w.Read v x u v')
    (hw : w.Reaches v) : ∃ us v', Lookup.ofArgSignatures vars (as.map f) v = .ok us v' ∧
      v.Reaches v' ∧ (∀ u ∈ us, v'.Usable u) ∧ us.isEmpty = as.isEmpty ∧
        (us = as ↔ ∀ x ∈ as, ¬ w.Lossy x) := by
  induction as generalizing v with
  | nil => exact ⟨[], v, rfl, .refl hw.tidy, nofun, rfl, iff_of_true rfl nofun⟩
  | cons x as ih =>
    obtain ⟨u, v₁, hu, hread⟩ := has x List.mem_cons_self v hw
    obtain ⟨us, v₂, hus, hreaches, husable, -, hsame⟩ :=
      ih (fun y hy => has y (List.mem_cons_of_mem x hy)) (hw.trans hread.reaches)
    refine ⟨u :: us, v₂, ?_, hread.reaches.trans hreaches, ?_, rfl, ?_⟩
    · rw [List.map_cons, Lookup.ofArgSignatures, bind_run hu, bind_run hus]
      rfl
    · intro y hy
      rcases List.mem_cons.mp hy with rfl | hy
      · exact hreaches.usable (hread.is.usable hread.known)
      · exact husable y hy
    · rw [List.cons.injEq, hread.same, hsame, List.forall_mem_cons]

/-- A parameterized type is read back if its class, its outer type and its arguments are, and if it
has arguments. -/
theorem read_parameterized {name : Text} {outer : Option ClassSig} {f : TypeId → ArgSig}
    (h : w.Is t (.composite (.parameterized g as o isDegraded))) (hg : w.Knows g d)
    (hname : ¬ w.Lossy o → (name = d.binaryName ↔ ¬ w.Inherits o d))
    (houter : ∀ v, w.Reaches v → ∃ o' v', Lookup.ofOuterSignature vars outer v = .ok o' v' ∧
      v.Reaches v' ∧ v'.Usable o' ∧ (o' = o ↔ ¬ w.Lossy o))
    (has : ∀ x ∈ as, ∀ v, w.Reaches v →
      ∃ u v', Lookup.ofArgSignature vars (f x) v = .ok u v' ∧ w.Read v x u v')
    (hw : w.Reaches v) :
    ∃ u v', Lookup.ofClassSignature vars (.mk name (as.map f) outer) v = .ok u v' ∧
      w.Read v t u v' := by
  obtain ⟨g', v₁, hgeneric, hreaches₁, hlive, hnamed⟩ :=
    hw.tidy.reference (Lookup.nameParts name)
  rw [internalName_nameParts] at hnamed
  have hclass : g' = g ↔ name = d.binaryName := by
    constructor
    · rintro rfl
      unfold IsNamed at hnamed
      rw [((hw.trans hreaches₁).is_of hg.is rfl).shape] at hnamed
      exact hnamed.symm
    · rintro rfl
      rw [reference_knows hw hg] at hgeneric
      cases hgeneric
      rfl
  obtain ⟨o', v₂, ho', hreaches₂, husable, hosame⟩ := houter v₁ (hw.trans hreaches₁)
  obtain ⟨us, v₃, hus, hreaches₃, husables, hempty, hussame⟩ :=
    read_args has ((hw.trans hreaches₁).trans hreaches₂)
  have hreaches := hreaches₂.trans hreaches₃
  have hnamed₃ : v₃.IsNamed name g' := hnamed.mono hreaches.shape
  have hg' : v₁.Usable g' := ⟨hlive, lt_size_of_shape hnamed.isAbsent⟩
  rw [Lookup.ofClassSignature, bind_run hgeneric, bind_run ho', bind_run hus, hempty]
  cases has' : as with
  | nil =>
    subst has'
    refine ⟨g', v₃, rfl, hreaches₁.trans hreaches, (hreaches.usable hg').1, hnamed₃.isAbsent, ?_,
      ?_⟩
    · refine iff_of_false ?_ (not_not_intro (.bare h))
      rintro rfl
      unfold IsNamed at hnamed₃
      rwa [(((hw.trans hreaches₁).trans hreaches).is_of h rfl).shape] at hnamed₃
    · rw [hnamed₃.isArray]
      exact nofun
  | cons x xs =>
    rw [← has']
    have hparts : ∀ y ∈ g' :: o' :: us, v₃.Usable y := by
      intro y hy
      rcases List.mem_cons.mp hy with rfl | hy
      · exact hreaches.usable hg'
      · rcases List.mem_cons.mp hy with rfl | hy
        · exact hreaches₃.usable husable
        · exact husables y hy
    obtain ⟨u, v₄, hu, hreaches₄, his⟩ := hreaches.tidy.parameterize hparts
    have hall := (hreaches₁.trans hreaches).trans hreaches₄
    refine ⟨u, v₄, ?_, .composite (hw.trans hall) hall h his ?_ nofun⟩
    · rw [has']
      exact hu
    · rw [lossy_parameterized h hg.is, Composite.parameterized.injEq, hclass, hussame, hosame]
      constructor
      · rintro ⟨hn, hargs, ho, hdegraded⟩
        exact ⟨by simp [has'], hdegraded.symm, (hname ho).mp hn, ho, hargs⟩
      · rintro ⟨-, hdegraded, hinherits, ho, hargs⟩
        exact ⟨(hname ho).mpr hinherits, hargs, ho, hdegraded.symm⟩

end

/-- The class of a parameterized type is known. -/
theorem Signed.parts {a : ArgSig} (h : w.Signed vars t a)
    (ht : (w.row t).shape.isParameterized = true) : ∃ g as o isDegraded d,
      w.Is t (.composite (.parameterized g as o isDegraded)) ∧ w.Knows g d := by
  cases h with
  | parameterized h hg | member h hg => exact ⟨_, _, _, _, _, h, hg⟩
  | base _ h | raw h | «variable» h | array h | unbounded h | upper h | lower h =>
    rw [h.shape] at ht
    cases ht
  | declared h =>
    rw [h.is.shape] at ht
    cases ht

/-- The class that a signature names is that of the type, if the type is read back. -/
theorem Signed.name_eq {c : ClassSig} {o' : TypeId} {isDegraded' : Bool}
    (h : w.Signed vars t (.exact (.cls c)))
    (ht : w.Is t (.composite (.parameterized g as o' isDegraded'))) (hg : w.Is g (.declared d))
    (hkept : ¬ w.Lossy t) : c.name = d.binaryName := by
  generalize ha : ArgSig.exact (.cls c) = a at h
  induction h generalizing c g as o' isDegraded' d with
  | declared h => cases h.is.shape_eq ht
  | raw h => cases h.shape_eq ht
  | array h => cases h.shape_eq ht
  | parameterized h hg' =>
    cases ha
    cases h.shape_eq ht
    cases hg'.is.shape_eq hg
    rfl
  | member h hg' hname ho houter has iho =>
    cases ha
    cases h.shape_eq ht
    cases hg'.is.shape_eq hg
    obtain ⟨-, -, hinherits, hkeptOuter, -⟩ := (lossy_parameterized h hg).mp hkept
    obtain ⟨_, _, _, _, _, ho', hg''⟩ := ho.parts houter
    have hbinary := iho ho' hg''.is hkeptOuter rfl
    by_contra hne
    exact hinherits ⟨_, _, _, _, _, ho', hg''.is, hbinary ▸ hne⟩
  | _ => cases ha

/-- The name that a member type is written with is that of its class, unless the class is
inherited. -/
theorem Signed.member_name {c : ClassSig} (ho : w.Signed vars o (.exact (.cls c)))
    (houter : (w.row o).shape.isParameterized = true) (hkept : ¬ w.Lossy o) :
    c.name ++ "$" ++ d.name = d.binaryName ↔ ¬ w.Inherits o d := by
  obtain ⟨g', _, _, _, d', ho', hg'⟩ := ho.parts houter
  rw [ho.name_eq ho' hg'.is hkept]
  constructor
  · rintro hname ⟨_, _, _, _, _, ho'', hg'', hne⟩
    cases ho'.shape_eq ho''
    cases hg'.is.shape_eq hg''
    exact hne hname
  · intro hinherits
    by_contra hne
    exact hinherits ⟨_, _, _, _, _, ho', hg'.is, hne⟩

/-- A wildcard is read behind its bound. -/
theorem read_wildcard {kind : WildcardKind} (hkind : (kind == .unbounded) = false)
    (h : w.Is t (.composite (.wildcard e kind))) (hw : w.Reaches v) (hread : w.Read v e u v') :
    ∃ x v₂, Lookup.wildcard u kind v' = .ok x v₂ ∧ w.Read v t x v₂ := by
  obtain ⟨x, v₂, hx, hreaches, his⟩ :=
    hread.reaches.tidy.wildcard (hread.is.usable hread.known) kind
  rw [hkind] at his
  have hall := hread.reaches.trans hreaches
  refine ⟨x, v₂, hx, .composite (hw.trans hall) hall h his ?_ nofun⟩
  rw [lossy_single h rfl nofun, ← hread.same, Composite.wildcard.injEq]
  exact and_iff_left rfl

/-! ## Types of the source -/

section

variable [Answers]

/-- The tree of the signature of a type is read as that type, if it is not lossy. -/
theorem Signed.read {a : ArgSig} (hw₀ : w.Canonical) (h : w.Signed vars t a) : ∀ v, w.Reaches v →
    ∃ u v', Lookup.ofArgSignature vars a v = .ok u v' ∧ w.Read v t u v' := by
  have hnone : w.Is .none .absent := ⟨hw₀.usable_none.1, hw₀.absent⟩
  induction h with
  | base hb h => exact fun v hw => ⟨_, v, rfl, .refl hw h rfl (not_lossy h rfl)⟩
  | declared h =>
    exact fun v hw => ⟨_, v, ofClassSignature_class hw h, .refl hw h.is rfl (not_lossy h.is rfl)⟩
  | raw h hg =>
    intro v hw
    have hclass := hw.is_of hg.is rfl
    refine ⟨_, v, ofClassSignature_class hw hg, .refl hw.tidy, hclass.live, hclass.shape ▸ rfl, ?_,
      ?_⟩
    · refine iff_of_false ?_ (not_not_intro (.raw h))
      rintro rfl
      cases h.shape_eq hg.is
    · rw [hclass.shape]
      exact nofun
  | @«variable» t y front back h hname hvars hfirst =>
    intro v hw
    refine ⟨t, v, ?_, .refl hw h rfl (not_lossy h rfl)⟩
    have hfront : ∀ u ∈ front, (v.row u).shape.name ≠ y.name := fun u hu => by
      rw [hw.shape (hfirst u hu).1]
      exact (hfirst u hu).2
    rw [Lookup.ofArgSignature, Lookup.ofSignature, hvars,
      bind_run (variableNamed_run hfront (hw.is_of h rfl)),
      if_pos ((hw.is_of h rfl).isSome hw.tidy.canonical rfl)]
    rfl
  | @array t e n a h hn _ ih =>
    intro v hw
    obtain ⟨u, v₁, hu, hread⟩ := ih v hw
    obtain ⟨n, rfl⟩ := Nat.exists_eq_succ_of_ne_zero hn
    have harray : (v₁.row u).shape.isArray = false := by
      refine Bool.eq_false_iff.mpr fun hu => ?_
      exact Bool.false_ne_true ((hw₀.flat h.shape).symm.trans (hread.array hu))
    rw [Lookup.ofArgSignature] at hu
    obtain ⟨x, v₂, hx, hreaches, his⟩ :=
      ofSignature_arrays hu hread.reaches.tidy hread.is hread.known harray n
    have hall := hread.reaches.trans hreaches
    refine ⟨x, v₂, hx, .composite (hw.trans hall) hall h his ?_ id⟩
    rw [lossy_single h rfl nofun, Composite.array.injEq, hread.same, and_iff_left rfl]
  | unbounded h =>
    intro v hw
    obtain ⟨u, v₁, hu, hreaches, his⟩ :=
      hw.tidy.wildcard hw.tidy.canonical.usable_none .unbounded
    refine ⟨u, v₁, hu, .composite (hw.trans hreaches) hreaches h his ?_ nofun⟩
    rw [lossy_single h rfl nofun]
    exact iff_of_true rfl (not_lossy hnone rfl)
  | upper h _ ih =>
    intro v hw
    obtain ⟨u, v₁, hu, hread⟩ := ih v hw
    obtain ⟨x, v₂, hx, hx'⟩ := read_wildcard (by decide) h hw hread
    exact ⟨x, v₂, (bind_run hu).trans hx, hx'⟩
  | lower h _ ih =>
    intro v hw
    obtain ⟨u, v₁, hu, hread⟩ := ih v hw
    obtain ⟨x, v₂, hx, hx'⟩ := read_wildcard (by decide) h hw hread
    exact ⟨x, v₂, (bind_run hu).trans hx, hx'⟩
  | @parameterized t g as _ d f h hg hne _ ih =>
    intro v hw
    refine read_parameterized h hg (fun _ => iff_of_true rfl ?_) (fun v hw => ?_) ih hw
    · rintro ⟨_, _, _, _, _, ho, -⟩
      cases hnone.shape_eq ho
    · exact ⟨.none, v, rfl, .refl hw.tidy, hw.tidy.canonical.usable_none,
        iff_of_true rfl (not_lossy hnone rfl)⟩
  | member h hg hname ho houter _ iho ih =>
    intro v hw
    refine read_parameterized h hg (ho.member_name houter) (fun v hw => ?_) ih hw
    obtain ⟨u, v', hu, hread⟩ := iho v hw
    exact ⟨u, v', hu, hread.reaches, hread.is.usable hread.known, hread.same⟩

end

/-- The text that a class file holds for a type, and the signature that is written for it, are read
as the tree of its signature. The type that the tree names, in any world that knows the same types
and classes, is the one that was written, unless that is lossy. -/
theorem types_reread {a : TypeSig} (hw : w.Tidy) (h : w.Signed vars t (.exact a)) :
    ∃ text v k, w.Reaches v ∧
      (∀ n ≥ k, @Lookup.signature ⟨answer n⟩ t w = .ok text w ∧
        @Lookup.storedText ⟨answer n⟩ t w = .ok text v) ∧
      TypeSig.ofText text = .ok a ∧
      ∀ [Answers] (v : World), w.Reaches v → ∃ u v',
        Lookup.ofSignature vars a v = .ok u v' ∧ v.Reaches v' ∧ (u = t ↔ ¬ w.Lossy t) := by
  obtain ⟨text, v, k, hspells, ⟨l, hl⟩, hreaches, hstored⟩ := h.stored hw
  refine ⟨text, v, max k l, hreaches, fun n hn => ?_, TypeSig.ofText_spelled hspells, ?_⟩
  · exact ⟨hl n (by omega), hstored n (by omega)⟩
  · intro _ v hv
    obtain ⟨u, v', hrun, hread⟩ := h.read hw.canonical v hv
    exact ⟨u, v', hrun, hread.reaches, hread.same⟩

/-- A class with a name in class files and a simple name. -/
def sampleDeclared (binaryName name : Text) : Declared :=
  { origin := .missing, name, binaryName }

theorem start_tidy : ({} : World).Tidy where
  canonical := start_canonical
  named h := by
    rcases h with h | h
    · cases h.symm.trans Std.HashMap.getElem?_empty
    · cases h.symm.trans Std.HashMap.getElem?_empty

/-- `Outer<String>` is read back, and `Outer<String>.Inner` is not. -/
theorem types_reread_member : ∃ (w : World) (outer member : TypeId) (a b : TypeSig),
    w.Tidy ∧ w.Signed [] outer (.exact a) ∧ w.Signed [] member (.exact b) ∧
      ∀ [Answers], (∃ v, Lookup.ofSignature [] a w = .ok outer v) ∧
        ∃ u v, Lookup.ofSignature [] b w = .ok u v ∧ u ≠ member := by
  let stringClass := sampleDeclared "java/lang/String" "String"
  let outerClass := sampleDeclared "Outer" "Outer"
  let innerClass := sampleDeclared "Outer$Inner" "Inner"
  have empty (name : Text) : ({} : World).byBinaryName[name]? = none :=
    Std.HashMap.getElem?_empty
  obtain ⟨string, w₁, -, r₁, hstring, n₁⟩ := start_tidy.recordType (d := stringClass) (empty _)
  obtain ⟨outer, w₂, -, r₂, houter, n₂⟩ := r₁.tidy.recordType (d := outerClass) (by
    rw [n₁, Std.HashMap.getElem?_insert, if_neg (by decide +kernel), empty])
  obtain ⟨inner, w₃, -, r₃, hinner, n₃⟩ := r₂.tidy.recordType (d := innerClass) (by
    rw [n₂, n₁, Std.HashMap.getElem?_insert, if_neg (by decide +kernel),
      Std.HashMap.getElem?_insert, if_neg (by decide +kernel), empty])
  have knowsString : w₁.Knows string stringClass :=
    ⟨hstring, n₁ ▸ Std.HashMap.getElem?_insert_self, by decide +kernel⟩
  have knowsOuter : w₂.Knows outer outerClass :=
    ⟨houter, n₂ ▸ Std.HashMap.getElem?_insert_self, by decide +kernel⟩
  have knowsInner : w₃.Knows inner innerClass :=
    ⟨hinner, n₃ ▸ Std.HashMap.getElem?_insert_self, by decide +kernel⟩
  have outerParts : ∀ x ∈ [outer, .none, string], w₃.Usable x := by
    simp only [List.forall_mem_cons]
    exact ⟨(knowsOuter.mono r₃).is.usable rfl, r₃.tidy.canonical.usable_none,
      ((knowsString.mono r₂).mono r₃).is.usable rfl, nofun⟩
  obtain ⟨o, w₄, -, r₄, ho⟩ := r₃.tidy.parameterize outerParts
  have innerParts : ∀ x ∈ [inner, o], w₄.Usable x := by
    simp only [List.forall_mem_cons]
    exact ⟨(knowsInner.mono r₄).is.usable rfl, ho.usable rfl, nofun⟩
  obtain ⟨t, w, -, r, ht⟩ := r₄.tidy.parameterize innerParts
  replace knowsString := (((knowsString.mono r₂).mono r₃).mono r₄).mono r
  replace knowsOuter := ((knowsOuter.mono r₃).mono r₄).mono r
  replace knowsInner := (knowsInner.mono r₄).mono r
  replace ho := r.is_of ho rfl
  have hnone : w.Is .none .absent := ⟨r.tidy.canonical.usable_none.1, r.tidy.canonical.absent⟩
  have signedString : w.Signed [] string (.exact (.cls (.mk stringClass.binaryName [] none))) :=
    .declared knowsString
  have signedOuter := Signed.parameterized ho knowsOuter (List.cons_ne_nil _ _)
    (List.forall_mem_singleton.mpr signedString)
    (f := fun _ => .exact (.cls (.mk stringClass.binaryName [] none)))
  have signedInner := Signed.member ht knowsInner (by decide +kernel) signedOuter
    (by rw [ho.shape]; rfl) (f := fun _ => .unbounded) nofun
  have hkept : ¬ w.Lossy o := by
    refine (lossy_parameterized ho knowsOuter.is).mpr
      ⟨List.cons_ne_nil _ _, rfl, ?_, not_lossy hnone rfl, ?_⟩
    · rintro ⟨_, _, _, _, _, h, -⟩
      cases hnone.shape_eq h
    · exact List.forall_mem_singleton.mpr (not_lossy knowsString.is rfl)
  refine ⟨w, o, t, _, _, r.tidy, signedOuter, signedInner, fun {_} => ⟨?_, ?_⟩⟩
  · obtain ⟨_, _, _, -, -, -, hread⟩ := types_reread r.tidy signedOuter
    obtain ⟨u, v, hrun, -, hsame⟩ := hread w (.refl r.tidy)
    exact ⟨v, hsame.mpr hkept ▸ hrun⟩
  · obtain ⟨_, _, _, -, -, -, hread⟩ := types_reread r.tidy signedInner
    obtain ⟨u, v, hrun, -, hsame⟩ := hread w (.refl r.tidy)
    exact ⟨u, v, hrun, fun h => hsame.mp h (.bare ht)⟩

end World

end Javelin
