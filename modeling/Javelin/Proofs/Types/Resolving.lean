import Mathlib.Logic.Relation
import Javelin.Proofs.Types.Redirecting
import Javelin.Resolve.Declarations

/-!
# Types stay canonical

Types are made, members are added and placeholders are looked up in any order. Types that are the
same have one number all along, as long as no two types that both mention a placeholder become the
same when a placeholder is redirected (`World.Apart`): what is replaced by a type that mentions
another placeholder is not noted there again.

1. Looking a placeholder up keeps the tables canonical.
2. `World.Step`, the operations, and what holds after any number of them.
-/

namespace Javelin

open Run

namespace World

variable {w w₀ : World} {p r t u x : TypeId} {parts : List Text}

/-! ## The type behind a number -/

theorem resolveIn_live [Answers] {n : Nat} (hlive : w.IsLive t)
    (hs : (w.row t).shape.isWaiting = false) : Lookup.resolveIn (n + 1) t w = .ok t w := by
  rw [Lookup.resolveIn, bind_run (get_run w)]
  simp only [show w.redirects[t]? = none from hlive]
  rw [bind_run (Lookup.entry_run t w)]
  cases hshape : (w.row t).shape with
  | unresolved ps b =>
    rw [hshape] at hs
    cases b with
    | false => cases hs
    | true => rfl
  | _ => rfl

theorem resolveIn_redirected [Answers] {n : Nat} (hr : w.redirects[t]? = some u) :
    Lookup.resolveIn (n + 1) t w = Lookup.resolveIn n u w := by
  rw [Lookup.resolveIn, bind_run (get_run w)]
  simp only [hr]

/-- Nothing changes when the type behind a number is known. -/
theorem resolve_known [Answers] (h : w.Canonical)
    (hs : (w.row (w.follow t)).shape.isWaiting = false) :
    Lookup.resolve t w = .ok (w.follow t) w := by
  unfold Lookup.resolve
  cases ht : w.redirects[t]? with
  | none =>
    rw [follow_live ht] at hs ⊢
    exact resolveIn_live ht hs
  | some u =>
    have hu := (h.ends ht).1
    rw [follow_redirected ht hu] at hs ⊢
    rw [resolveIn_redirected ht]
    exact resolveIn_live hu hs

/-! ## Looking placeholders up -/

/-- The world in which a placeholder is being looked up. -/
def lookingUp (w : World) (p : TypeId) (parts : List Text) : World :=
  w.withRow p fun e => { e with shape := .unresolved parts true }

/-- When a placeholder was redirected, it is still to be replaced in all that mentions it. -/
theorem Turns.amid (h : w₀.Turns p r) (hp : (w₀.row p).shape = .unresolved parts false) :
    w₀.Amid p r none ((w₀.row p).mentions.map (p, ·) ++ [])
      ((w₀.lookingUp p parts).redirecting p r) := by
  have hw := h.canonical
  have hsize := h.waits.lt_size
  set v := (w₀.lookingUp p parts).redirecting p r with hv
  have row (x : TypeId) : v.row x =
      if x = p then { w₀.row p with shape := .unresolved parts true } else w₀.row x :=
    row_withRow hsize _ x
  have rowOther {x : TypeId} (hx : x ≠ p) : v.row x = w₀.row x := (row x).trans (if_neg hx)
  have redirectsOf (x : TypeId) :
      v.redirects[x]? = if x = p then some r else w₀.redirects[x]? := by
    change (w₀.redirects.insert p r)[x]? = _
    rw [Std.HashMap.getElem?_insert]
    by_cases hx : x = p
    · simp [hx]
    · simp [hx, Ne.symm hx]
  have isLive (x : TypeId) : v.IsLive x ↔ x ≠ p ∧ w₀.IsLive x := by
    rw [IsLive, IsLive, redirectsOf]
    by_cases hx : x = p
    · simp [hx]
    · simp [hx]
  have row_p : v.row p = { w₀.row p with shape := .unresolved parts true } :=
    (row p).trans (if_pos rfl)
  have composite {x : TypeId} {c : Composite} :
      (v.row x).shape = .composite c ↔ (w₀.row x).shape = .composite c := by
    by_cases hx : x = p
    · subst hx
      rw [row_p, hp]
      exact iff_of_false (fun h => by cases h) fun h => by cases h
    · rw [rowOther hx]
  have notesOf (x : TypeId) : (v.row x).mentions = (w₀.row x).mentions ∧
      (v.row x).isPending = (w₀.row x).isPending := by
    rw [row]
    split
    next hx => rw [hx]; exact ⟨rfl, rfl⟩
    next => exact ⟨rfl, rfl⟩
  have mentioned {n : Mention} {x : TypeId} : x ∈ v.mentioned n ↔ x ∈ w₀.mentioned n := by
    cases n with
    | type t =>
      rw [mem_mentioned_type, mem_mentioned_type]
      exact exists_congr fun c => and_congr_left fun _ => composite
    | _ => exact Iff.rfl
  have inUse {n : Mention} (hn : v.InUse n) : w₀.InUse n := by
    cases n with
    | type t => exact ((isLive t).mp hn).2
    | _ => trivial
  have isUsed {n x : TypeId} (hn : w₀.IsLive n) (hx : x ∈ w₀.mentioned (.type n)) :
      v.IsLive n := by
    obtain ⟨c, hc, -⟩ := mem_mentioned_type.mp hx
    refine (isLive n).mpr ⟨?_, hn⟩
    rintro rfl
    cases hp.symm.trans hc
  exact
    { size := size_withRow ..
      placeholders := rfl
      byBinaryName := rfl
      marks := fun t => (notesOf t).2
      placeholder := ⟨parts, hp, by rw [row_p]⟩
      redirected := fun hlive => ((isLive p).mp hlive).1 rfl
      settled := fun {t} ht => by
        have hne : t ≠ p := by
          rintro rfl
          exact ht h.waits
        rw [redirectsOf, if_neg hne]
        exact ⟨rowOther hne, rfl⟩
      other := fun hne _ => by rw [rowOther hne]
      composite := fun {t c} hc => ⟨c, composite.mpr hc, rfl, fun _ => .number rfl⟩
      redirect := fun {t u} ht hu => by
        rw [redirectsOf] at hu
        split at hu
        next htp =>
          obtain rfl := Option.some.inj hu
          exact ⟨h.live, h.not_waits, h.lt_size, .inl ⟨htp, rfl⟩⟩
        next => cases (hw.waiting ht).symm.trans hu
      known := fun {c t} => by
        refine hw.known.trans ?_
        rw [composite, isLive]
        constructor
        · rintro ⟨hlive, hc⟩
          refine ⟨⟨(by simp), ?_, hlive⟩, hc⟩
          rintro rfl
          cases hp.symm.trans hc
        · rintro ⟨⟨-, -, hlive⟩, hc⟩
          exact ⟨hlive, hc⟩
      live := fun {n x} hn hx => by
        by_cases hxp : x = p
        · subst hxp
          have hnoted := hw.noted (inUse hn) (mentioned.mp hx) h.waits
          exact .inr (List.mem_append_left _ (List.mem_map_of_mem hnoted))
        · exact .inl ((isLive x).mpr ⟨hxp, hw.live (inUse hn) (mentioned.mp hx)⟩)
      inside := fun {n x} hx => by
        rw [show v.types.size = w₀.types.size from size_withRow ..]
        exact hw.inside (mentioned.mp hx)
      noted := fun {n x} hn hx hwaits _ => by
        rw [(notesOf x).1]
        exact hw.noted (inUse hn) (mentioned.mp hx) hwaits
      mention := fun {t x} ht => by
        rw [(notesOf x).1] at ht
        obtain ⟨hlt, hmention⟩ := hw.mention ht
        refine ⟨hlt, fun hwaits _ => ?_⟩
        obtain ⟨hlive, hx⟩ := hmention hwaits
        exact ⟨isUsed hlive hx, mentioned.mpr hx⟩
      once := fun x => (notesOf x).1 ▸ hw.once x
      flat := fun {t e n} hs => by
        have hflat := hw.flat (composite.mp hs)
        by_cases he : e = p
        · rw [he, row_p]
          rfl
        · rwa [rowOther he]
      todo_waits := fun {x n} hmem => by
        rw [List.append_nil] at hmem
        obtain ⟨k, -, heq⟩ := List.mem_map.mp hmem
        cases heq
        exact ⟨h.waits, fun hlive => ((isLive _).mp hlive).1 rfl⟩
      todo_type := fun {x t} hmem => by
        rw [List.append_nil] at hmem
        obtain ⟨k, hk, heq⟩ := List.mem_map.mp hmem
        cases heq
        obtain ⟨hlive, hx⟩ := (hw.mention hk).2 h.waits
        exact ⟨isUsed hlive hx, mentioned.mpr hx⟩
      todo_once := by
        rw [List.append_nil]
        exact (hw.once p).map fun _ _ h => (Prod.mk.inj h).2 }

/-- There are fewer composite types than rows. -/
theorem unmerged_lt_size (hp : (w₀.row p).shape = .unresolved parts false) :
    unmerged w₀ w < w₀.types.size := by
  have hsize : p.index < w₀.types.size := lt_size_of_shape (by rw [hp]; rfl)
  have hsub : (Finset.range w₀.types.size).filter (fun i =>
      (w₀.row ⟨i⟩).shape.composite?.isSome = true ∧ w.redirects[(⟨i⟩ : TypeId)]? = none) ⊂
      Finset.range w₀.types.size := by
    refine ⟨Finset.filter_subset .., fun hsub => ?_⟩
    have hmem := (Finset.mem_filter.mp (hsub (Finset.mem_range.mpr hsize))).2.1
    change (w₀.row p).shape.composite?.isSome = true at hmem
    rw [hp] at hmem
    cases hmem
  exact (Finset.card_lt_card hsub).trans_eq (Finset.card_range _)

theorem missing_run (h : w.byBinaryName[Lookup.internalName parts]? = some r) :
    Lookup.missing parts w = .ok r w := by
  unfold Lookup.missing
  rw [bind_run (get_run w)]
  simp only [h]
  rfl

/-- A type that is in the tables is found under its name, unless it is known to be missing. -/
theorem binaryType_run {name : Text} (hname : w.byBinaryName[name]? = some r) (hlive : w.IsLive r)
    (hs : (w.row r).shape.isWaiting = false) : Lookup.binaryType name w =
      .ok (if (w.row r).shape.isMissing then none else some r) w := by
  have rule [Answers] : Lookup.binaryTypeRule name w =
      .ok (if (w.row r).shape.isMissing then none else some r) w := by
    unfold Lookup.binaryTypeRule
    rw [bind_run (get_run w)]
    simp only [hname]
    rw [bind_run (a := (r, (w.row r).shape)) (t := w)]
    · rfl
    · unfold Lookup.view Lookup.resolve
      rw [bind_run (resolveIn_live hlive hs)]
      rfl
  have closed (n : Nat) : answer (n + 1) (.binaryType name) w =
      .ok (if (w.row r).shape.isMissing then none else some r) w := @rule ⟨answer n⟩
  exact closed 999999

theorem isWaiting_of_declared (h : (w.row t).shape.isDeclared = true) :
    (w.row t).shape.isWaiting = false := by
  revert h
  cases (w.row t).shape <;> simp [Shape.isDeclared, Shape.declared?, Shape.isWaiting]

theorem lookUp_run (h : w.Turns p r) (hp : (w.row p).shape = .unresolved parts false)
    (hname : w.byBinaryName[Lookup.internalName parts]? = some r) :
    ∃ w', Lookup.lookUp p parts w = .ok () w' ∧ w'.Canonical ∧
      w'.redirects[p]? = some r ∧ w'.IsLive r ∧ (w'.row r).shape.isDeclared = true := by
  have hnow : ((w.lookingUp p parts).redirecting p r).redirects[p]? = some r :=
    Std.HashMap.getElem?_insert_self
  have row (x : TypeId) : (w.lookingUp p parts).row x =
      if x = p then { w.row p with shape := .unresolved parts true } else w.row x :=
    row_withRow h.waits.lt_size _ x
  have row_r : (w.lookingUp p parts).row r = w.row r := (row r).trans (if_neg (by
    rintro rfl
    exact h.not_waits h.waits))
  have hmentions : (((w.lookingUp p parts).redirecting p r).row p).mentions =
      (w.row p).mentions := by
    change ((w.lookingUp p parts).row p).mentions = _
    rw [row, if_pos rfl]
  have ha := h.amid hp
  rw [← hmentions] at ha
  have hsize : w.types.size = ((w.lookingUp p parts).redirecting p r).types.size :=
    (size_withRow ..).symm
  obtain ⟨w', hrun, ha, hmono⟩ := replaceMentions_run h w.types.size ha h.waits hnow
    (unmerged_lt_size hp)
  have hr := ha.settled h.not_waits
  refine ⟨w', ?_, ha.canonical h, hmono hnow, hr.2.trans h.live, hr.1 ▸ h.declared⟩
  have hanswer := binaryType_run (w := w.lookingUp p parts) hname h.live
    (isWaiting_of_declared (row_r ▸ h.declared))
  unfold Lookup.lookUp
  rw [bind_run (show Lookup.modifyShape p (fun _ => .unresolved parts true) w =
    .ok () (w.lookingUp p parts) from rfl), bind_run hanswer]
  rw [hsize] at hrun
  -- A type that is known to be missing is found again as that.
  split
  next => exact (bind_run (missing_run (w := w.lookingUp p parts) hname)).trans hrun
  next => exact hrun

/-- A placeholder that is looked up turns out to be the type of its name. -/
theorem resolve_placeholder (h : w.Turns p r) (hp : (w.row p).shape = .unresolved parts false)
    (hname : w.byBinaryName[Lookup.internalName parts]? = some r) :
    ∃ w', Lookup.resolve p w = .ok r w' ∧ w'.Canonical ∧ w'.follow p = r := by
  obtain ⟨w', hrun, hcanonical, hredirect, hlive, hdeclared⟩ := lookUp_run h hp hname
  refine ⟨w', ?_, hcanonical, follow_redirected hredirect hlive⟩
  unfold Lookup.resolve
  rw [Lookup.resolveIn, bind_run (get_run w)]
  simp only [show w.redirects[p]? = none from h.canonical.waiting h.waits]
  rw [bind_run (Lookup.entry_run p w)]
  simp only [hp]
  rw [bind_run hrun, resolveIn_redirected hredirect]
  exact resolveIn_live hlive (isWaiting_of_declared hdeclared)

/-! ## Runs of operations -/

/-- The operations on types. A type of the source or the library is added under its name before a
placeholder of that name is looked up. -/
inductive Step : World → World → Prop
  | array {w w' : World} {elem t : TypeId} {dims : Nat} (inside : elem.index < w.types.size)
    (run : Lookup.array elem dims w = .ok t w') : Step w w'
  | parameterize {w w' : World} {g outer t : TypeId} {args : List TypeId} {isDegraded : Bool}
    (inside : ∀ x ∈ g :: outer :: args, x.index < w.types.size)
    (run : Lookup.parameterizeAs g args outer isDegraded w = .ok t w') : Step w w'
  | raw {w w' : World} {g t : TypeId} (inside : g.index < w.types.size)
    (run : Lookup.rawType g w = .ok t w') : Step w w'
  | wildcard {w w' : World} {bound t : TypeId} {kind : WildcardKind}
    (inside : bound.index < w.types.size) (run : Lookup.wildcard bound kind w = .ok t w') :
    Step w w'
  | intersection {w w' : World} {t : TypeId} {ts : List TypeId}
    (inside : ∀ x ∈ ts, x.index < w.types.size) (run : Lookup.intersection ts w = .ok t w') :
    Step w w'
  | reference {w w' : World} {parts : List Text} {t : TypeId}
    (run : Lookup.reference parts w = .ok t w') : Step w w'
  | type {w w' : World} {d : Declared} {t : TypeId} (run : Lookup.recordType d w = .ok t w') :
    Step w w'
  | field {w w' : World} {e : FieldEntry} {id : FieldId}
    (usable : w.IsLive e.type ∧ e.type.index < w.types.size)
    (run : Lookup.recordField e w = .ok id w') : Step w w'
  | method {w w' : World} {e : MethodEntry} {id : MethodId}
    (usable : ∀ x ∈ e.result :: e.params ++ e.throws, w.IsLive x ∧ x.index < w.types.size)
    (run : Lookup.recordMethod e w = .ok id w') : Step w w'
  | resolve {w w' : World} {p r t : TypeId} {parts : List Text}
    (placeholder : (w.row p).shape = .unresolved parts false)
    (known : w.byBinaryName[Lookup.internalName parts]? = some r) (apart : w.Apart p r)
    (run : Lookup.resolve p w = .ok t w') : Step w w'

theorem Step.canonical {w' : World} (s : Step w w') (h : w.Canonical) : w'.Canonical := by
  cases s with
  | array inside run => exact Lookup.array_canonical run h inside
  | parameterize inside run => exact Lookup.parameterizeAs_canonical run h inside
  | raw inside run => exact Lookup.rawType_canonical run h inside
  | wildcard inside run => exact Lookup.wildcard_canonical run h inside
  | intersection inside run => exact Lookup.intersection_canonical run h inside
  | reference run => exact Lookup.reference_canonical run h
  | type run => exact Lookup.recordType_canonical run h
  | field usable run => exact Lookup.recordField_canonical run h usable
  | method usable run => exact Lookup.recordMethod_canonical run h usable
  | resolve placeholder known apart run =>
    obtain ⟨v, hrun, hcanonical, -⟩ :=
      resolve_placeholder ⟨h, ⟨_, placeholder⟩, h.named known, apart⟩ placeholder known
    cases hrun.symm.trans run
    exact hcanonical

theorem start_row (t : TypeId) : ({} : World).row t = { shape :=
    (([Shape.absent] ++ baseTypes.map Shape.base ++ [Shape.null])[t.index]?).getD .absent } := by
  simp only [row, firstTypes, Array.getD_eq_getD_getElem?, Array.getElem?_map,
    List.getElem?_toArray]
  cases ([Shape.absent] ++ baseTypes.map Shape.base ++ [Shape.null])[t.index]? <;> rfl

theorem start_size : ({} : World).types.size = 11 := by
  simp [firstTypes, baseTypes]

/-- In the beginning there are only the primitive types and the null type. -/
theorem start_cases (t : TypeId) : (({} : World).row t).shape = .absent ∨
    (∃ b, (({} : World).row t).shape = .base b) ∨ (({} : World).row t).shape = .null := by
  rw [start_row]
  cases hs : ([Shape.absent] ++ baseTypes.map Shape.base ++ [Shape.null])[t.index]? with
  | none => exact .inl rfl
  | some s =>
    have hmem := List.mem_of_getElem? hs
    simp only [List.mem_append, List.mem_singleton, List.mem_map] at hmem
    obtain (rfl | ⟨b, -, rfl⟩) | rfl := hmem
    · exact .inl rfl
    · exact .inr (.inl ⟨b, rfl⟩)
    · exact .inr (.inr rfl)

theorem getD_singleton {α : Type} (a : α) (i : Nat) : Array.getD #[a] i a = a := by
  cases i <;> rfl

/-- The tables are canonical before anything is known. -/
theorem start_canonical : ({} : World).Canonical := by
  have live (t : TypeId) : ({} : World).IsLive t := Std.HashMap.getElem?_empty
  have redirects {t u : TypeId} : ¬ ({} : World).redirects[t]? = some u := by
    intro h
    cases (live t).symm.trans h
  have plain (t : TypeId) {s : Shape} (hs : (({} : World).row t).shape = s) :
      s.composite? = none ∧ s.isDeclared = false ∧ s.isWaiting = false ∧
        ∀ ps b, s ≠ .unresolved ps b := by
    rcases start_cases t with h | ⟨b, h⟩ | h <;> cases h.symm.trans hs <;>
      exact ⟨rfl, rfl, rfl, fun ps b h => by cases h⟩
  have mentions (t : TypeId) : (({} : World).row t).mentions = [] := by rw [start_row]
  have notWaits (t : TypeId) : ¬ ({} : World).Waits t := by
    rintro (hs | ⟨hs, -, -⟩)
    · rw [(plain t rfl).2.2.1] at hs
      cases hs
    · cases (plain t hs).1
  have mentioned {m : Mention} {x : TypeId} (hx : x ∈ ({} : World).mentioned m) : x = .none := by
    cases m with
    | type t =>
      obtain ⟨c, hc, -⟩ := mem_mentioned_type.mp hx
      cases (plain t hc).1
    | field f =>
      rw [World.mentioned, show ({} : World).fields = #[{}] from rfl, getD_singleton] at hx
      exact List.mem_singleton.mp hx
    | method f =>
      rw [World.mentioned, show ({} : World).methods = #[{}] from rfl, getD_singleton] at hx
      exact List.mem_singleton.mp hx
  exact
    { absent := by
        rw [start_row]
        rfl
      known := fun {c t} =>
        iff_of_false (fun h => by cases Std.HashMap.getElem?_empty.symm.trans h) fun h => by
          cases (plain t h.2).1
      ends := fun h => absurd h redirects
      waiting := fun h => absurd h (notWaits _)
      live := fun _ _ => live _
      inside := fun hx => by
        rw [mentioned hx, start_size]
        decide
      noted := fun _ _ h => absurd h (notWaits _)
      mention := fun h => by
        rw [mentions] at h
        cases h
      once := fun x => by
        rw [mentions]
        exact List.nodup_nil
      marked := fun h => absurd h (notWaits _)
      flat := fun h => by cases (plain _ h).1
      placeholder := fun h => absurd rfl ((plain _ h).2.2.2 _ _)
      resolved := fun h => absurd rfl ((plain _ h).2.2.2 _ _)
      declared := fun _ => live _
      named := fun h => by cases Std.HashMap.getElem?_empty.symm.trans h
      redirected := fun h => absurd h redirects }

/-- After any operations types are compared by number: two are the same exactly if they have one
number. Nothing that is in use mentions a type that was redirected or a placeholder that was looked
up, and to look up a type again changes nothing. -/
theorem types_canonical (run : Relation.ReflTransGen Step {} w) :
    (∀ t u, w.Same t u ↔ w.follow t = w.follow u) ∧
    (∀ m, w.InUse m → ∀ x ∈ w.mentioned m,
      w.IsLive x ∧ ∀ ps, (w.row x).shape ≠ .unresolved ps true) ∧
    ∀ t, (w.row (w.follow t)).shape.isWaiting = false →
      Lookup.resolve t w = .ok (w.follow t) w := by
  have h : w.Canonical := by
    induction run with
    | refl => exact start_canonical
    | tail _ s ih => exact s.canonical ih
  refine ⟨fun t u => ⟨h.follow_eq, .number⟩, fun m hm x hx => ?_, fun t => resolve_known h⟩
  have hlive := h.live hm hx
  exact ⟨hlive, fun ps hs => h.resolved hs hlive⟩

/-- The class `P`. -/
def sampleClass : Declared where
  origin := .missing
  name := "P"
  binaryName := "P"

/-- A placeholder and its array type, when the class of its name was added. -/
theorem sample_run : ∃ w₁ w₂ w₃ : World, Lookup.reference ["P"] {} = .ok ⟨11⟩ w₁ ∧
    Lookup.array ⟨11⟩ 1 w₁ = .ok ⟨12⟩ w₂ ∧ Lookup.recordType sampleClass w₂ = .ok ⟨13⟩ w₃ ∧
    w₁.types.size = 12 ∧ w₃.byBinaryName[Lookup.internalName ["P"]]? = some ⟨13⟩ ∧
    ∀ t, (w₃.row t).shape = if t = ⟨13⟩ then .declared sampleClass else
      if t = ⟨12⟩ then .composite (.array ⟨11⟩ 1) else
      if t = ⟨11⟩ then .unresolved ["P"] false else (({} : World).row t).shape := by
  have hnext : ({} : World).nextType = ⟨11⟩ := by rw [nextType, start_size]
  have hreference : Lookup.reference ["P"] {} = .ok ({} : World).nextType
      { ({} : World).adding (.unresolved ["P"] false) with
        placeholders := ({} : World).placeholders.insert (Lookup.internalName ["P"])
          ({} : World).nextType } := by
    unfold Lookup.reference
    rw [bind_run (get_run _)]
    simp only [show ({} : World).byBinaryName[Lookup.internalName ["P"]]? = none from
      Std.HashMap.getElem?_empty]
    rw [bind_run (get_run _)]
    simp only [show ({} : World).placeholders[Lookup.internalName ["P"]]? = none from
      Std.HashMap.getElem?_empty]
    rfl
  rw [hnext] at hreference
  set w₁ : World := { ({} : World).adding (.unresolved ["P"] false) with
    placeholders := ({} : World).placeholders.insert (Lookup.internalName ["P"]) ⟨11⟩ }
  have hsize₁ : w₁.types.size = 12 := (Array.size_push ..).trans (by rw [start_size])
  have hnext₁ : w₁.nextType = ⟨12⟩ := by rw [nextType, hsize₁]
  have hrow₁ (t : TypeId) : w₁.row t =
      if t = ⟨11⟩ then { shape := .unresolved ["P"] false } else ({} : World).row t :=
    hnext ▸ row_adding {} (.unresolved ["P"] false) t
  have hlive₁ : w₁.IsLive ⟨11⟩ := Std.HashMap.getElem?_empty
  have harray : Lookup.array ⟨11⟩ 1 w₁ = .ok ⟨12⟩ (w₁.interned (.array ⟨11⟩ 1)) := by
    unfold Lookup.array
    rw [bind_run (Lookup.follow_run _ _), follow_live hlive₁, if_neg (by decide),
      bind_run (Lookup.rawShape_run _ _), follow_live hlive₁, hrow₁, if_pos rfl, ← hnext₁]
    exact Lookup.intern_new Std.HashMap.getElem?_empty
  have hnotes := Lookup.notes_interned (w := w₁) (.array ⟨11⟩ 1) (by
    rintro x (_ | ⟨_, ⟨⟩⟩)
    exact ⟨hlive₁, hsize₁ ▸ by decide⟩)
  set w₂ := w₁.interned (.array ⟨11⟩ 1)
  have hsize₂ : w₂.types.size = 13 :=
    hnotes.size.trans ((Array.size_push ..).trans (by rw [hsize₁]))
  have hnext₂ : w₂.nextType = ⟨13⟩ := by rw [nextType, hsize₂]
  have hrecord : Lookup.recordType sampleClass w₂ = .ok w₂.nextType
      { w₂.adding (.declared sampleClass) with
        byBinaryName := w₂.byBinaryName.insert "P" w₂.nextType } := rfl
  rw [hnext₂] at hrecord
  refine ⟨w₁, w₂, _, hreference, harray, hrecord, hsize₁, Std.HashMap.getElem?_insert_self,
    fun t => ?_⟩
  have hrow₂ : (w₂.row t).shape =
      ((w₁.adding (.composite (.array ⟨11⟩ 1))).row t).shape := hnotes.shape t
  change ((w₂.adding (.declared sampleClass)).row t).shape = _
  rw [row_adding, hnext₂]
  split
  · rfl
  · rw [hrow₂, row_adding, hnext₁, hrow₁]
    split
    · rfl
    · split <;> rfl

/-- A placeholder that its array type mentions is no longer mentioned when it turned out to be a
class, and has the number of the class. -/
theorem types_canonical_array : ∃ w, Relation.ReflTransGen Step {} w ∧
    w.follow ⟨11⟩ = ⟨13⟩ ∧ w.Same ⟨11⟩ ⟨13⟩ ∧
    (w.InUse (.type ⟨12⟩) → ⟨11⟩ ∉ w.mentioned (.type ⟨12⟩)) := by
  obtain ⟨w₁, w₂, w₃, h₁, h₂, h₃, hsize, hname, hrow⟩ := sample_run
  have run : Relation.ReflTransGen Step {} w₃ :=
    ((Relation.ReflTransGen.single (.reference h₁)).tail (.array (hsize ▸ by decide) h₂)).tail
      (.type h₃)
  have hcanonical : w₃.Canonical :=
    (Step.type h₃).canonical ((Step.array (hsize ▸ by decide) h₂).canonical
      ((Step.reference h₁).canonical start_canonical))
  have hp : (w₃.row ⟨11⟩).shape = .unresolved ["P"] false := hrow ⟨11⟩
  have ha : (w₃.row ⟨12⟩).shape = .composite (.array ⟨11⟩ 1) := hrow ⟨12⟩
  have hr : (w₃.row ⟨13⟩).shape = .declared sampleClass := hrow ⟨13⟩
  have waits {t : TypeId} (ht : w₃.Waits t) : t = ⟨11⟩ ∨ t = ⟨12⟩ := by
    by_contra! hne
    obtain ⟨hs, hs'⟩ : (w₃.row t).shape.isWaiting = false ∧ (w₃.row t).shape.composite? = none := by
      rw [hrow t, if_neg hne.2, if_neg hne.1]
      split
      · exact ⟨rfl, rfl⟩
      · rcases start_cases t with h | ⟨b, h⟩ | h <;> rw [h] <;> exact ⟨rfl, rfl⟩
    rcases ht with h | ⟨h, -, -⟩
    · cases hs.symm.trans h
    · rw [h] at hs'
      cases hs'
  have live : w₃.IsLive ⟨13⟩ := hcanonical.declared (by rw [hr]; rfl)
  have notSame : ¬ (w₃.redirecting ⟨11⟩ ⟨13⟩).Same ⟨11⟩ ⟨12⟩ := by
    have hfollow : (w₃.redirecting ⟨11⟩ ⟨13⟩).follow ⟨11⟩ = ⟨13⟩ := by
      refine follow_redirected Std.HashMap.getElem?_insert_self ?_
      exact (Std.HashMap.getElem?_insert ..).trans live
    have hfollow' : (w₃.redirecting ⟨11⟩ ⟨13⟩).follow ⟨12⟩ = ⟨12⟩ :=
      follow_redirecting (hcanonical.waiting (.part ha (List.mem_singleton_self _)
        (.placeholder (by rw [hp]; rfl)))) (by decide)
    have hr' : ((w₃.redirecting ⟨11⟩ ⟨13⟩).row ⟨13⟩).shape = .declared sampleClass := hr
    rintro (h | ⟨h, -, -⟩ | ⟨h, -, -, -⟩) <;> rw [hfollow] at h
    · rw [hfollow'] at h
      cases h
    · cases hr'.symm.trans h
    · cases hr'.symm.trans h
  have apart : w₃.Apart ⟨11⟩ ⟨13⟩ := by
    intro t u ht hu hsame
    rcases waits ht with rfl | rfl <;> rcases waits hu with rfl | rfl
    · rfl
    · exact absurd hsame notSame
    · exact absurd hsame.symm notSame
    · rfl
  obtain ⟨w, hrun, hcanonical', hfollow⟩ :=
    resolve_placeholder ⟨hcanonical, ⟨_, hp⟩, by rw [hr]; rfl, apart⟩ hp hname
  obtain ⟨hsame, hmentioned, -⟩ := types_canonical (run.tail (.resolve hp hname apart hrun))
  refine ⟨w, run.tail (.resolve hp hname apart hrun), hfollow, (hsame _ _).mpr ?_,
    fun huse hmem => ?_⟩
  · rw [hfollow, ← hfollow, follow_live (hcanonical'.live_follow _)]
  · have hlive := (hmentioned _ huse _ hmem).1
    rw [follow_live hlive] at hfollow
    cases hfollow

end World

end Javelin
