import Mathlib.Data.Fintype.Pigeonhole
import Mathlib.Logic.Relation
import Javelin.Proofs.Types.Canonical

/-!
# Where erasure ends

The erasure of a type variable is that of its first bound, and a bound may be a variable again.
`World.Leads` is one such step: from a variable, captured variable or intersection to its first
bound, from a wildcard to its upper bound, from an array to its elements.

1. Steps and chains of steps (`World.Ends`). A chain without an end runs into a circle
   (`World.ends_or_circle`), because the table of types is finite.
2. Erasure follows the chain, so it gives an answer exactly if the chain leads into no circle
   (`Lookup.erasure_answered_iff`). The bounds that are written are not tested for circles.
-/

namespace Javelin

open Run

namespace World

/-! ## Chains of leading components -/

/-- The type that a number stands for where no placeholder waits. -/
def standsFor (w : World) (t : TypeId) : TypeId := Lookup.followIn w.redirects 8 t

/-- The type whose erasure decides that of a type. -/
def leading? (w : World) (t : TypeId) : Option TypeId :=
  match (w.row (w.standsFor t)).shape with
  | .composite (.wildcard b .upper) => some b
  | .composite (.array e _) => some e
  | s => s.bounds?.bind List.head?

/-- The erasure of the first type is that of the second one, up to layers of arrays. -/
def Leads (w : World) (t u : TypeId) : Prop := w.leading? t = some u

/-- The steps from a type come to an end. -/
inductive Ends (w : World) : TypeId → Prop
  | last {t : TypeId} (h : w.leading? t = none) : Ends w t
  | step {t u : TypeId} (h : w.Leads t u) (rest : Ends w u) : Ends w t

variable {w : World} {t u : TypeId}

theorem Ends.next (h : w.Ends t) (hu : w.Leads t u) : w.Ends u := by
  cases h with
  | last h => cases h.symm.trans hu
  | step h rest =>
    cases h.symm.trans hu
    exact rest

theorem Ends.reached (h : w.Ends t) (hu : Relation.ReflTransGen w.Leads t u) : w.Ends u := by
  induction hu with
  | refl => exact h
  | tail _ hstep ih => exact ih.next hstep

/-- No type on a chain that ends leads back to itself. -/
theorem Ends.irreflexive (h : w.Ends t) : ¬ Relation.TransGen w.Leads t t := by
  induction h with
  | last h =>
    intro hcircle
    obtain ⟨u, hu, -⟩ := Relation.TransGen.head'_iff.1 hcircle
    cases h.symm.trans hu
  | @step t u h rest ih =>
    intro hcircle
    obtain ⟨v, hv, hback⟩ := Relation.TransGen.head'_iff.1 hcircle
    cases h.symm.trans hv
    exact ih (Relation.TransGen.tail' hback h)

/-- A type that leads on has a row. -/
theorem standsFor_lt (h : w.Leads t u) : (w.standsFor t).index < w.types.size := by
  by_contra hge
  have hrow : w.row (w.standsFor t) = {} := by
    rw [row, Array.getD_eq_getD_getElem?, Array.getElem?_eq_none (by omega)]
    rfl
  unfold Leads leading? at h
  rw [hrow] at h
  cases h

theorem standsFor_self (h : w.redirects[t]? = none) : w.standsFor t = t := by
  unfold standsFor
  rw [Lookup.followIn, h]

theorem leading?_congr (h : w.standsFor t = w.standsFor u) : w.leading? t = w.leading? u := by
  unfold leading?
  rw [h]

/-- The type after some steps; the last one again if there is none. -/
def after (w : World) (t : TypeId) : Nat → TypeId
  | 0 => t
  | n + 1 => (w.leading? (w.after t n)).getD (w.after t n)

/-- The steps from a type that do not end. -/
theorem leads_after (h : ¬ w.Ends t) (n : Nat) :
    ¬ w.Ends (w.after t n) ∧ w.Leads (w.after t n) (w.after t (n + 1)) := by
  have goesOn : ∀ {u}, ¬ w.Ends u → w.Leads u ((w.leading? u).getD u) := by
    intro u hu
    cases hl : w.leading? u with
    | none => exact absurd (.last hl) hu
    | some v => exact hl
  induction n with
  | zero => exact ⟨h, goesOn h⟩
  | succ n ih =>
    have later : ¬ w.Ends (w.after t (n + 1)) := fun hend => ih.1 (.step ih.2 hend)
    exact ⟨later, goesOn later⟩

theorem leads_between (h : ¬ w.Ends t) {m n : Nat} (hmn : m ≤ n) :
    Relation.ReflTransGen w.Leads (w.after t m) (w.after t n) := by
  induction hmn with
  | refl => exact .refl
  | step _ ih => exact ih.tail (leads_after h _).2

/-- The steps from a type come to an end or into a circle. -/
theorem ends_or_circle (w : World) (t : TypeId) :
    w.Ends t ∨ ∃ u, Relation.ReflTransGen w.Leads t u ∧ Relation.TransGen w.Leads u u := by
  by_contra! hno
  obtain ⟨h, hno⟩ := hno
  -- Infinitely many steps visit finitely many rows.
  let place : Nat → Fin w.types.size := fun n =>
    ⟨(w.standsFor (w.after t n)).index, standsFor_lt (leads_after h n).2⟩
  obtain ⟨m, n, hne, hsame⟩ := Finite.exists_ne_map_eq_of_infinite place
  wlog hmn : m < n generalizing m n
  · exact this n m hne.symm hsame.symm (by omega)
  have hstands : w.standsFor (w.after t m) = w.standsFor (w.after t n) :=
    TypeId.eq_of_index (congrArg Fin.val hsame)
  have hnext : w.after t (m + 1) = w.after t (n + 1) := by
    have hm := (leads_after h m).2
    rw [Leads, leading?_congr hstands] at hm
    exact Option.some.inj (hm.symm.trans (leads_after h n).2)
  refine hno (w.after t (m + 1)) (leads_between h (Nat.zero_le _)) ?_
  have hpath : Relation.ReflTransGen w.Leads (w.after t (m + 1)) (w.after t n) :=
    leads_between h hmn
  have hlast := (leads_after h n).2
  rw [← hnext] at hlast
  exact Relation.TransGen.tail' hpath hlast

end World

/-! ## Erasure -/

/-- No placeholder waits to be looked up, and the class `Object` has been found. -/
structure World.IsLoaded (w : World) : Prop where
  found : ∀ t, (w.row t).shape.isWaiting = false
  object : ∃ o, w.wellKnown[("java.lang.Object" : Text)]? = some o

namespace Lookup

open World

variable {w w' : World} {t u : TypeId} {n : Nat}

section

variable [Answers]

theorem resolveIn_loaded (hw : w.IsLoaded) (n : Nat) (t : TypeId) :
    resolveIn n t w = .ok (followIn w.redirects n t) w := by
  induction n generalizing t with
  | zero => rfl
  | succ n ih =>
    rw [resolveIn, followIn, bind_run (get_run w)]
    cases hr : w.redirects[t]? with
    | some u => exact ih u
    | none =>
      dsimp only
      rw [bind_run (entry_run t w)]
      have hfound := hw.found t
      generalize (w.row t).shape = s at hfound
      cases s with
      | unresolved parts isDone =>
        cases isDone with
        | true => rfl
        | false => cases hfound
      | _ => rfl

theorem resolve_loaded (hw : w.IsLoaded) (t : TypeId) : resolve t w = .ok (w.standsFor t) w :=
  resolveIn_loaded hw 8 t

theorem view_loaded (hw : w.IsLoaded) (t : TypeId) :
    view t w = .ok (w.standsFor t, (w.row (w.standsFor t)).shape) w := by
  unfold view
  rw [bind_run (resolve_loaded hw t)]
  rfl

theorem objectType_loaded (hw : w.IsLoaded) : ∃ o, objectType w = .ok o w := by
  obtain ⟨o, ho⟩ := hw.object
  refine ⟨o, ?_⟩
  unfold objectType wellKnown
  rw [bind_run (get_run w)]
  simp only [ho]
  rfl

end

/-- Making an array type never fails. -/
theorem array_answers (e : TypeId) (k : Nat) (w : World) : ∃ t w', array e k w = .ok t w' := by
  have interns : ∀ c, ∃ t w', intern c w = .ok t w' := fun c => by
    cases hc : w.composites[c]? with
    | some t => exact ⟨_, _, intern_known hc⟩
    | none => exact ⟨_, _, intern_new hc⟩
  unfold array
  rw [bind_run (follow_run e w)]
  split
  · exact ⟨_, _, rfl⟩
  · rw [bind_run (rawShape_run _ w)]
    generalize (w.row (w.follow (w.follow e))).shape = s
    cases s with
    | composite c => cases c <;> exact interns _
    | _ => exact interns _

/-! ## Answers -/

/-- One step of erasure: an end is answered, and else the answer for the next type is needed. -/
theorem erasure_answered (hw : w.IsLoaded) :
    (∃ u w', answer (n + 1) (.erasure t) w = .ok u w') ↔
      ∀ u, w.Leads t u → ∃ v w', answer n (.erasure u) w = .ok v w' := by
  let _ : Answers := ⟨answer n⟩
  change (∃ u w', erasureRule t w = .ok u w') ↔ _
  have object := objectType_loaded hw
  have leads : w.leading? t = match (w.row (w.standsFor t)).shape with
    | .composite (.wildcard b .upper) => some b
    | .composite (.array e _) => some e
    | s => s.bounds?.bind List.head? := rfl
  have ends {m : Lookup TypeId} (hm : ∃ u, m w = .ok u w) : (∃ u w', m w = .ok u w') ↔
      ∀ u, none = some u → ∃ v w', answer n (.erasure u) w = .ok v w' :=
    iff_of_true (hm.imp fun _ h => ⟨w, h⟩) fun u h => by cases h
  have asks (b : TypeId) : (∃ u w', erasure b w = .ok u w') ↔
      ∀ u, some b = some u → ∃ v w', answer n (.erasure u) w = .ok v w' :=
    ⟨fun h _ hu => Option.some.inj hu ▸ h, fun h => h b rfl⟩
  have bounded (bs : List TypeId) {m : Lookup TypeId} (hnil : bs = [] → m = objectType)
      (hcons : ∀ b ds, bs = b :: ds → m = erasure b) : (∃ u w', m w = .ok u w') ↔
      ∀ u, bs.head? = some u → ∃ v w', answer n (.erasure u) w = .ok v w' := by
    cases bs with
    | nil => exact hnil rfl ▸ ends object
    | cons b ds => exact hcons b ds rfl ▸ asks b
  unfold erasureRule Leads
  rw [bind_run (view_loaded hw t), leads]
  dsimp only
  generalize (w.row (w.standsFor t)).shape = s
  cases s with
  | composite c =>
    cases c with
    | array e k =>
      rw [← asks e]
      constructor
      · rintro ⟨u, w', h⟩
        obtain ⟨v, w₁, he, -⟩ := bind_ok h
        exact ⟨v, w₁, he⟩
      · rintro ⟨v, w₁, he⟩
        obtain ⟨u, w', h⟩ := array_answers v k w₁
        exact ⟨u, w', (bind_run he).trans h⟩
    | parameterized g => exact ends ⟨_, resolve_loaded hw g⟩
    | raw g => exact ends ⟨_, resolve_loaded hw g⟩
    | wildcard b kind =>
      cases kind with
      | upper => exact asks b
      | lower | unbounded => exact ends object
    | intersection bs => exact bounded bs (by rintro rfl; rfl) (by rintro b ds rfl; rfl)
  | «variable» v =>
    exact bounded v.bounds (fun h => by simp only [Shape.bounds?, h])
      fun b ds h => by simp only [Shape.bounds?, h]
  | captured v =>
    exact bounded v.bounds (fun h => by simp only [Shape.bounds?, h])
      fun b ds h => by simp only [Shape.bounds?, h]
  | _ => exact ends ⟨_, rfl⟩

/-- Erasure gives an answer exactly if the leading components of the type come to an end. -/
theorem erasure_answered_iff_ends (hw : w.IsLoaded) (t : TypeId) :
    (∃ n u w', answer n (.erasure t) w = .ok u w') ↔ w.Ends t := by
  constructor
  · rintro ⟨n, h⟩
    induction n generalizing t with
    | zero =>
      obtain ⟨u, w', h⟩ := h
      cases h
    | succ n ih =>
      rw [erasure_answered hw] at h
      cases hl : w.leading? t with
      | none => exact .last hl
      | some u => exact .step hl (ih u (h u hl))
  · intro h
    induction h with
    | last h => exact ⟨1, (erasure_answered hw).2 fun u hu => nomatch h.symm.trans hu⟩
    | step h _ ih =>
      obtain ⟨n, hn⟩ := ih
      exact ⟨n + 1, (erasure_answered hw).2 fun u hu => Option.some.inj (h.symm.trans hu) ▸ hn⟩

/-- Erasure gives an answer exactly if the leading components of a type, from first bound to first
bound, lead into no circle. In a circle there is no descriptor either. -/
theorem erasure_answered_iff (hw : w.IsLoaded) (t : TypeId) :
    ((∃ n u w', answer n (.erasure t) w = .ok u w') ↔
      ¬ ∃ u, Relation.ReflTransGen w.Leads t u ∧ Relation.TransGen w.Leads u u) ∧
    ((∃ n s w', @descriptor ⟨answer n⟩ t w = .ok s w') →
      ¬ ∃ u, Relation.ReflTransGen w.Leads t u ∧ Relation.TransGen w.Leads u u) := by
  have answered : (∃ n u w', answer n (.erasure t) w = .ok u w') ↔
      ¬ ∃ u, Relation.ReflTransGen w.Leads t u ∧ Relation.TransGen w.Leads u u := by
    rw [erasure_answered_iff_ends hw]
    constructor
    · rintro h ⟨u, hu, hcircle⟩
      exact (h.reached hu).irreflexive hcircle
    · intro h
      exact (ends_or_circle w t).resolve_right h
  refine ⟨answered, ?_⟩
  rintro ⟨n, s, w', h⟩
  refine answered.1 ⟨n, ?_⟩
  let _ : Answers := ⟨answer n⟩
  replace h := bind_rest (get_run w) h
  rw [descriptorIn] at h
  obtain ⟨u, w₁, hu, -⟩ := bind_ok h
  exact ⟨u, w₁, hu⟩

/-- The class `Object` and the type variables of a declaration `A<T extends U, U extends T>`. -/
def mutualBounds : World where
  types := #[{}, { shape := .declared { origin := .missing, name := "Object" } },
    { shape := .variable { name := "T", rank := 0, bounds := [⟨3⟩] } },
    { shape := .variable { name := "U", rank := 1, bounds := [⟨2⟩] } }]
  wellKnown := ({} : Std.HashMap Text TypeId).insert "java.lang.Object" ⟨1⟩

theorem mutualBounds_isLoaded : mutualBounds.IsLoaded where
  found := by
    rintro ⟨n⟩
    match n with
    | 0 | 1 | 2 | 3 => rfl
    | n + 4 => rfl
  object := ⟨⟨1⟩, Std.HashMap.getElem?_insert_self⟩

/-- A variable bounded by one that it bounds has no erasure. -/
theorem erasure_answered_iff_mutual : mutualBounds.IsLoaded ∧
    mutualBounds.Leads ⟨2⟩ ⟨3⟩ ∧ mutualBounds.Leads ⟨3⟩ ⟨2⟩ ∧
      ¬ ∃ n u w', answer n (.erasure ⟨2⟩) mutualBounds = .ok u w' := by
  have stays (t : TypeId) : mutualBounds.standsFor t = t :=
    standsFor_self Std.HashMap.getElem?_empty
  have there : mutualBounds.Leads ⟨2⟩ ⟨3⟩ := by
    unfold Leads leading?
    rw [stays]
    rfl
  have back : mutualBounds.Leads ⟨3⟩ ⟨2⟩ := by
    unfold Leads leading?
    rw [stays]
    rfl
  refine ⟨mutualBounds_isLoaded, there, back, fun h => ?_⟩
  have circle : Relation.TransGen mutualBounds.Leads ⟨2⟩ ⟨2⟩ := .tail (.single there) back
  exact (erasure_answered_iff mutualBounds_isLoaded ⟨2⟩).1.1 h ⟨⟨2⟩, .refl, circle⟩

end Lookup

end Javelin
