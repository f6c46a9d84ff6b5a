import Javelin.Proofs.Types.Questions
import Javelin.Proofs.Resolve.Calculations

/-!
# What steps of resolving leave alone

Resolving an expression records the type and the value of each node. Between these records stand
steps that only note something else: reports, conversions, the types that type nodes denote.

1. `World.findingsOf`, the findings that work adds to, and `World.noting`, a change of them.
2. `World.Noted`: a step that leaves types and values alone.
3. Steps that only note something.
-/

namespace Javelin

open Run Lookup

/-! ## Findings -/

namespace World

/-- The findings of quiet or of ordinary work. -/
def findingsOf (w : World) (quiet : Bool) : Findings :=
  if quiet then w.trials.headD {} else w.findings

/-- The world after a change of the findings. -/
def noting (w : World) (quiet : Bool) (f : Findings → Findings) : World :=
  if quiet then
    { w with trials := match w.trials with
        | [] => []
        | t :: ts => f t :: ts }
  else { w with findings := f w.findings }

/-- The values found by quiet or by ordinary work. -/
def constants (w : World) (quiet : Bool) : Std.HashMap Nat Constant :=
  (w.findingsOf quiet).constants

/-- The types of expressions found by quiet or by ordinary work. -/
def exprTypes (w : World) (quiet : Bool) : Std.HashMap Nat TypeId := (w.findingsOf quiet).types

/-- A world in which work can be done: quiet work has findings to add to. -/
structure Ready (w : World) (quiet : Bool) : Prop where
  settled : w.Settled
  live : quiet → w.trials ≠ []

/-- Nothing but findings and reports has changed. -/
structure Kept (w w' : World) : Prop where
  types : w'.types = w.types
  redirects : w'.redirects = w.redirects
  wellKnown : w'.wellKnown = w.wellKnown
  trials : w'.trials = [] → w.trials = []

theorem Kept.refl (w : World) : Kept w w := ⟨rfl, rfl, rfl, id⟩

theorem Kept.trans {a b c : World} (h : Kept a b) (h' : Kept b c) : Kept a c :=
  ⟨h'.types.trans h.types, h'.redirects.trans h.redirects, h'.wellKnown.trans h.wellKnown,
    fun hc => h.trials (h'.trials hc)⟩

theorem Settled.kept_of {w w' : World} (hw : w.Settled) (h : Kept w w') : w'.Settled where
  kept := by rw [h.redirects]; exact hw.kept
  placed := by rw [h.types]; exact hw.placed
  strings := by rw [h.wellKnown]; exact hw.strings

theorem Ready.of_kept {w w' : World} {quiet : Bool} (hw : w.Ready quiet) (h : Kept w w') :
    w'.Ready quiet :=
  ⟨hw.settled.kept_of h, fun hq ht => hw.live hq (h.trials ht)⟩

theorem kept_noting (w : World) (quiet : Bool) (f : Findings → Findings) :
    Kept w (w.noting quiet f) := by
  cases quiet with
  | false => exact ⟨rfl, rfl, rfl, id⟩
  | true =>
    refine ⟨rfl, rfl, rfl, fun h => ?_⟩
    cases ht : w.trials with
    | nil => rfl
    | cons t ts => simp [noting, ht] at h

theorem findingsOf_noting {w : World} {quiet : Bool} (hw : w.Ready quiet)
    (f : Findings → Findings) : (w.noting quiet f).findingsOf quiet = f (w.findingsOf quiet) := by
  cases quiet with
  | false => rfl
  | true =>
    cases ht : w.trials with
    | nil => exact absurd ht (hw.live rfl)
    | cons t ts => simp [noting, findingsOf, ht]

/-! ## Steps that note something else -/

/-- A step that changes neither types nor values. -/
structure Noted (quiet : Bool) (w w' : World) : Prop where
  kept : Kept w w'
  constants : w'.constants quiet = w.constants quiet
  types : w'.exprTypes quiet = w.exprTypes quiet

theorem Noted.refl (quiet : Bool) (w : World) : Noted quiet w w := ⟨.refl w, rfl, rfl⟩

theorem Noted.trans {quiet : Bool} {a b c : World} (h : Noted quiet a b) (h' : Noted quiet b c) :
    Noted quiet a c :=
  ⟨h.kept.trans h'.kept, h'.constants.trans h.constants, h'.types.trans h.types⟩

theorem noted_noting {w : World} {quiet : Bool} (hw : w.Ready quiet) {f : Findings → Findings}
    (hc : ∀ x, (f x).constants = x.constants) (ht : ∀ x, (f x).types = x.types) :
    Noted quiet w (w.noting quiet f) where
  kept := kept_noting w quiet f
  constants := by rw [World.constants, findingsOf_noting hw, hc]; rfl
  types := by rw [exprTypes, findingsOf_noting hw, ht]; rfl

end World

namespace Lookup

open World

variable {c : Context} {i : Info} {w w' : World}

theorem modifyFindings_run (c : Context) (f : Findings → Findings) (w : World) :
    modifyFindings c f w = .ok () (w.noting c.isQuiet f) := rfl

theorem constantOf_run (c : Context) (i : Info) (w : World) :
    constantOf c i w = .ok (w.constants c.isQuiet)[i.id]? w := rfl

theorem typeOf_run (c : Context) (i : Info) (w : World) :
    typeOf c i w = .ok ((w.exprTypes c.isQuiet).getD i.id .none) w := rfl

theorem filed_noted {quiet silent : Bool} {p : Problem}
    (h : (if silent then pure () else modify fun w => { w with reports := w.reports.push p } :
      Lookup Unit) w = .ok () w') : Noted quiet w w' := by
  split at h
  · cases h
    exact .refl quiet w
  · cases h
    exact ⟨⟨rfl, rfl, rfl, id⟩, rfl, rfl⟩

theorem report_noted {id : Problem.Id} {args : List Text} (hw : w.Ready c.isQuiet)
    (h : report c id i args w = .ok () w') : Noted c.isQuiet w w' := by
  unfold report at h
  obtain ⟨u, w₀, hu, h⟩ := bind_ok h
  cases hu
  dsimp only at h
  split at h
  · cases hm : c.member with
    | some m =>
      rw [hm] at h
      replace h := bind_rest (modifyFindings_run c _ w) h
      refine .trans ?_ (filed_noted h)
      exact noted_noting hw (fun _ => rfl) fun _ => rfl
    | none =>
      rw [hm] at h
      exact filed_noted h
  · exact filed_noted h

theorem setConversion_noted {t : TypeId} (hw : w.Ready c.isQuiet)
    (h : setConversion c i t w = .ok () w') : Noted c.isQuiet w w' := by
  cases h
  exact noted_noting hw (fun _ => rfl) fun _ => rfl

theorem setTypeRef_noted {t : TypeId} (hw : w.Ready c.isQuiet)
    (h : setTypeRef c i t w = .ok () w') : Noted c.isQuiet w w' := by
  cases h
  exact noted_noting hw (fun _ => rfl) fun _ => rfl

theorem convert_noted [Answers] {t : BasicType} (hw : w.Ready c.isQuiet)
    (h : convert c i t w = .ok () w') : Noted c.isQuiet w w' := by
  unfold convert at h
  replace h := bind_rest (typeOf_run c i w) h
  split at h
  · cases h
    exact .refl _ _
  · exact setConversion_noted hw h

/-- A report that names a primitive type. -/
theorem complaint_noted [Answers] (hA : Steady) {β : Type} {b : BasicType} {id : Problem.Id}
    {f : Text → List Text} {rest : Lookup β} {y : β} (hw : w.Ready c.isQuiet)
    (hb : b.isPrimitive)
    (h : (do let s ← typeName (base b); report c id i (f s); rest) w = .ok y w') :
    ∃ w₁, Noted c.isQuiet w w₁ ∧ rest w₁ = .ok y w' := by
  obtain ⟨text, w₀, hname, hrest⟩ := bind_ok h
  obtain rfl := hA.name hw.settled hb hname
  obtain ⟨_, w₁, hreport, hrest⟩ := bind_ok hrest
  exact ⟨w₁, report_noted hw hreport, hrest⟩

/-- A report that names two primitive types. -/
theorem complaint_noted_two [Answers] (hA : Steady) {β : Type} {a b : BasicType} {id : Problem.Id}
    {f : Text → Text → List Text} {rest : Lookup β} {y : β} (hw : w.Ready c.isQuiet)
    (ha : a.isPrimitive) (hb : b.isPrimitive)
    (h : (do
      let s ← typeName (base a)
      let t ← typeName (base b)
      report c id i (f s t)
      rest) w = .ok y w') :
    ∃ w₁, Noted c.isQuiet w w₁ ∧ rest w₁ = .ok y w' := by
  obtain ⟨text, w₀, hname, hrest⟩ := bind_ok h
  obtain rfl := hA.name hw.settled ha hname
  exact complaint_noted hA (f := f text) hw hb hrest

/-- Coercing an expression of a primitive type to a primitive type. -/
theorem coerce_noted [Answers] (hA : Steady) {a b : BasicType} (hw : w.Ready c.isQuiet)
    (ha : a.isPrimitive) (hb : b.isPrimitive)
    (ht : (w.exprTypes c.isQuiet).getD i.id .none = base a)
    (h : coerce c i (base b) w = .ok () w') : Noted c.isQuiet w w' := by
  have hs := hw.settled
  have hmissing : orElse (isMissing (base a)) (isMissing (base b)) w = .ok false w :=
    (bind_run (isMissing_base hs ha)).trans (isMissing_base hs hb)
  have hprimitive : orElse (isPrimitive (base a)) (isPrimitive (base b)) w = .ok true w :=
    bind_run (isPrimitive_base hs ha)
  unfold coerce at h
  replace h := bind_rest (typeOf_run c i w) h
  rw [ht, BasicType.base_isNone ha, BasicType.base_isNone hb] at h
  replace h := bind_rest hmissing h
  replace h := bind_rest (isVoid_base hs ha) h
  replace h := bind_rest (constantOf_run c i w) h
  obtain ⟨fits, w₁, hfits, hrest⟩ := bind_ok h
  obtain rfl := isAssignable_base hA hs ha hb hfits
  cases fits with
  | false =>
    obtain ⟨w₂, hnoted, hend⟩ := complaint_noted_two hA (f := fun s t => [s, t]) hw ha hb hrest
    cases hend
    exact hnoted
  | true =>
    rw [if_pos rfl] at hrest
    split at hrest
    · replace hrest := bind_rest hprimitive hrest
      exact setConversion_noted hw hrest
    · cases hrest
      exact .refl _ _

end Lookup

end Javelin

/-!
# What is recorded while a calculation is resolved

The operands of a calculation are resolved one after another, then a constant may be recorded for
the calculation itself, and last its type. No step touches what the others have recorded.

1. `World.Recorded`: what is recorded for a node is right.
2. `Pending`, `Derived` and `Resolved`: an expression before it is resolved, before its type is
   recorded and after.
3. `Ahead`: some operands are resolved.
-/

namespace Javelin

open Lookup World

namespace World

/-- What is recorded for a node is the same in two worlds. -/
def Agree (quiet : Bool) (w w' : World) (id : Nat) : Prop :=
  (w'.constants quiet)[id]? = (w.constants quiet)[id]? ∧
    (w'.exprTypes quiet)[id]? = (w.exprTypes quiet)[id]?

/-- A constant that is recorded for an expression has the type that is recorded for it, and it is
the right one. -/
def Recorded (told : Prop) (quiet : Bool) (w : World) (x : Expr) : Prop :=
  ∀ k, (w.constants quiet)[x.info.id]? = some k →
    (w.exprTypes quiet)[x.info.id]? = some (base k.type) ∧ x.Holds told k

/-- Nothing has been recorded for the nodes of an expression. -/
def Fresh (quiet : Bool) (w : World) (x : Expr) : Prop :=
  ∀ id ∈ x.ids, (w.constants quiet)[id]? = none

/-- The world after a constant is recorded. -/
def recordConstant (w : World) (quiet : Bool) (id : Nat) (v : Constant) : World :=
  w.noting quiet fun f => { f with constants := f.constants.insert id v }

/-- The world after the type of an expression is recorded. -/
def recordType (w : World) (quiet : Bool) (id : Nat) (t : TypeId) : World :=
  w.noting quiet fun f => { f with types := f.types.insert id t }

variable {told : Prop} {quiet : Bool} {w w' w'' : World}

theorem Ready.recordConstant (hw : w.Ready quiet) (id : Nat) (v : Constant) :
    (w.recordConstant quiet id v).Ready quiet :=
  hw.of_kept (kept_noting _ _ _)

theorem Ready.recordType (hw : w.Ready quiet) (id : Nat) (t : TypeId) :
    (w.recordType quiet id t).Ready quiet :=
  hw.of_kept (kept_noting _ _ _)

theorem Agree.refl (w : World) (id : Nat) : Agree quiet w w id := ⟨rfl, rfl⟩

theorem Agree.trans {id : Nat} (h : Agree quiet w w' id) (h' : Agree quiet w' w'' id) :
    Agree quiet w w'' id :=
  ⟨h'.1.trans h.1, h'.2.trans h.2⟩

theorem Noted.agree (h : Noted quiet w w') (id : Nat) : Agree quiet w w' id :=
  ⟨by rw [h.constants], by rw [h.types]⟩

theorem Recorded.of_agree {x : Expr} (hx : Recorded told quiet w x)
    (h : Agree quiet w w' x.info.id) : Recorded told quiet w' x := by
  intro k hk
  rw [h.1] at hk
  rw [h.2]
  exact hx k hk

theorem constants_recordConstant (hw : w.Ready quiet) (id : Nat) (v : Constant) :
    (w.recordConstant quiet id v).constants quiet = (w.constants quiet).insert id v := by
  rw [World.constants, recordConstant, findingsOf_noting hw]
  rfl

theorem exprTypes_recordConstant (hw : w.Ready quiet) (id : Nat) (v : Constant) :
    (w.recordConstant quiet id v).exprTypes quiet = w.exprTypes quiet := by
  rw [exprTypes, recordConstant, findingsOf_noting hw]
  rfl

theorem constants_recordType (hw : w.Ready quiet) (id : Nat) (t : TypeId) :
    (w.recordType quiet id t).constants quiet = w.constants quiet := by
  rw [World.constants, recordType, findingsOf_noting hw]
  rfl

theorem exprTypes_recordType (hw : w.Ready quiet) (id : Nat) (t : TypeId) :
    (w.recordType quiet id t).exprTypes quiet = (w.exprTypes quiet).insert id t := by
  rw [exprTypes, recordType, findingsOf_noting hw]
  rfl

theorem agree_recordConstant (hw : w.Ready quiet) {id id' : Nat} (v : Constant) (h : id ≠ id') :
    Agree quiet w (w.recordConstant quiet id v) id' := by
  refine ⟨?_, by rw [exprTypes_recordConstant hw]⟩
  rw [constants_recordConstant hw, Std.HashMap.getElem?_insert, if_neg (by simpa using h)]

theorem agree_recordType (hw : w.Ready quiet) {id id' : Nat} (t : TypeId) (h : id ≠ id') :
    Agree quiet w (w.recordType quiet id t) id' := by
  refine ⟨by rw [constants_recordType hw], ?_⟩
  rw [exprTypes_recordType hw, Std.HashMap.getElem?_insert, if_neg (by simpa using h)]

end World

/-! ## Before and after -/

/-- A type for a calculation: none, or a primitive one of its kind. -/
def Suits (t : TypeId) (x : Expr) : Prop :=
  t = .none ∨ ∃ b : BasicType, b.isPrimitive ∧ t = base b ∧ (b = .boolean ↔ x.isTest)

theorem Suits.of_kind {t : TypeId} {x y : Expr} (h : Suits t x) (hsame : x.isTest = y.isTest) :
    Suits t y := by
  unfold Suits at h ⊢
  rwa [hsame] at h

/-- An expression that is still to be resolved. -/
structure Pending (told : Prop) (quiet : Bool) (x : Expr) (w : World) : Prop where
  plain : told → x.Plain
  ready : w.Ready quiet
  apart : x.ids.Nodup
  fresh : Fresh quiet w x

/-- What resolving an expression establishes before its type is recorded. -/
structure Derived (told : Prop) (quiet : Bool) (x : Expr) (w w' : World) (t : TypeId) : Prop where
  kept : Kept w w'
  others : ∀ id, id ∉ x.ids → Agree quiet w w' id
  suits : Suits t x
  inner : ∀ y ∈ x.inner, Recorded told quiet w' y
  here : ∀ k, (w'.constants quiet)[x.info.id]? = some k → t = base k.type ∧ x.Holds told k

/-- What resolving an expression establishes. -/
structure Resolved (told : Prop) (quiet : Bool) (x : Expr) (w w' : World) (t : TypeId) : Prop where
  kept : Kept w w'
  others : ∀ id, id ∉ x.ids → Agree quiet w w' id
  suits : Suits t x
  typed : (w'.exprTypes quiet)[x.info.id]? = some t
  parts : ∀ y ∈ x.parts, Recorded told quiet w' y

/-- Answers that resolve calculations as they should. -/
def Resolving [Answers] (told : Prop) : Prop :=
  ∀ {c : Context} {s : Scope} {x : Expr} {target t : TypeId} {w w' : World}, x.Calculation →
    Suits target x → Pending told c.isQuiet x w → resolveExpr c s x target w = .ok t w' →
    Resolved told c.isQuiet x w w' t

section

variable {told : Prop} {quiet : Bool} {x y : Expr} {w w' : World} {t : TypeId}

theorem Pending.id_ne (h : Pending told quiet x w) (hy : y ∈ x.inner) : x.info.id ≠ y.info.id :=
  fun heq => (List.nodup_cons.1 h.apart).1 (List.mem_map.2 ⟨y, hy, heq.symm⟩)

theorem Pending.blank (h : Pending told quiet x w) : (w.constants quiet)[x.info.id]? = none :=
  h.fresh _ List.mem_cons_self

theorem Derived.resolved (h : Derived told quiet x w w' t) (hx : Pending told quiet x w) :
    Resolved told quiet x w (w'.recordType quiet x.info.id t) t := by
  have hw' := hx.ready.of_kept h.kept
  have htyped : ((w'.recordType quiet x.info.id t).exprTypes quiet)[x.info.id]? = some t := by
    rw [exprTypes_recordType hw', Std.HashMap.getElem?_insert_self]
  refine ⟨h.kept.trans (kept_noting _ _ _), fun id hid => ?_, h.suits, htyped, fun y hy => ?_⟩
  · refine (h.others id hid).trans (agree_recordType hw' t ?_)
    rintro rfl
    exact hid List.mem_cons_self
  · rcases List.mem_cons.1 hy with rfl | hy
    · intro k hk
      rw [constants_recordType hw'] at hk
      obtain ⟨ht, hholds⟩ := h.here k hk
      exact ⟨htyped.trans (congrArg some ht), hholds⟩
    · exact (h.inner y hy).of_agree (agree_recordType hw' t (hx.id_ne hy))

/-- The constant of a resolved expression, if it has one. -/
theorem Resolved.constant {k : Constant} (h : Resolved told quiet x w w' t)
    (hk : (w'.constants quiet)[x.info.id]? = some k) : t = base k.type ∧ x.Holds told k := by
  obtain ⟨ht, hholds⟩ := h.parts x List.mem_cons_self k hk
  cases h.typed.symm.trans ht
  exact ⟨rfl, hholds⟩

/-- The constant of an expression of a primitive type has that type. -/
theorem Resolved.constant_type {b : BasicType} {k : Constant}
    (h : Resolved told quiet x w w' (base b)) (hb : b.isPrimitive)
    (hk : (w'.constants quiet)[x.info.id]? = some k) : k.type = b ∧ x.Holds told k := by
  obtain ⟨ht, hholds⟩ := h.constant hk
  exact ⟨(BasicType.base_inj hb hholds.primitive ht).symm, hholds⟩

end

/-! ## Operands -/

/-- Some operands are resolved. -/
structure Ahead (told : Prop) (quiet : Bool) (ys : List Expr) (w w' : World) : Prop where
  kept : Kept w w'
  others : ∀ id, (∀ y ∈ ys, id ∉ y.ids) → Agree quiet w w' id
  done : ∀ y ∈ ys, ∀ z ∈ y.parts, Recorded told quiet w' z

namespace Ahead

variable {told : Prop} {quiet : Bool} {x y : Expr} {ys rest : List Expr} {w w₁ w₂ : World}
  {t : TypeId}

theorem start (told : Prop) (quiet : Bool) (w : World) : Ahead told quiet [] w w :=
  ⟨.refl w, fun id _ => .refl w id, nofun⟩

theorem noted (h : Ahead told quiet ys w w₁) (hn : Noted quiet w₁ w₂) :
    Ahead told quiet ys w w₂ where
  kept := h.kept.trans hn.kept
  others id hid := (h.others id hid).trans (hn.agree id)
  done y hy z hz := (h.done y hy z hz).of_agree (hn.agree _)

/-- The operands before another one have other nodes. -/
theorem disjoint (ys : List Expr) (hx : x.ids.Nodup) (ho : x.operands = ys ++ y :: rest) :
    ∀ z ∈ ys, z.ids.Disjoint y.ids := by
  intro z hz
  have hpairs := (Expr.nodup_operands hx).2
  rw [ho] at hpairs
  exact (List.pairwise_append.1 hpairs).2.2 z hz y List.mem_cons_self

/-- The next operand can be resolved. -/
theorem pending (h : Ahead told quiet ys w w₁) (hx : Pending told quiet x w)
    (ho : x.operands = ys ++ y :: rest) : Pending told quiet y w₁ := by
  have hy : y ∈ x.operands := ho ▸ List.mem_append_right _ List.mem_cons_self
  have hinner : ∀ z ∈ y.parts, z ∈ x.inner := fun z hz => by
    rw [Expr.inner_eq]
    exact List.mem_flatMap.2 ⟨y, hy, hz⟩
  refine ⟨fun hp z hz => hx.plain hp z (.tail _ (hinner z hz)), hx.ready.of_kept h.kept,
    ((Expr.nodup_operands hx.apart).1 y hy).2, fun id hid => ?_⟩
  rw [(h.others id fun z hz hid' => disjoint ys hx.apart ho z hz hid' hid).1]
  obtain ⟨z, hz, rfl⟩ := List.mem_map.1 hid
  exact hx.fresh _ (List.mem_map_of_mem (.tail _ (hinner z hz)))

/-- The next operand is resolved. -/
theorem next (h : Ahead told quiet ys w w₁) (hx : Pending told quiet x w)
    (ho : x.operands = ys ++ y :: rest) (hy : Resolved told quiet y w₁ w₂ t) :
    Ahead told quiet (ys ++ [y]) w w₂ := by
  refine ⟨h.kept.trans hy.kept, fun id hid => ?_, fun a ha z hz => ?_⟩
  · rw [List.forall_mem_append, List.forall_mem_singleton] at hid
    exact (h.others id hid.1).trans (hy.others id hid.2)
  · rcases List.mem_append.1 ha with ha | ha
    · refine (h.done a ha z hz).of_agree (hy.others _ fun hid => ?_)
      exact disjoint ys hx.apart ho a ha (List.mem_map_of_mem hz) hid
    · cases List.mem_singleton.1 ha
      exact hy.parts z hz

theorem others_of (h : Ahead told quiet x.operands w w₁) {id : Nat} (hid : id ∉ x.ids) :
    Agree quiet w w₁ id := by
  rw [Expr.ids_eq, List.mem_cons, not_or] at hid
  exact h.others id fun y hy hid' => hid.2 (List.mem_flatMap.2 ⟨y, hy, hid'⟩)

theorem inner (h : Ahead told quiet x.operands w w₁) : ∀ y ∈ x.inner, Recorded told quiet w₁ y := by
  intro y hy
  rw [Expr.inner_eq] at hy
  obtain ⟨z, hz, hy⟩ := List.mem_flatMap.1 hy
  exact h.done z hz y hy

theorem blank (h : Ahead told quiet x.operands w w₁) (hx : Pending told quiet x w) :
    (w₁.constants quiet)[x.info.id]? = none := by
  rw [(h.others _ fun y hy => ((Expr.nodup_operands hx.apart).1 y hy).1).1]
  exact hx.blank

/-- No constant is recorded for the expression. -/
theorem derived (h : Ahead told quiet x.operands w w₁) (hx : Pending told quiet x w)
    (ht : Suits t x) : Derived told quiet x w w₁ t :=
  ⟨h.kept, fun _ => h.others_of, ht, h.inner, fun _ hk => nomatch (h.blank hx).symm.trans hk⟩

/-- A constant is recorded for the expression. -/
theorem record {k : Constant} (h : Ahead told quiet x.operands w w₁) (hx : Pending told quiet x w)
    (hk : x.Holds told k) :
    Derived told quiet x w (w₁.recordConstant quiet x.info.id k) (base k.type) := by
  have hw₁ := hx.ready.of_kept h.kept
  refine ⟨h.kept.trans (kept_noting _ _ _), fun id hid => ?_, .inr ⟨_, hk.primitive, rfl, hk.test⟩,
    fun y hy => (h.inner y hy).of_agree (agree_recordConstant hw₁ k (hx.id_ne hy)), fun v hv => ?_⟩
  · refine (h.others_of hid).trans (agree_recordConstant hw₁ k ?_)
    rintro rfl
    exact hid List.mem_cons_self
  · rw [constants_recordConstant hw₁, Std.HashMap.getElem?_insert_self] at hv
    cases hv
    exact ⟨rfl, hk⟩

end Ahead

namespace Lookup

theorem setConstant_run (c : Context) (i : Info) (v : Constant) (w : World) :
    setConstant c i v w = .ok () (w.recordConstant c.isQuiet i.id v) := rfl

theorem setType_run (c : Context) (i : Info) (t : TypeId) (w : World) :
    setType c i t w = .ok () (w.recordType c.isQuiet i.id t) := rfl

end Lookup

end Javelin
