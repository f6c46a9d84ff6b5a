import Javelin.Proofs.Resolve.BinaryForms
import Javelin.Proofs.Resolve.PrefixForms
import Javelin.Resolve.Declarations

/-!
# The constants that are recorded for calculations

Resolving a calculation records a constant for some of its nodes. Every such constant has the type
that is recorded for the node, and it is the value of the expression there.

1. All calculations are resolved as they should, by induction on the number of steps.
2. What this says about the types and about the values of the recorded constants.
-/

namespace Javelin

open Run World

namespace Lookup

variable {told : Prop} {c : Context} {s : Scope} {x : Expr} {target t : TypeId} {w w' : World}

theorem denoting_answer (n : Nat) : @Denoting ⟨answer n⟩ := by
  intro c s j b t w w' hw h
  cases n with
  | zero => cases h
  | succ n =>
    let : Answers := ⟨answer n⟩
    change typeNodeRule c s (.primitive j b) w = _ at h
    unfold typeNodeRule at h
    obtain ⟨t', w₁, hdenotes, h⟩ := bind_ok h
    cases hdenotes
    obtain ⟨_, w₂, hset, h⟩ := bind_ok h
    cases h
    exact ⟨rfl, setTypeRef_noted hw hset⟩

theorem derived_calculation [Answers] (hA : Steady) (hD : Denoting) (hR : Resolving told)
    (hx : x.Calculation) (ht : Suits target x) (hp : Pending told c.isQuiet x w)
    (h : exprType c s x target w = .ok t w') : Derived told c.isQuiet x w w' t := by
  cases hx with
  | literal i raw hk => exact derived_literal hA hk hp h
  | paren i hy => exact derived_paren hR hy ht hp h
  | unary i p hop hy => exact derived_unary hA hR hop hy hp h
  | binary i op hy hz => exact derived_binary hA hR hy hz hp h
  | cast i j hb hy => exact derived_cast hA hD hR hb hy hp h
  | conditional i hx hy hz htest hsame =>
    exact derived_conditional hA hR hx hy hz htest hsame ht hp h

/-- One step: the type by the form of the expression, and a record of it. -/
theorem resolved_exprRule [Answers] (hA : Steady) (hD : Denoting) (hR : Resolving told)
    (hx : x.Calculation) (ht : Suits target x) (hp : Pending told c.isQuiet x w)
    (h : exprRule c s x target w = .ok t w') : Resolved told c.isQuiet x w w' t := by
  unfold exprRule at h
  dsimp only at h
  split at h
  · -- an expression that is nested too deeply has no type
    obtain ⟨_, w₁, -, h⟩ := bind_ok h
    cases h
  · obtain ⟨t', w₁, htype, h⟩ := bind_ok h
    replace h := bind_rest (setType_run _ x.info t' w₁) h
    cases h
    have hd := derived_calculation (c := { c with depth := c.depth + 1 }) hA hD hR hx ht hp htype
    exact hd.resolved hp

theorem resolving_answer (told : Prop) (n : Nat) : @Resolving ⟨answer n⟩ told := by
  induction n with
  | zero =>
    intro c s x target t w w' _ _ _ h
    cases h
  | succ n ih =>
    intro c s x target t w w' hx ht hp h
    let : Answers := ⟨answer n⟩
    exact resolved_exprRule (steady_answer n) (denoting_answer n) ih hx ht hp h

/-- A constant that is recorded for an expression in a calculation has the type that is recorded for
it, a primitive one. -/
theorem recorded_type {n : Nat} {y : Expr} {k : Constant} (hx : x.Calculation)
    (ht : Suits target x) (hw : w.Ready c.isQuiet) (hids : x.ids.Nodup) (hf : Fresh c.isQuiet w x)
    (h : answer n (.expr c s x target) w = .ok t w') (hy : y ∈ x.parts)
    (hk : (w'.constants c.isQuiet)[y.info.id]? = some k) :
    k.type.isPrimitive ∧ (w'.exprTypes c.isQuiet)[y.info.id]? = some (base k.type) := by
  have hp : Pending False c.isQuiet x w := ⟨False.elim, hw, hids, hf⟩
  obtain ⟨htype, hholds⟩ := (resolving_answer False n hx ht hp h).parts y hy k hk
  exact ⟨hholds.primitive, htype⟩

/-- A world without findings, in which the class of strings is known. -/
def blankWorld : World where
  wellKnown := Std.HashMap.emptyWithCapacity.insert "java.lang.String" ⟨11⟩

theorem blankWorld_ready : blankWorld.Ready false := by
  have hempty : ∀ t : TypeId, blankWorld.redirects[t]? = none := fun _ => Std.HashMap.getElem?_empty
  refine ⟨⟨fun b _ => hempty _, fun b hb => shape_firstTypes hb, ⟨11⟩, ?_, ?_⟩, nofun⟩
  · exact Std.HashMap.getElem?_insert_self
  · intro b hb
    cases b <;> decide

theorem blankWorld_fresh (x : Expr) : Fresh false blankWorld x :=
  fun _ _ => Std.HashMap.getElem?_empty

/-- The expression `-5`. -/
def minusFive : Expr := .unary { id := 1 } .neg (.literal { id := 2 } .int "5") false

/-- The minus gets the number of the digits, and the digits get the negated number. -/
theorem minusFive_run : ∃ w',
    answer 1 (.expr { unit := ⟨0⟩ } (.unit ⟨0⟩) minusFive .none) blankWorld = .ok (base .int) w' ∧
      (w'.constants false)[1]? = some (.int 5) ∧ (w'.constants false)[2]? = some (.int (-5)) := by
  let : Answers := ⟨answer 0⟩
  have hready := (blankWorld_ready.recordType 2 (base .int)).recordConstant 1 (.int 5)
  have hneg : negatedLiteral { unit := ⟨0⟩, depth := 1 } { id := 1 } (.literal { id := 2 } .int "5")
      { id := 2 } .int "5" blankWorld = .ok (base .int) (((blankWorld.recordType false 2
        (base .int)).recordConstant false 1 (.int 5)).recordConstant false 2 (.int (-5))) := by
    unfold negatedLiteral
    refine (bind_run (literalType_run rfl blankWorld)).trans ?_
    exact bind_run (basicType_base (b := .int) hready.settled rfl)
  refine ⟨_, bind_run hneg, ?_, Std.HashMap.getElem?_insert_self⟩
  exact Std.HashMap.getElem?_insert.trans Std.HashMap.getElem?_insert_self

theorem recorded_type_minusFive : ∃ w',
    answer 1 (.expr { unit := ⟨0⟩ } (.unit ⟨0⟩) minusFive .none) blankWorld = .ok (base .int) w' ∧
      (w'.constants false)[2]? = some (.int (-5)) ∧ BasicType.int.isPrimitive ∧
      (w'.exprTypes false)[2]? = some (base .int) := by
  obtain ⟨w', hrun, -, hk⟩ := minusFive_run
  have hcalc : minusFive.Calculation := .unary _ _ (.inr (.inl rfl)) (.literal _ _ rfl)
  exact ⟨w', hrun, hk, recorded_type (y := .literal { id := 2 } .int "5") hcalc (.inl rfl)
    blankWorld_ready (by decide) (blankWorld_fresh _) hrun (.tail _ List.mem_cons_self) hk⟩

/-- A constant that is recorded for an expression in a plain calculation is its value. -/
theorem recorded_value {n : Nat} {y : Expr} {k : Constant} (hx : x.Calculation) (hplain : x.Plain)
    (ht : Suits target x) (hw : w.Ready c.isQuiet) (hids : x.ids.Nodup) (hf : Fresh c.isQuiet w x)
    (h : answer n (.expr c s x target) w = .ok t w') (hy : y ∈ x.parts)
    (hk : (w'.constants c.isQuiet)[y.info.id]? = some k) :
    ∃ v, k.value? = some v ∧ y.value? = some v := by
  have hp : Pending True c.isQuiet x w := ⟨fun _ => hplain, hw, hids, hf⟩
  exact ((resolving_answer True n hx ht hp h).parts y hy k hk).2.value trivial

/-- The expression `(byte) 200`. -/
def narrowed : Expr :=
  .cast { id := 1 } (.primitive { id := 2 } .byte) (.literal { id := 3 } .int "200")

theorem narrowed_run : ∃ w',
    answer 2 (.expr { unit := ⟨0⟩ } (.unit ⟨0⟩) narrowed .none) blankWorld = .ok (base .byte) w' ∧
      (w'.constants false)[1]? = some (.byte (-56)) := by
  let : Answers := ⟨answer 1⟩
  let c : Context := { unit := ⟨0⟩, depth := 1 }
  let w₁ := blankWorld.noting false fun f => { f with typeRefs := f.typeRefs.insert 2 (base .byte) }
  let w₂ := (w₁.recordConstant false 3 (.int 200)).recordType false 3 (base .int)
  have hready : w₂.Ready false := ((blankWorld_ready.of_kept (kept_noting _ _ _)).recordConstant 3
    (.int 200)).recordType 3 (base .int)
  have hdenotes : resolveType c (.unit ⟨0⟩) (.primitive { id := 2 } .byte) blankWorld =
      .ok (base .byte) w₁ := rfl
  have hliteral : resolveExpr c (.unit ⟨0⟩) (.literal { id := 3 } .int "200") .none w₁ =
      .ok (base .int) w₂ := rfl
  have hconstant : constantOf c { id := 3 } w₂ = .ok (some (.int 200)) w₂ :=
    congrArg (EStateM.Result.ok · w₂) Std.HashMap.getElem?_insert_self
  have hcast : resolveCast c (.unit ⟨0⟩) { id := 1 } (.primitive { id := 2 } .byte)
      (.literal { id := 3 } .int "200") blankWorld =
        .ok (base .byte) (w₂.recordConstant false 1 (.byte (-56))) := by
    unfold resolveCast
    refine (bind_run hdenotes).trans ?_
    refine (bind_run hliteral).trans ?_
    refine (bind_run (isCastable_base hready.settled rfl rfl)).trans ?_
    refine (bind_run hconstant).trans ?_
    exact bind_run (basicType_base (b := .byte) hready.settled rfl)
  exact ⟨_, bind_run hcast, Std.HashMap.getElem?_insert_self⟩

theorem recorded_value_narrowed : ∃ w',
    answer 2 (.expr { unit := ⟨0⟩ } (.unit ⟨0⟩) narrowed .none) blankWorld = .ok (base .byte) w' ∧
      (w'.constants false)[1]? = some (.byte (-56)) ∧
      ∃ v, Constant.value? (.byte (-56)) = some v ∧ narrowed.value? = some v := by
  obtain ⟨w', hrun, hk⟩ := narrowed_run
  have hcalc : narrowed.Calculation := .cast _ _ rfl (.literal _ _ rfl)
  have hspelled : (Literal.magnitude .int "200").isSome := by decide
  have hplain : narrowed.Plain :=
    List.forall_mem_cons.2 ⟨rfl, List.forall_mem_singleton.2 hspelled⟩
  exact ⟨w', hrun, hk, recorded_value (y := narrowed) hcalc hplain (.inl rfl) blankWorld_ready
    (by decide) (blankWorld_fresh _) hrun List.mem_cons_self hk⟩

end Lookup

end Javelin
