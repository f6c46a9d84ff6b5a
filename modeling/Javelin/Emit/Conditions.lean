import Javelin.Emit.Members

/-!
# Conditions

A condition is compiled to jumps. `branch` jumps to a label if the condition has the wanted value
and falls through otherwise. -/

namespace Javelin.Emit

open Bytecode

variable [Answers] [Generator]

/-- Whether an expression is the null literal. -/
def isNullLiteral (x : Expr) : Emitting Bool := do return (← Lookup.shape (← typeOf x)).isNull

/-- The branch on the result of a comparison with zero. -/
def comparisonBranch : Operator → Opcode
  | .eq => .ifeq
  | .ne => .ifne
  | .lt => .iflt
  | .ge => .ifge
  | .gt => .ifgt
  | .le => .ifle
  | _ => 0

/-- Jumps if a truth value on the stack is the wanted one. -/
def branchOnValue (target : LabelId) (wanted : Bool) : Emitting Unit :=
  jump (if wanted then .ifne else .ifeq) target

/-- Jumps if a comparison of references has the wanted outcome. Comparisons with null have
instructions of their own. -/
def compareRefs (o : Opcode) (l r : Expr) (target : LabelId) : Emitting Unit := do
  let onNull : Opcode := if o == .ifeq then .ifnull else .ifnonnull
  if ← isNullLiteral r then
    Generator.value l
    jump onNull target
  else if ← isNullLiteral l then
    Generator.value r
    jump onNull target
  else
    Generator.value l
    Generator.value r
    jump (o + (Opcode.ifAcmpeq - Opcode.ifeq)) target

/-- Jumps if a comparison has the wanted outcome. A comparison of floating point numbers of which
one is no number must come out false. -/
def compare (i : Info) (o : Operator) (l r : Expr) (target : LabelId) (wanted : Bool) :
    Emitting Unit := do
  let branch := comparisonBranch o
  let branch := if wanted then branch else branch.negate
  let k ← kindOf (← convertedType l)
  if k == .ref then
    return ← compareRefs branch l r target
  Generator.value l
  let isLess := o == .lt || o == .le
  match k with
  | .int =>
    let zero := match ← constantOf r with
      | some (.boolean _) | none => false
      | some c => c.asInt == 0
    if zero then
      jump branch target
    else
      Generator.value r
      jump (branch + (Opcode.ifIcmpeq - Opcode.ifeq)) target
  | .long =>
    Generator.value r
    op .lcmp (-3)
    jump branch target
  | .float =>
    Generator.value r
    op (if isLess then .fcmpg else .fcmpl) (-1)
    jump branch target
  | .double =>
    Generator.value r
    op (if isLess then .dcmpg else .dcmpl) (-3)
    jump branch target
  | _ => unsupported i "comparisons of erroneous operands"

/-- Tests a value against a type and binds a variable if it fits. -/
def matchPattern (i : Info) (operand : Expr) (pattern : Expr) (target : LabelId) (wanted : Bool) :
    Emitting Unit := do
  match pattern with
  | .typePattern _ _ type name =>
    let t ← typeRef type
    let cls ← build (ClassFile.Builder.cls (← Lookup.binaryName (← Lookup.erasure t)))
    Generator.value operand
    let slot ← declare name t
    store .ref slot
    loadRef slot
    opIndex .instanceof 0 cls
    let bindVariable : Emitting Unit := do
      loadRef slot
      opIndex .checkcast 0 cls
      store .ref slot
    if wanted then
      let skip ← newLabel
      jump .ifeq skip
      bindVariable
      jump .goto target
      place skip
    else
      jump .ifeq target
      bindVariable
  | _ => unsupported i "record patterns"

/-- Jumps to a label if a condition has the wanted value. -/
def branchRule (x : Expr) (target : LabelId) (wanted : Bool) : Emitting Unit := do
  if let some c ← constantOf x then
    if c.isTrue == wanted then
      jump .goto target
    return
  let plainly : Emitting Unit := do
    Generator.value x
    branchOnValue target wanted
  match x.withoutParens with
  | .unary i .not y _ =>
    if (← convertedType y) == (← known (·.typeOf i)) then
      Generator.branch y target (!wanted)
    else
      plainly
  | .binary i o l r =>
    if o == .condAnd || o == .condOr then
      if (o == .condAnd) == wanted then
        let skip ← newLabel
        Generator.branch l skip (!wanted)
        Generator.branch r target wanted
        place skip
      else
        Generator.branch l target wanted
        Generator.branch r target wanted
    else if o.isComparison then
      compare i o l r target wanted
    else
      plainly
  | .instanceOf i y _ (some pattern) => matchPattern i y pattern target wanted
  | _ => plainly

/-- Pushes a condition as zero or one. -/
def conditionValue (x : Expr) : Emitting Unit := do
  let no ← newLabel
  let done ← newLabel
  Generator.branch x no false
  op (Opcode.iconst0 + 1) 1
  jump .goto done
  place no
  op .iconst0 1
  place done

/-- Pushes one of two values. -/
def choose (cond yes no : Expr) : Emitting Unit := do
  let other ← newLabel
  let done ← newLabel
  Generator.branch cond other false
  Generator.value yes
  jump .goto done
  place other
  Generator.value no
  place done

end Javelin.Emit
