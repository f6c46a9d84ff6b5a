import Javelin.Emit.Members

/-!
# Assignments

An assignment first pushes what its target needs: nothing for a local variable or a static field,
the object for an instance field, the array and the index for an element. The value stays on the
stack below that if it is needed.
-/

namespace Javelin.Emit

open Bytecode

/-- A place that can be assigned, after what it needs was pushed. -/
inductive Target where
  | slot (n : Nat) (type : TypeId)
  | static (f : FieldId) (type : TypeId)
  | field (f : FieldId) (type : TypeId)
  | element (type : TypeId)
deriving Inhabited

namespace Target

def type : Target → TypeId
  | slot _ t | static _ t | field _ t | element t => t

/-- The words that the place needs. -/
def words : Target → Nat
  | slot .. | static .. => 0
  | field .. => 1
  | element _ => 2

end Target

/-- Whether an expression denotes a value and not a type or package. -/
def isValue (x : Expr) : Emitting Bool := known (·.types.contains x.info.id)

variable [Answers] [Generator]

/-- Pushes the object that a member is selected from. -/
def receiver (x : Expr) : Emitting Unit :=
  match x with
  | .super i qualifier =>
    if qualifier.isSome then unsupported i "qualified super access" else loadRef 0
  | x => Generator.value x

/-- Evaluates the expression before a static member, if it is one, and drops the value. -/
def dropQualifier (x : Expr) : Emitting Unit := do
  if ← isValue x then
    Generator.value x
    pop (← kindOf (← typeOf x))

/-- The field that an expression denotes: the one found for the node, or else the given one. -/
def fieldAt (i : Info) (other : FieldId) : Emitting FieldId := do
  let f ← known (·.fields.getD i.id .none)
  return if f.isSome then f else other

/-- Pushes what a target needs. -/
def targetOf (x : Expr) : Emitting Target := do
  match x.withoutParens with
  | .name i n =>
    match ← known (·.uses[n.info.id]?) with
    | some (.var l) =>
      match (← get).body.slots[l]? with
      | some slot => return .slot slot (← Lookup.localEntry l).type
      | none => unsupported i "assignments to captured variables"
    | some (.field f) =>
      let f ← fieldAt i f
      let e ← Lookup.fieldEntry f
      if e.isStatic then
        return .static f e.type
      loadEnclosing e.declaring i
      return .field f e.type
    | _ => unsupported x.info "assignments to erroneous targets"
  | .field i owner _ =>
    let f ← fieldAt i .none
    if !f.isSome || (← Lookup.isArrayLength f) then
      unsupported x.info "assignments to erroneous targets"
    let e ← Lookup.fieldEntry f
    if e.isStatic then
      dropQualifier owner
      return .static f e.type
    receiver owner
    return .field f e.type
  | .index _ array i =>
    Generator.value array
    Generator.value i
    return .element (← typeOf x)
  | _ => unsupported x.info "assignments to erroneous targets"

/-- Reads a target. -/
def loadTarget (t : Target) : Emitting Unit := do
  match t with
  | .slot n type => load (← kindOf type) n
  | .static f type =>
    fieldOp .getstatic f .none
    castResult (← Lookup.fieldEntry (← Lookup.fieldEntry f).root).type type
  | .field f type =>
    fieldOp .getfield f .none
    castResult (← Lookup.fieldEntry (← Lookup.fieldEntry f).root).type type
  | .element type => loadElement type

/-- Writes a target. -/
def storeTarget (t : Target) : Emitting Unit := do
  match t with
  | .slot n type => store (← kindOf type) n
  | .static f _ => fieldOp .putstatic f .none
  | .field f _ => fieldOp .putfield f .none
  | .element type => storeElement type

/-- Copies what a target needs, for a read before a write. -/
def dupTarget (t : Target) : Emitting Unit :=
  match t.words with
  | 1 => op .dup 1
  | 2 => op .dup2 2
  | _ => return

/-- Copies the value on the stack below what a target needs. -/
def dupValue (t : Target) (k : ValueKind) : Emitting Unit :=
  let isWide := k.size == 2
  let o : Opcode := match t.words with
    | 0 => if isWide then .dup2 else .dup
    | 1 => if isWide then .dup2X1 else .dupX1
    | _ => if isWide then .dup2X2 else .dupX2
  op o k.size

/-- The instruction of an operator on two values of a kind. -/
def arithmetic (at_ : Info) (o : Operator) (k : ValueKind) : Emitting Unit := do
  if k == .ref || k == .void then
    unsupported at_ "operators on erroneous operands"
  let size : Int := k.size
  let wide : UInt8 := if k == .long then 1 else 0
  match o with
  | .add => op (.forKind .iadd k) (-size)
  | .sub => op (.forKind .isub k) (-size)
  | .mul => op (.forKind .imul k) (-size)
  | .div => op (.forKind .idiv k) (-size)
  | .rem => op (.forKind .irem k) (-size)
  | .shl => op (Opcode.ishl + wide) (-1)
  | .shr => op (Opcode.ishr + wide) (-1)
  | .ushr => op (Opcode.iushr + wide) (-1)
  | .and => op (Opcode.iand + wide) (-size)
  | .or => op (Opcode.ior + wide) (-size)
  | .xor => op (Opcode.ixor + wide) (-size)
  | _ => unsupported at_ "erroneous operators"

/-! ## Building strings -/

def builderName : Text := "java/lang/StringBuilder"

/-- Appends a value of a type to the string builder below it. -/
def appendValue (t : TypeId) : Emitting Unit := do
  let b ← basicType t
  let arg : Text ← match b with
    | .byte | .short => pure "I"
    | .undefined => do
      if ← isString t then pure "Ljava/lang/String;" else pure "Ljava/lang/Object;"
    | b => pure (basicDescriptor b)
  callMethod .invokevirtual (-(kindOfBasic b).size) builderName "append"
    ("(" ++ arg ++ ")Ljava/lang/StringBuilder;")

def finishString : Emitting Unit :=
  callMethod .invokevirtual 0 builderName "toString" "()Ljava/lang/String;"

/-! ## The three forms -/

/-- Combines the value on the stack with another one as a compound assignment does. -/
def combine (at_ : Info) (o : Operator) (t : TypeId) (value : Expr) : Emitting Unit := do
  let vt ← typeOf value
  if o == .add && (← isString t) then
    callMethod .invokestatic 0 "java/lang/String" "valueOf" "(Ljava/lang/Object;)Ljava/lang/String;"
    opClass .newObject 1 builderName
    op .dupX1 1
    op .swap 0
    callMethod .invokespecial (-2) builderName "<init>" "(Ljava/lang/String;)V"
    Generator.plain value
    appendValue vt
    finishString
  else
    let l ← unwrapped t
    let r ← unwrapped vt
    let (a, b) :=
      if o.isShift then (l.promoted, r.promoted)
      else if l == .boolean then (.boolean, .boolean)
      else (l.promotedWith r, l.promotedWith r)
    let b := if b == .undefined then a else b
    if a == .undefined || b == .undefined then
      unsupported at_ "compound assignments of erroneous operands"
    coerce t (Lookup.base a)
    Generator.plain value
    coerce vt (Lookup.base b)
    if b == .long && o.isShift then
      op .l2i (-1)
    arithmetic at_ o (kindOfBasic a)
    coerce (Lookup.base a) t

/-- An assignment, with or without its value as a result. -/
def assign (i : Info) (o : Operator) (target value : Expr) (isNeeded : Bool) : Emitting Unit := do
  let t ← targetOf target
  let k ← kindOf t.type
  if o == .assign then
    Generator.initial value t.type
  else
    dupTarget t
    loadTarget t
    combine i o.binary t.type value
  if isNeeded then
    dupValue t k
  storeTarget t

/-- Pushes the number one. -/
def pushOne : ValueKind → Emitting Unit
  | .long => op (Opcode.lconst0 + 1) 2
  | .float => op (Opcode.fconst0 + 1) 1
  | .double => op (Opcode.dconst0 + 1) 2
  | _ => op (Opcode.iconst0 + 1) 1

/-- An increment or decrement, with or without its value as a result. -/
def step (i : Info) (o : Operator) (operand : Expr) (isPostfix isNeeded : Bool) :
    Emitting Unit := do
  let t ← targetOf operand
  let basic ← basicType t.type
  match t, basic with
  | .slot n _, .int =>
    if isNeeded && isPostfix then
      load .int n
    modifyCode (·.increment n (o == .inc))
    if isNeeded && !isPostfix then
      load .int n
  | t, _ =>
    let k ← kindOf t.type
    dupTarget t
    loadTarget t
    if isNeeded && isPostfix then
      dupValue t k
    let b := (← unwrapped t.type).promoted
    if b == .undefined then
      unsupported i "increments of erroneous operands"
    coerce t.type (Lookup.base b)
    pushOne (kindOfBasic b)
    arithmetic i (if o == .inc then .add else .sub) (kindOfBasic b)
    coerce (Lookup.base b) t.type
    if isNeeded && !isPostfix then
      dupValue t k
    storeTarget t

end Javelin.Emit
