import Javelin.Emit.Conditions

/-!
# Switches

A switch on numbers or on the ordinals of an enum whose source is known becomes one instruction;
strings and other enums are compared one after another. A switch expression keeps its value in a
variable until all of its cases have met.
-/

namespace Javelin.Emit

open Bytecode

/-- The name of the enum constant that a label of a switch denotes. -/
def enumLabel (x : Expr) : Text :=
  match x.withoutParens with
  | .name _ n => n.name
  | .field _ _ n => n.name
  | _ => {}

/-- Leaves the innermost scope. -/
def popScope : Emitting Unit := modifyBody fun b => { b with scopes := b.scopes.pop }

def pushScope (s : JumpScope) : Emitting Unit :=
  modifyBody fun b => { b with scopes := b.scopes.push s }

variable [Answers] [Generator]

/-- Gives up on labels that are not translated. -/
def checkLabels (cases : List SwitchCase) : Emitting Unit := do
  for c in cases do
    if c.guard.isSome then
      unsupported c.info "guarded switch labels"
    for l in c.labels do
      match l with
      | .typePattern .. | .recordPattern .. => unsupported l.info "pattern matching in switch"
      | _ => pure ()
      if ← isNullLiteral l then
        unsupported l.info "case null"

/-- The place of an enum constant in its declaration. -/
def ordinalOf (d : Declared) (x : Expr) : Emitting Nat := do
  let constants := (d.decl?.map TypeDecl.constants).getD []
  match constants.findIdx? (·.name.name == enumLabel x) with
  | some i => return i
  | none => unsupported x.info "unknown enum constants"

/-- Compares a string with the labels of each case. -/
def switchOnString (selector : Expr) (cases : List (SwitchCase × LabelId)) (other : LabelId) :
    Emitting Unit := do
  Generator.value selector
  let slot ← alloc 1
  store .ref slot
  loadRef slot
  callMethod .invokevirtual 0 "java/lang/String" "hashCode" "()I"
  pop .int
  for (c, l) in cases do
    for x in c.labels do
      let text := ((← constantOf x).map Constant.render).getD "<not a constant>"
      loadRef slot
      pushString text
      callMethod .invokevirtual (-1) "java/lang/String" "equals" "(Ljava/lang/Object;)Z"
      jump .ifne l
  jump .goto other

/-- Compares an enum constant with those of each case. -/
def switchOnConstants (selector : Expr) (owner descriptor : Text)
    (cases : List (SwitchCase × LabelId)) (other : LabelId) : Emitting Unit := do
  Generator.value selector
  let slot ← alloc 1
  store .ref slot
  loadRef slot
  callMethod .invokevirtual 0 "java/lang/Enum" "ordinal" "()I"
  pop .int
  for (c, l) in cases do
    for x in c.labels do
      loadRef slot
      accessField .getstatic 1 owner (enumLabel x) descriptor
      jump .ifAcmpeq l
  jump .goto other

/-- Jumps to the case of the selector; the keys of the cases, unless the jump is done. -/
def dispatch (selector : Expr) (cases : List (SwitchCase × LabelId)) (other : LabelId) :
    Emitting (List (Int32 × LabelId)) := do
  let t ← typeOf selector
  let decl ← Lookup.declaration t
  let d := (← Lookup.shape decl).declaredD
  if ← isString t then
    switchOnString selector cases other
    return []
  if d.traits.has .enum && d.isSource then
    Generator.value selector
    callMethod .invokevirtual 0 d.binaryName "ordinal" "()I"
    let keys ← cases.mapM fun (c, l) => c.labels.mapM fun x => do
      return (Int32.ofNat (← ordinalOf d x), l)
    return keys.flatten
  if d.traits.has .enum then
    switchOnConstants selector d.binaryName (← Lookup.descriptor decl) cases other
    return []
  Generator.value selector
  coerce t (Lookup.base .int)
  let keys ← cases.mapM fun (c, l) => c.labels.mapM fun x => do
    match ← constantOf x with
    | some k => return (k.asInt, l)
    | none => unsupported x.info "non-constant case labels"
  return keys.flatten

/-- The statements of one case. -/
def caseBody (c : SwitchCase) (result : Option (Nat × ValueKind)) (done : LabelId) :
    Emitting Unit := do
  match c.isArrow, result, c.body with
  | true, some (slot, k), [.expr i x] =>
    line i
    Generator.value x
    store k slot
    jump .goto done
  | _, _, body =>
    body.forM (Generator.stmt [])
    if c.isArrow then
      if ← isReachable then
        jump .goto done

/-- A switch statement, or a switch expression with a type. -/
def switchCode (selector : Expr) (cases : List SwitchCase) (type : TypeId) : Emitting Unit := do
  let isExpression := type.isSome
  checkLabels cases
  let done ← newLabel
  let labeled ← cases.mapM fun c => do return (c, ← newLabel)
  let default? := (labeled.filter (·.1.isDefault)).getLast?.map Prod.snd
  let other ← match default? with
    | some l => pure l
    | none => if isExpression then newLabel else pure done
  let kind ← kindOf type
  let slot ← if isExpression then alloc kind.size else pure 0
  let keys ← dispatch selector labeled other
  if ← isReachable then
    let sorted := keys.mergeSort fun a b => a.1 ≤ b.1
    modifyCode (·.switchOn sorted other)
  pushScope { kind := if isExpression then .switchExpr else .switch
              breakTo := done, result := slot, resultType := type }
  for (c, l) in labeled do
    place l
    caseBody c (if isExpression then some (slot, kind) else none) done
  popScope
  if isExpression && default?.isNone then
    place other
    opClass .newObject 1 "java/lang/IncompatibleClassChangeError"
    op .dup 1
    callMethod .invokespecial (-1) "java/lang/IncompatibleClassChangeError" "<init>" "()V"
    op .athrow (-1)
  place done
  if isExpression then
    load kind slot

end Javelin.Emit
