import Javelin.Emit.Assignments
import Javelin.Emit.Switches

/-!
# Expressions

Pushes the values of expressions, or evaluates them for what they do. A constant expression is
pushed as its value.
-/

namespace Javelin.Emit

open Bytecode

variable [Answers] [Generator]

/-! ## Names and members -/

/-- Pushes the value of a field that was selected, after its object. -/
def readField (f : FieldId) (o : Opcode) (type : TypeId) : Emitting Unit := do
  fieldOp o f .none
  castResult (← Lookup.fieldEntry (← Lookup.fieldEntry f).root).type type

def pushName (i : Info) (n : Ident) : Emitting Unit := do
  match ← known (·.uses[n.info.id]?) with
  | some (.var l) => loadLocal l i
  | some (.field f) =>
    let f ← fieldAt i f
    let e ← Lookup.fieldEntry f
    let t ← known (·.typeOf i)
    if e.isStatic then
      readField f .getstatic t
    else
      loadEnclosing e.declaring i
      readField f .getfield t
  | _ => unsupported i "unresolved names"

def pushField (i : Info) (owner : Expr) : Emitting Unit := do
  let f ← fieldAt i .none
  if !f.isSome then
    unsupported i "unresolved fields"
  if ← Lookup.isArrayLength f then
    Generator.value owner
    op .arraylength 0
    return
  let t ← known (·.typeOf i)
  if (← Lookup.fieldEntry f).isStatic then
    dropQualifier owner
    readField f .getstatic t
  else
    receiver owner
    readField f .getfield t

/-- Pushes the object of a call; whether it is a call of a method of the superclass. -/
def callReceiver (i : Info) (target : Option Expr) (decl : TypeId) (isStatic : Bool) :
    Emitting Bool := do
  match target with
  | none =>
    unless isStatic do
      loadEnclosing decl i
    return false
  | some (.super j qualifier) =>
    if qualifier.isSome then
      unsupported j "qualified super calls"
    if isStatic then
      return false
    loadRef 0
    return true
  | some x =>
    if ← isValue x then
      Generator.value x
      if isStatic then
        pop (← kindOf (← typeOf x))
    return false

/-- Whether a call copies an array. -/
def isArrayClone (target : Option Expr) (e : MethodEntry) : Emitting Bool := do
  match target with
  | some x =>
    return e.name == "clone" && e.params.isEmpty && (← Lookup.shape (← typeOf x)).isArray
  | none => return false

def pushCall (i : Info) (target : Option Expr) (args : List Expr) : Emitting Unit := do
  let m ← methodAt i
  if !m.isSome then
    unsupported i "unresolved method calls"
  let e ← Lookup.methodEntry (← Lookup.methodEntry m).root
  let decl ← Lookup.declaration e.declaring
  let isSuper ← callReceiver i target decl e.isStatic
  arguments i args m
  let type ← known (·.typeOf i)
  if ← isArrayClone target e then
    let array ← match target with
      | some x => typeOf x
      | none => pure .none
    let owner ← Lookup.binaryName (← Lookup.erasure array)
    callMethod .invokevirtual 0 owner "clone" "()Ljava/lang/Object;"
    castResult (← Lookup.objectType) type
    return
  let isInterface := (← Lookup.shape decl).isInterface
  let owner ← Lookup.binaryName decl
  let descriptor ← Lookup.methodDescriptor m
  let (taken, result) := callWords descriptor
  let delta : Int := (result : Int) - taken
  useMethod m
  if e.isStatic then
    if isInterface then
      unsupported i "static interface method calls"
    callMethod .invokestatic delta owner e.name descriptor
  else if isSuper || (e.traits.has .private && decl == (← currentDraft).type) then
    if isSuper && isInterface then
      unsupported i "interface super calls"
    callMethod .invokespecial (delta - 1) owner e.name descriptor
  else if isInterface then
    callInterface (delta - 1) (taken + 1) owner e.name descriptor
  else
    callMethod .invokevirtual (delta - 1) owner e.name descriptor
  if result > 0 then
    castResult e.result type

/-! ## New objects -/

/-- Pushes the instance that encloses a new object. -/
def pushOuter (i : Info) (outer : Option Expr) (type : TypeId) : Emitting Unit := do
  match outer with
  | some x =>
    Generator.value x
    checkNull
  | none => loadEnclosing type i

/-- The class of an anonymous class body. -/
def anonymousClass (d : TypeDecl) (c : Creation) : Emitting ClassDraft := do
  let t ← known (·.localTypes.getD d.info.id .none)
  if t.isNone then
    unsupported d.info "unresolved anonymous classes"
  draft (← Generator.classOf d t true c)

def newAnonymous (i : Info) (outer : Option Expr) (args : List Expr) (d : TypeDecl) :
    Emitting Unit := do
  let c ← anonymousClass d (.expression i)
  opClass .newObject 1 c.name
  op .dup 1
  if c.outer.isSome then
    loadEnclosing c.outer i
  if c.superOuter.isSome then
    pushOuter i outer c.superOuter
  if c.superConstructor.isSome then
    arguments i args c.superConstructor
  for l in c.captured do
    loadLocal l i
  callMethod .invokespecial (-1 - (callWords c.descriptor).1) c.name "<init>" c.descriptor

def newObject (i : Info) (outer : Option Expr) (args : List Expr) : Emitting Unit := do
  let m ← methodAt i
  if !m.isSome then
    unsupported i "unresolved constructors"
  let decl ← Lookup.declaration (← Lookup.methodEntry m).declaring
  opClass .newObject 1 (← Lookup.binaryName decl)
  op .dup 1
  let enclosing ← outerOf decl
  if enclosing.isSome then
    pushOuter i outer enclosing
  arguments i args m
  for l in ((← draftOf? decl).map (·.captured)).getD [] do
    loadLocal l i
  callConstructor decl m

/-! ## Arrays -/

/-- Pushes an array with the given elements. -/
def arrayOf (i : Info) (elems : List Expr) (t : TypeId) : Emitting Unit := do
  let elem ← Lookup.elementType t
  if elem.isNone then
    unsupported i "array initializers of unknown type"
  pushNat elems.length
  newArrayOf (← Lookup.erasure elem)
  for (x, k) in elems.zipIdx do
    op .dup 1
    pushNat k
    Generator.initial x elem
    storeElement elem

def newArray (i : Info) (dims : List Expr) (init : Option Expr) : Emitting Unit := do
  let t ← known (·.typeOf i)
  match init with
  | some (.arrayInit j elems) => arrayOf j elems t
  | _ =>
    dims.forM Generator.value
    if dims.length > 1 then
      let cls ← build (ClassFile.Builder.cls (← Lookup.binaryName (← Lookup.erasure t)))
      opWith .multianewarray (1 - dims.length) (Assembly.bytes2 cls ++ [dims.length.toUInt8])
    else
      newArrayOf (← Lookup.erasure (← Lookup.elementType t))

/-! ## Operators -/

def pushClassLiteral (type : TypeNode) : Emitting Unit := do
  let t ← typeRef type
  let b ← basicType t
  if b == .undefined then
    loadEntry (← build (ClassFile.Builder.cls (← Lookup.binaryName (← Lookup.erasure t))))
  else
    accessField .getstatic 1 (boxName b) "TYPE" "Ljava/lang/Class;"

def pushUnary (x : Expr) (i : Info) (o : Operator) (operand : Expr) (isPostfix : Bool) :
    Emitting Unit := do
  match o with
  | .inc | .dec => step i o operand isPostfix true
  | .not => conditionValue x
  | .pos => Generator.value operand
  | .neg =>
    Generator.value operand
    op (.forKind .ineg (← kindOf (← typeOf x))) 0
  | .bitNot =>
    Generator.value operand
    if (← kindOf (← typeOf x)) == .long then
      opIndex .ldc2W 2 (← build (ClassFile.Builder.long (-1)))
      op (Opcode.ixor + 1) (-2)
    else
      op .iconstM1 1
      op .ixor (-1)
  | _ => unsupported i "erroneous operators"

/-- The operands of a chain of string additions, at most `n` long. -/
def concatOperandsIn : Nat → Expr → List Expr → Emitting (List Expr)
  | n + 1, x, rest => do
    match x with
    | .binary _ .add l r =>
      if (← isString (← typeOf x)) && (← constantOf x).isNone then
        concatOperandsIn n l (r :: rest)
      else
        return x :: rest
    | _ => return x :: rest
  | 0, x, rest => return x :: rest

/-- Pushes a string that is put together from parts. -/
def concatenate (x : Expr) : Emitting Unit := do
  opClass .newObject 1 builderName
  op .dup 1
  callMethod .invokespecial (-1) builderName "<init>" "()V"
  for y in ← concatOperandsIn ((← get).world.nextNode + 1) x [] do
    Generator.plain y
    appendValue (← typeOf y)
  finishString

def pushBinary (x : Expr) (i : Info) (o : Operator) (l r : Expr) : Emitting Unit := do
  if o == .condAnd || o == .condOr || o.isComparison then
    conditionValue x
  else if o == .add && (← isString (← typeOf x)) then
    concatenate x
  else
    Generator.value l
    Generator.value r
    if o.isShift && (← kindOf (← convertedType r)) == .long then
      op .l2i (-1)
    arithmetic i o (← kindOf (← typeOf x))

/-! ## Rules -/

/-- Pushes an expression in its own type. -/
def plainRule (x : Expr) : Emitting Unit := do
  if let some c ← constantOf x then
    return ← pushConstant c
  match x with
  | .paren _ y | .cast _ _ y =>
    Generator.plain y
    coerce (← typeOf y) (← typeOf x)
  | .literal i kind _ =>
    if kind != .null then
      unsupported i "malformed literals"
    op .aconstNull 1
  | .name i n => pushName i n
  | .field i owner _ => pushField i owner
  | .call i target _ _ args => pushCall i target args
  | .newObject i outer _ _ args body =>
    match body with
    | some d => newAnonymous i outer args d
    | none => newObject i outer args
  | .newArray i _ dims _ init => newArray i dims init
  | .arrayInit i elems => arrayOf i elems (← typeOf x)
  | .index _ array k =>
    Generator.value array
    Generator.value k
    loadElement (← typeOf x)
  | .unary i o y isPostfix => pushUnary x i o y isPostfix
  | .binary i o l r => pushBinary x i o l r
  | .assign i o target value => assign i o target value true
  | .conditional _ cond yes no => choose cond yes no
  | .instanceOf _ y type pattern =>
    if pattern.isSome then
      return ← conditionValue x
    Generator.value y
    opClass .instanceof 0 (← Lookup.binaryName (← typeRef type))
  | .this i qualifier =>
    if qualifier.isSome then
      return ← loadEnclosing (← typeOf x) i
    if (← get).body.isStatic then
      unsupported i "this in static contexts"
    loadRef 0
  | .classLit _ type => pushClassLiteral type
  | .switch _ selector cases => switchCode selector cases (← typeOf x)
  | .lambda i .. => unsupported i "lambda expressions"
  | .methodRef i .. => unsupported i "method references"
  | _ => unsupported x.info "erroneous expressions"

/-- Pushes an expression, converted to the type that its context expects. -/
def valueRule (x : Expr) : Emitting Unit := do
  let target ← convertedType x
  match ← constantOf x with
  | some c =>
    let b ← basicType target
    match if b == .undefined then none else c.castTo b with
    | some v => pushConstant v
    | none =>
      pushConstant c
      coerce (← typeOf x) target
  | none =>
    Generator.plain x
    coerce (← typeOf x) target

/-- Pushes the initial value of a variable of a type. -/
def initialRule (x : Expr) (t : TypeId) : Emitting Unit :=
  match x with
  | .arrayInit i elems => arrayOf i elems t
  | x => Generator.value x

/-- Evaluates an expression for what it does. -/
def effect (x : Expr) : Emitting Unit := do
  match x.withoutParens with
  | .assign i o target value => assign i o target value false
  | .unary i .inc y isPostfix => step i .inc y isPostfix false
  | .unary i .dec y isPostfix => step i .dec y isPostfix false
  | _ =>
    Generator.plain x
    pop (← kindOf (← typeOf x))

end Javelin.Emit
