import Javelin.Types.FromSource

/-!
# Findings, variables and deprecation

What resolving a body records about its nodes, and the variables that it declares.
-/

namespace Javelin

/-- The expression inside all parentheses. -/
def Expr.withoutParens : Expr → Expr
  | .paren _ x => x.withoutParens
  | x => x

/-- Whether an expression is a lambda or a method reference, possibly in parentheses. -/
def Expr.isFunction (x : Expr) : Bool :=
  match x.withoutParens with
  | .lambda .. | .methodRef .. => true
  | _ => false

namespace Lookup

/-! ## Findings -/

/-- The type found for an expression. -/
def typeOf (c : Context) (i : Info) : Lookup TypeId := do return (← findings c).typeOf i

/-- The value found for a constant expression. -/
def constantOf (c : Context) (i : Info) : Lookup (Option Constant) := do
  return (← findings c).constants[i.id]?

def setType (c : Context) (i : Info) (t : TypeId) : Lookup Unit :=
  modifyFindings c fun f => { f with types := f.types.insert i.id t }

def setTypeRef (c : Context) (i : Info) (t : TypeId) : Lookup Unit :=
  modifyFindings c fun f => { f with typeRefs := f.typeRefs.insert i.id t }

def setDef (c : Context) (i : Info) (s : Symbol) : Lookup Unit :=
  modifyFindings c fun f => { f with defs := f.defs.insert i.id s }

def setUse (c : Context) (i : Info) (s : Symbol) : Lookup Unit :=
  modifyFindings c fun f => { f with uses := f.uses.insert i.id s }

def setMethod (c : Context) (i : Info) (m : MethodId) : Lookup Unit :=
  modifyFindings c fun f => { f with methods := f.methods.insert i.id m }

def setField (c : Context) (i : Info) (x : FieldId) : Lookup Unit :=
  modifyFindings c fun f => { f with fields := f.fields.insert i.id x }

def setConstant (c : Context) (i : Info) (v : Constant) : Lookup Unit :=
  modifyFindings c fun f => { f with constants := f.constants.insert i.id v }

def setConversion (c : Context) (i : Info) (t : TypeId) : Lookup Unit :=
  modifyFindings c fun f => { f with conversions := f.conversions.insert i.id t }

def setLocalType (c : Context) (i : Info) (t : TypeId) : Lookup Unit :=
  modifyFindings c fun f => { f with localTypes := f.localTypes.insert i.id t }

/-! ## Variables -/

/-- The local variable of a name, up to the innermost class and out of lambdas. -/
def lookupLocal (name : Text) : Scope → Lookup LocalId
  | .unit _ | .type .. => return .none
  | .block p f => do
    match (← frame f).locals.lookup name with
    | some l => return l
    | none => lookupLocal name p
  | .method p m => do
    match (← frame m.frame).locals.lookup name with
    | some l => return l
    | none => if m.isLambda then lookupLocal name p else return .none

/-- A number for a new variable of a body. -/
def nextIndex (s : Scope) : Lookup Nat := do
  let some m := s.method? | return 0
  let n := (← get).bodies.getD m.body 0
  modify fun w => { w with bodies := w.bodies.modify m.body (· + 1) }
  return n

/-- Declares a variable in a scope; a second one of a name in the same body is a problem. -/
def declareVariable (c : Context) (s : Scope) (name : Ident) (type : TypeId) (isFinal : Bool)
    (isParam : Bool) : Lookup LocalId := do
  let l ← addLocal { name := name.name, type, isFinal, isParam, index := ← nextIndex s }
  unless name.name == "_" do
    if (← lookupLocal name.name s).isSome then
      report c .duplicateLocal name.info [name.name]
  if let some f := s.frame? then
    modifyFrame f fun e => { e with locals := (name.name, l) :: e.locals }
  setDef c name.info (.var l)
  return l

/-- Declares a variable that has a value from the start. -/
def declareInitialized (c : Context) (s : Scope) (name : Ident) (type : TypeId) (isFinal : Bool)
    (isParam : Bool) : Lookup LocalId := do
  let l ← declareVariable c s name type isFinal isParam
  modifyLocal l fun e => { e with isInitialized := true }
  return l

def newBody : Lookup Nat := do
  let i := (← get).bodies.size
  modify fun w => { w with bodies := w.bodies.push 0 }
  return i

/-- The scope of a method, initializer or field initializer. -/
def methodIn (s : Scope) (m : MethodScope) : Lookup Scope := do
  return .method s { m with frame := ← addFrame, body := ← newBody }

/-- The scope of a lambda, which counts its variables with those of the body around it. -/
def lambdaIn (s : Scope) (result : TypeId) : Lookup Scope := do
  match s.method? with
  | some m =>
    return .method s
      { method := m.method, isStatic := m.isStatic, isLambda := true, result
        frame := ← addFrame, body := m.body }
  | none => methodIn s { isLambda := true, result }

variable [Answers]

/-! ## Deprecation -/

/-- Reports the use of something deprecated from outside the type that declares it. -/
def checkDeprecated (c : Context) (at_ : Info) (traits : Traits) (kind name : Text)
    (place declaring : TypeId) : Lookup Unit := do
  if !traits.has .deprecated || place.isNone then
    return
  if (← outermost place) == (← outermost declaring) then
    return
  if (← shape place).traits.has .deprecated then
    return
  report c .deprecatedUse at_ [kind, name]

/-- The primitive type of a type or of what it wraps. -/
def primitiveOf (t : TypeId) : Lookup BasicType := do
  let p ← basicType t
  if p != .undefined then return p else basicType (← unboxed t)

def isString (t : TypeId) : Lookup Bool := do
  let s ← stringType
  return t.isSome && (← resolve t) == s

/-- Checks that a resolved expression can be assigned to a variable of a type, and notes the
conversion that it needs. -/
def coerce (c : Context) (i : Info) (target : TypeId) : Lookup Unit := do
  let source ← typeOf c i
  if source.isNone || target.isNone then
    return
  if ← orElse (isMissing source) (isMissing target) then
    return
  if ← isVoid source then
    report c .incompatibleTypes i ["void", ← typeName target]
    return
  unless ← isAssignable source target (← constantOf c i) do
    report c .incompatibleTypes i [← typeName source, ← typeName target]
    return
  if source != target then
    if ← orElse (isPrimitive source) (isPrimitive target) then
      setConversion c i target

/-- Notes the promotion of an operand. -/
def convert (c : Context) (i : Info) (t : BasicType) : Lookup Unit := do
  unless (← typeOf c i) == base t do
    setConversion c i (base t)

end Lookup

end Javelin
