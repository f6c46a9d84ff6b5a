import Javelin.Resolve.TypeNodes

/-!
# Names in expressions

A simple name is a local variable or a field, from the innermost scope outward. What stands to the
left of a dot may also be a type or a package: a variable is preferred to a type and a type to a
package.
-/

namespace Javelin.Lookup

variable [Answers]

/-! ## Variables -/

/-- A static field of a name among some types. -/
def staticFieldAmong (name : Text) : List TypeId → Lookup FieldId
  | [] => return .none
  | t :: ts => do
    let f ← findField t name
    if ← andAlso (pure f.isSome) do return (← fieldEntry f).isStatic then
      return f
    staticFieldAmong name ts

/-- The variable of a simple name, and whether a static context lies between the scope and the type
that declares it. -/
def findVariable (name : Text) (static : Bool) : Scope → Lookup (Option Symbol × Bool)
  | .block p f => do
    match (← frame f).locals.lookup name with
    | some l => return (some (.var l), false)
    | none => findVariable name static p
  | .method p m => do
    match (← frame m.frame).locals.lookup name with
    | some l => return (some (.var l), false)
    | none => findVariable name (static || (m.isStatic && !m.isLambda)) p
  | .type p t => do
    let f ← findField t name
    if f.isSome then
      return (some (.field f), static)
    findVariable name (static || (← shape t).traits.has .static) p
  | .unit u => do
    bindImports u
    let i := (← unitEntry u).imports
    let f ← staticFieldAmong name (i.staticSingle.getD name [] ++ i.staticTypes)
    return (if f.isSome then some (.field f) else none, false)

/-- Records the use of a field and checks that it is visible. -/
def useField (c : Context) (s : Scope) (x name : Info) (f : FieldId) : Lookup Unit := do
  let e ← fieldEntry f
  let place := s.currentType
  if ← andAlso (pure e.declaring.isSome) (notM (isVisible e.traits e.declaring place)) then
    report c .notVisible name ["field", e.name]
  checkDeprecated c name e.traits "field" ((← typeName e.declaring) ++ "." ++ e.name) place
    e.declaring
  setField c x f
  setUse c name (.field f)
  if let some v ← fieldConstant f then
    setConstant c x v

/-- The type of a simple name. -/
def nameType (c : Context) (s : Scope) (x : Info) (name : Ident) : Lookup TypeId := do
  let (sym, static) ← findVariable name.name false s
  match sym with
  | some (.var l) =>
    setUse c name.info (.var l)
    let e ← localEntry l
    if let some v := e.constant then
      setConstant c x v
    return e.type
  | some (.field f) =>
    if ← andAlso (pure static) do return !(← fieldEntry f).isStatic then
      report c .nonStaticFromStatic x ["field", name.name]
    useField c s x name.info f
    return (← fieldEntry f).type
  | _ =>
    report c .undefinedName x [name.name]
    return .none

/-- The type of a field of a value, or of a type if `static` is set. -/
def selectField (c : Context) (s : Scope) (x : Info) (name : Ident) (t : TypeId) (static : Bool) :
    Lookup TypeId := do
  if ← orElse (pure t.isNone) (isMissing t) then
    return .none
  if ← isPrimitive t then
    report c .undefinedField name.info [name.name]
    return .none
  let t ← if (← shape t).isParameterized then capture t else pure t
  let f ← findField t name.name
  unless f.isSome do
    report c .undefinedField name.info [name.name]
    return .none
  if ← andAlso (pure static) do return !(← fieldEntry f).isStatic then
    report c .nonStaticFromStatic name.info ["field", name.name]
  useField c s x name.info f
  return (← fieldEntry f).type

/-! ## Qualifiers -/

/-- Records the use of a type as a qualifier and checks that it is visible. -/
def useType (c : Context) (s : Scope) (name : Info) (t : TypeId) : Lookup Unit := do
  setUse c name (.type t)
  let place := s.currentType
  unless ← isTypeVisible t place do
    report c .notVisible name ["type", ← typeName t]
  checkDeprecated c name (← shape t).traits "type" (← typeName t) place t

/-- A value of a type, or an error if there is none. -/
def qualifierOf (t : TypeId) : Qualifier := if t.isNone then .error else .value t

/-- A field as a qualifier, with its type recorded. -/
def fieldQualifier (c : Context) (s : Scope) (x : Info) (name : Ident) (t : TypeId)
    (static : Bool) : Lookup Qualifier := do
  let f ← selectField c s x name t static
  setType c x f
  return qualifierOf f

/-- What an expression to the left of a dot is. -/
def qualifierRule (c : Context) (s : Scope) (x : Expr) : Lookup Qualifier := do
  match x with
  | .name _ name =>
    let (sym, _) ← findVariable name.name false s
    if sym.isSome then
      return .value (← ask (.expr c s x .none))
    let t ← lookupType name.name s
    if t.isSome then
      useType c s name.info t
      return .type t
    return .package name.name
  | .field _ (.super ..) _ => return .value (← ask (.expr c s x .none))
  | .field i target name =>
    match ← ask (.qualifier c s target) with
    | .error => return .error
    | .package p =>
      let full := p ++ "." ++ name.name
      match ← typeByName full with
      | some t =>
        useType c s name.info t
        return .type t
      | none => return .package full
    | .type t =>
      unless (← findField t name.name).isSome do
        let m ← memberType t name.name
        if m.isSome then
          useType c s name.info m
          return .type m
      fieldQualifier c s i name t true
    | .value t => fieldQualifier c s i name t false
  | _ => return qualifierOf (← ask (.expr c s x .none))

/-- The type of a field access. -/
def fieldType (c : Context) (s : Scope) (x : Info) (target : Expr) (name : Ident) :
    Lookup TypeId := do
  if let .super .. := target then
    let t ← ask (.expr c s target .none)
    return ← selectField c s x name t false
  match ← ask (.qualifier c s target) with
  | .error => return .none
  | .value t => selectField c s x name t false
  | .type t => selectField c s x name t true
  | .package p =>
    let full := p ++ "." ++ name.name
    if (← typeByName full).isSome then
      report c .undefinedName x [full]
    else
      report c .undefinedName target.info [p]
    return .none

/-! ## `this` and `super` -/

/-- The type that a qualifier of `this` or `super` names. -/
def qualifyingType (s : Scope) (q : QName) : Lookup TypeId := do
  let names := q.names
  let t ← lookupType (names.headD {}) s
  if t.isNone then
    return (← typeByName q.dotted).getD .none
  let mut t := t
  for n in names.drop 1 do
    t ← memberType t n
    if t.isNone then
      return .none
  return t

/-- The enclosing class with a given declaration, and whether a static context lies in between. -/
def enclosingInstance (decl : TypeId) (static : Bool) : Scope → Lookup (Option (TypeId × Bool))
  | .unit _ => return none
  | .block p _ => enclosingInstance decl static p
  | .method p m => enclosingInstance decl (static || (m.isStatic && !m.isLambda)) p
  | .type p t => do
    if (← declaration t) == decl then
      return some (t, static)
    enclosingInstance decl (static || (← shape t).traits.has .static) p

def thisType (c : Context) (s : Scope) (x : Info) (qualifier : Option QName) : Lookup TypeId := do
  let some q := qualifier
    | if s.isStatic then
        report c .thisInStaticContext x ["this"]
      return s.currentType
  let t ← qualifyingType s q
  match ← enclosingInstance (← declaration t) false s with
  | some (u, static) =>
    if static then
      report c .thisInStaticContext x ["this"]
    return u
  | none =>
    report c .undefinedName x [q.dotted ++ ".this"]
    return .none

/-- The type of `super`, or of an enclosing class or superinterface before `super`. -/
def superType (c : Context) (s : Scope) (x : Info) (qualifier : Option QName) :
    Lookup TypeId := do
  if s.isStatic then
    report c .thisInStaticContext x ["super"]
  let some q := qualifier | superclass s.currentType
  let t ← qualifyingType s q
  if t.isNone then
    report c .undefinedType q.info [q.dotted]
    return .none
  if ← isInterfaceType t then return t else superclass t

end Javelin.Lookup
