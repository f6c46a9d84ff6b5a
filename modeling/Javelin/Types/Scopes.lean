import Javelin.Types.Members

/-!
# Type names in scope

A simple type name is looked up among local classes, type variables, member types of the enclosing
classes, imports, the package, imports on demand and finally `java.lang`.
-/

namespace Javelin.Lookup

/-- The internal name of a top-level type of a package. -/
def inPackage (package name : Text) : Text :=
  if package.isEmpty then name else package.slashed ++ "/" ++ name

def frame (i : Nat) : Lookup Frame := return (← get).frames.getD i {}

def modifyFrame (i : Nat) (f : Frame → Frame) : Lookup Unit :=
  modify fun w => { w with frames := w.frames.modify i f }

def addFrame : Lookup Nat := do
  let i := (← get).frames.size
  modify fun w => { w with frames := w.frames.push {} }
  return i

/-- A block inside a scope. -/
def blockIn (s : Scope) : Lookup Scope := return .block s (← addFrame)

def modifyImports (u : UnitId) (f : Imports → Imports) : Lookup Unit :=
  modifyUnit u fun e => { e with imports := f e.imports }

variable [Answers]

/-! ## Imports -/

/-- Brings what an import names into scope; whether it names anything. -/
def bindImport (u : UnitId) (d : ImportDecl) : Lookup Bool := do
  let dotted := d.name.dotted
  match d.isStatic, d.onDemand with
  | true, true =>
    let some t ← typeByName dotted | return false
    modifyImports u fun i => { i with staticTypes := i.staticTypes ++ [t] }
    return true
  | true, false =>
    let some t ← typeByName (Text.join "." d.name.names.dropLast) | return false
    let member := d.name.last
    modifyImports u fun i =>
      { i with staticSingle :=
          i.staticSingle.insert member (i.staticSingle.getD member [] ++ [t]) }
    let m ← memberType t member
    if m.isSome then
      modifyImports u fun i => { i with single := i.single.insert member m }
    return true
  | false, true =>
    if let some t ← typeByName dotted then
      modifyImports u fun i => { i with types := i.types ++ [t] }
      return true
    if ← isPackage dotted then
      modifyImports u fun i => { i with packages := i.packages ++ [dotted] }
      return true
    return false
  | false, false =>
    let some t ← typeByName dotted | return false
    modifyImports u fun i => { i with single := i.single.insert d.name.last t }
    return true

/-- Binds the imports of a file, once. -/
def bindImports (u : UnitId) : Lookup Unit := do
  let e ← unitEntry u
  if e.imports.isDone then
    return
  modifyImports u fun i => { i with isDone := true }
  for d in e.unit.imports do
    unless d.name.parts.isEmpty do
      unless ← bindImport u d do
        report { unit := u } .importNotFound d.name.info [d.name.dotted]

/-! ## Simple names -/

/-- The first member type of a name among some types. -/
def memberTypeAmong (name : Text) : List TypeId → Lookup TypeId
  | [] => return .none
  | t :: ts => do
    let m ← memberType t name
    if m.isSome then return m else memberTypeAmong name ts

/-- The first type of a name among some packages. -/
def typeAmongPackages (name : Text) : List Text → Lookup TypeId
  | [] => return .none
  | p :: ps => do
    match ← binaryType (inPackage p name) with
    | some t => return t
    | none => typeAmongPackages name ps

/-- A type by simple name at the level of a file. -/
def lookupTypeInUnit (u : UnitId) (name : Text) : Lookup TypeId := do
  bindImports u
  let e ← unitEntry u
  if let some t := e.imports.single[name]? then
    return t
  if let some t ← binaryType (inPackage e.package name) then
    return t
  let m ← memberTypeAmong name e.imports.types
  if m.isSome then
    return m
  typeAmongPackages name (e.imports.packages ++ [Text.ofString "java.lang"])

/-- A type by simple name, from a scope outward. -/
def lookupType (name : Text) : Scope → Lookup TypeId
  | .unit u => lookupTypeInUnit u name
  | .block p f => do
    match (← frame f).types.lookup name with
    | some t => return t
    | none => lookupType name p
  | .method p m => do
    let v ← variableAmong m.typeVars
    if v.isSome then return v else lookupType name p
  | .type p t => do
    let (id, s) ← view t
    let v ← variableAmong s.typeVars
    if v.isSome then
      return v
    let m ← memberType t name
    if m.isSome then
      return m
    let d := s.declaredD
    if d.name == name && (d.isLocal || d.enclosing.isNone) then return id else lookupType name p
where
  /-- The first of some type variables with the name. -/
  variableAmong : List TypeId → Lookup TypeId
    | [] => return .none
    | v :: vs => do if (← entry v).shape.name == name then return v else variableAmong vs

/-- The scope that the header and the body of a declared type see, for types nested at most `n`
deep. -/
def declScopeIn : Nat → TypeId → Lookup Scope
  | 0, _ => return .unit {}
  | n + 1, t => do
    if let some s := (← get).scopes[t]? then
      return s
    let d := (← entry t).shape.declaredD
    let unit := match d.origin with
      | .source u _ => u
      | _ => {}
    let parent ← if d.enclosing.isSome then declScopeIn n (← resolve d.enclosing)
      else pure (.unit unit)
    let s := Scope.type parent t
    modify fun w => { w with scopes := w.scopes.insert t s }
    return s

/-- The scope that the header and the body of a declared type see. -/
def declScope (t : TypeId) : Lookup Scope := do declScopeIn ((← get).types.size + 1) t

end Javelin.Lookup
