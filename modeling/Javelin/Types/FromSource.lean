import Javelin.Parse.Recovery
import Javelin.Types.FromClass
import Javelin.Types.Overload
import Javelin.Types.Scopes

/-!
# Types from source

The types of a source file are made in steps: the declarations, then supertypes and bounds, then
members, each at the first need. Local and anonymous classes are made when the body around them is
resolved.

1. Declarations.
2. Supertypes.
3. Members, those that the compiler supplies included.
4. Checks that need complete types: unimplemented methods and the bounds of type arguments.
5. Source files.
-/

namespace Javelin

/-- The node to blame for a problem with a type declaration: its name, if it has one. -/
def TypeDecl.nameInfo (d : TypeDecl) : Info := (d.name.map Ident.info).getD d.info

/-- Bytes that continue the name of a tag in a doc comment. -/
def isTagByte (b : UInt8) : Bool :=
  b == '_' || b == '-' || b == '.' || ('0' ≤ b && b ≤ '9') || ('a' ≤ b && b ≤ 'z') ||
    ('A' ≤ b && b ≤ 'Z')

/-- Whether a doc comment has the block tag that deprecates what it describes. -/
def isDeprecatedDoc : Option Comment → Bool
  | none => false
  | some c => (c.text.split '\n').any fun line =>
    let line := line.trimLeft fun b => b == ' ' || b == '\t' || b == '*' || b == '/'
    line.startsWith "@deprecated" &&
      match line.get? 11 with
      | some b => !isTagByte b
      | none => true

namespace Lookup

variable [Answers]

def resolveType (c : Context) (s : Scope) (n : TypeNode) : Lookup TypeId := ask (.typeNode c s n)

/-! ## Declarations -/

/-- The class that counts the local classes inside a class, at most `n` steps outward. -/
def localOwner : Nat → TypeId → Lookup TypeId
  | 0, t => return t
  | n + 1, t => do
    let (id, s) ← view t
    let d := s.declaredD
    if d.isLocal && d.enclosing.isSome then localOwner n d.enclosing else return id

/-- The names in class files and in source of a new type. -/
def newNames (package : Text) (d : TypeDecl) (enclosing : TypeId) : Lookup (Text × Text) := do
  let name := d.nameText
  match ← shape enclosing with
  | .absent =>
    return (inPackage package name, if package.isEmpty then name else package ++ "." ++ name)
  | outer =>
    let outer := outer.declaredD
    unless d.isLocal || d.isAnonymous do
      return (outer.binaryName ++ "$" ++ name, outer.qualified ++ "." ++ name)
    let top ← localOwner (← get).types.size enclosing
    let n := (← get).localCounts.getD top 0 + 1
    modify fun w => { w with localCounts := w.localCounts.insert top n }
    let binary := (← shape top).declaredD.binaryName ++ "$" ++ Text.ofNat n ++ name
    return (binary, if d.isAnonymous then binary.dotted else name)

/-- The traits that the kind and the place of a declaration imply. -/
def impliedTraits (d : TypeDecl) (outer : Shape) : Traits :=
  let byKind : Traits := match d.kind with
    | .cls => {}
    | .interface => .ofList [.interface, .abstract]
    | .annot => .ofList [.interface, .abstract, .annot]
    | .enum => Traits.enum.addIf (d.constants.all (·.body.isNone)) .final
    | .record => .ofList [.record, .final]
  let isMember := !outer.isAbsent && !(d.isLocal || d.isAnonymous)
  ((byKind.addIf (isMember && outer.isInterface) (.ofList [.public, .static])).addIf
    (isMember && d.kind != .cls) .static).addIf d.isAnonymous .final

/-- Makes the type of a declaration known under its names; a second type of a name is a problem. -/
def registerType (u : UnitId) (d : TypeDecl) (t outer : TypeId) : Lookup Unit := do
  let e := (← entry t).shape.declaredD
  let isKnown ← match (← get).byBinaryName[e.binaryName]? with
    | some prev => do pure (← shape prev).declaredD.isSource
    | none => pure false
  if isKnown then
    report { unit := u } .duplicateType d.nameInfo [e.qualified]
    return
  modify fun w => { w with byBinaryName := w.byBinaryName.insert e.binaryName t }
  let (oid, o) ← view outer
  if o.isAbsent || (!e.isLocal && (← get).byName[o.declaredD.qualified]? == some oid) then
    modify fun w => { w with byName := w.byName.insert e.qualified t }

/-- The type of a declaration with its member types, nested at most `n` deep. -/
def declareIn (u : UnitId) : Nat → TypeDecl → TypeId → Lookup TypeId
  | 0, _, _ => return .none
  | n + 1, d, enclosing => do
    if let some t := (← get).typeOfDecl[d.info.id]? then
      return t
    let package := (← unitEntry u).package
    let outer ← shape enclosing
    let (binaryName, qualified) ← newNames package d enclosing
    let isLocal := d.isLocal || d.isAnonymous
    let traits := ((Traits.ofModifiers d.modifiers).addIf (isDeprecatedDoc d.doc) .deprecated).union
      (impliedTraits d outer)
    let t ← addType <| .declared
      { origin := .source u d, name := d.nameText, package, qualified, binaryName, traits
        kind := d.kind, enclosing, isLocal, isAnonymous := d.isAnonymous }
    modify fun w => { w with typeOfDecl := w.typeOfDecl.insert d.info.id t }
    registerType u d t enclosing
    unless isLocal do
      modifyUnit u fun e => { e with types := e.types ++ [t] }
    for (p, i) in d.typeParams.zipIdx do
      let v ← addVariable p.name.name i t .none
      modifyDeclared t fun e => { e with typeVars := e.typeVars ++ [v] }
    let mut seen : List Text := []
    for m in d.members.filterMap Member.type? do
      let k ← declareIn u n m t
      if seen.contains m.nameText then
        report { unit := u } .duplicateType m.nameInfo [(← entry k).shape.declaredD.qualified]
      seen := m.nameText :: seen
      modifyDeclared t fun e => { e with memberTypes := e.memberTypes ++ [k] }
    return t

/-- The type of a declaration with its member types. -/
def declare (u : UnitId) (d : TypeDecl) (enclosing : TypeId) : Lookup TypeId :=
  declareIn u walkLimit d enclosing

/-! ## Supertypes -/

/-- Whether a type reaches another one through the supertypes known so far, and the types seen. -/
def inheritsFromIn (target : TypeId) : Nat → List TypeId → TypeId → Lookup (Bool × List TypeId)
  | 0, seen, _ => return (false, seen)
  | n + 1, seen, t => do
    let id ← declaration t
    if id == target then
      return (true, seen)
    if id.isNone || seen.contains id then
      return (false, seen)
    let mut seen := id :: seen
    ensureSupertypes id
    let d := (← shape id).declaredD
    for up in (if d.superclass.isSome then [d.superclass] else []) ++ d.interfaces do
      let (found, s) ← inheritsFromIn target n seen up
      if found then
        return (true, s)
      seen := s
    return (false, seen)

def inheritsFrom (t target : TypeId) : Lookup Bool := do
  return (← inheritsFromIn target walkLimit [] t).1

/-- Gives type variables the bounds that are written. -/
def resolveBounds (c : Context) (s : Scope) (vars : List TypeId) (params : List TypeParam) :
    Lookup Unit := do
  for (v, p) in vars.zip params do
    for b in p.bounds do
      let b ← resolveType c s b
      modifyVariable v fun e => { e with bounds := e.bounds ++ [b] }

/-- The superclass that is written, if the type may extend it. -/
def checkedSuperclass (c : Context) (s : Scope) (t : TypeId) (n : TypeNode) :
    Lookup (Option TypeId) := do
  let up ← resolveType c s n
  let sh ← shape up
  let name := (← entry t).shape.declaredD.qualified
  if sh.isAbsent || sh.isMissing then
    return none
  unless ← isClassType up do
    report c .superclassMustBeClass n.info [← typeName up, name]
    return none
  if ← inheritsFrom up t then
    report c .cyclicInheritance n.info [name]
    return none
  if (← declarationShape up).traits.has .final then
    report c .extendsFinal n.info [name, ← typeName up]
  return some up

/-- A superinterface that is written, if the type may have it. -/
def checkedInterface (c : Context) (s : Scope) (t : TypeId) (n : TypeNode) :
    Lookup (Option TypeId) := do
  let up ← resolveType c s n
  let sh ← shape up
  let name := (← entry t).shape.declaredD.qualified
  if sh.isAbsent || sh.isMissing then
    return none
  unless ← isInterfaceType up do
    report c .superinterfaceMustBeInterface n.info [← typeName up, name]
    return none
  if ← inheritsFrom up t then
    report c .cyclicInheritance n.info [name]
    return none
  return some up

def setSuperclass (t up : TypeId) : Lookup Unit :=
  modifyDeclared t fun d => { d with superclass := up }

def addInterface (t up : TypeId) : Lookup Unit :=
  modifyDeclared t fun d => { d with interfaces := d.interfaces ++ [up] }

/-- Resolves the bounds and supertypes of a source type. -/
def resolveSupertypes (u : UnitId) (t : TypeId) (d : TypeDecl) : Lookup Unit := do
  let c : Context := { unit := u }
  let s ← declScope t
  resolveBounds c s (← entry t).shape.typeVars d.typeParams
  let object ← objectType
  match d.kind with
  | .enum => setSuperclass t (← parameterize (← wellKnown "java.lang.Enum") [t] .none)
  | .record => setSuperclass t (← wellKnown "java.lang.Record")
  | .interface => setSuperclass t object
  | .annot =>
    setSuperclass t object
    addInterface t (← wellKnown "java.lang.annotation.Annotation")
  | .cls =>
    unless t == object do
      setSuperclass t object
    if let some n := d.superclass then
      if let some up ← checkedSuperclass c s t n then
        setSuperclass t up
  for n in d.interfaces do
    if let some up ← checkedInterface c s t n then
      addInterface t up

/-! ## Members -/

/-- The type of a parameter, its dimensions included; none if it is not written. -/
def paramType (c : Context) (s : Scope) (p : Param) : Lookup TypeId := do
  let some n := p.type | return .none
  let mut t ← resolveType c s n
  for _ in List.range (p.dims + if p.varargs then 1 else 0) do
    unless ← isVoid t do
      t ← array t 1
  return t

/-- Adds a field to a type; a second one of a name is a problem. -/
def declareField (c : Context) (f : FieldEntry) (at_ : Info) : Lookup FieldId := do
  let d := (← entry f.declaring).shape.declaredD
  if ← anyM (fun g => do return (← fieldEntry g).name == f.name) d.fields then
    report c .duplicateField at_ [d.qualified, f.name]
  let id ← addField f
  modifyDeclared f.declaring fun d => { d with fields := d.fields ++ [id] }
  return id

def appendMethod (m : MethodEntry) : Lookup MethodId := do
  let id ← addMethod m
  modifyDeclared m.declaring fun d => { d with methods := d.methods ++ [id] }
  return id

/-- The fields that are written in a type. -/
def resolveFields (c : Context) (s : Scope) (t : TypeId) (d : TypeDecl) : Lookup Unit := do
  for k in d.constants do
    let traits := (Traits.ofList [.public, .static, .final, .enum]).addIf (isDeprecatedDoc k.doc)
      .deprecated
    let _ ← declareField c
      { name := k.name.name, declaring := t, traits, type := t, constant := .known none }
      k.name.info
  for p in d.components do
    let type ← paramType c s p
    let _ ← declareField c
      { name := p.name.name, declaring := t, traits := .ofList [.private, .final], type
        constant := .known none } p.name.info
  let isInterface := (← entry t).shape.isInterface
  for f in d.members.filterMap Member.field? do
    let traits := ((Traits.ofModifiers f.modifiers).addIf isInterface
      (.ofList [.public, .static, .final])).addIf (isDeprecatedDoc f.doc) .deprecated
    let type ← resolveType c s f.type
    for v in f.vars do
      let constant := if traits.has .final && v.init.isSome then .unknown else .known none
      let fieldType ← array type v.dims
      if type == base .void then
        report c .voidValue v.name.info [v.name.name]
      let id ← declareField c
        { name := v.name.name, declaring := t, traits, type := fieldType, decl := some v
          constant } v.name.info
      modify fun w => { w with fieldOfDecl := w.fieldOfDecl.insert v.info.id id }

/-- The traits of a method that is written. -/
def methodTraits (m : MethodDecl) (inInterface : Bool) : Traits :=
  let ts := (Traits.ofModifiers m.modifiers).addIf (isDeprecatedDoc m.doc) .deprecated
  if inInterface then
    (ts.addIf (!ts.has .private) .public).addIf
      (m.body.isNone && !ts.has (.ofList [.static, .private])) .abstract
  else ts

/-- The type parameters of a method that is written. -/
def declareTypeParams (id : MethodId) (params : List TypeParam) : Lookup Unit := do
  for (p, i) in params.zipIdx do
    let v ← addVariable p.name.name i .none id
    modifyMethod id fun e => { e with typeVars := e.typeVars ++ [v] }

/-- Adds a method that is written to its type. -/
def resolveMethod (c : Context) (s : Scope) (t : TypeId) (owner : TypeDecl) (m : MethodDecl) :
    Lookup MethodId := do
  let traits := methodTraits m (← entry t).shape.isInterface
  let id ← appendMethod
    { name := if m.isConstructor then "<init>" else m.name.name, declaring := t, traits
      isConstructor := m.isConstructor, decl := some m }
  modify fun w => { w with methodOfDecl := w.methodOfDecl.insert m.info.id id }
  declareTypeParams id m.typeParams
  let vars := (← methodEntry id).typeVars
  let s := Scope.method s { method := id, isStatic := traits.has .static, typeVars := vars }
  resolveBounds c s vars m.typeParams
  let result ← match m.isConstructor, m.result with
    | true, _ => pure (base .void)
    | false, none => do
      report c .missingReturnType m.name.info []
      pure (base .void)
    | false, some r => do array (← resolveType c s r) m.dims
  modifyMethod id fun e => { e with result }
  let params := if m.isCompact then owner.components else m.params
  for (p, i) in params.zipIdx do
    let type ← paramType c s p
    let isLast := p.varargs && i + 1 == params.length
    modifyMethod id fun e =>
      { e with params := e.params ++ [type], paramNames := e.paramNames ++ [p.name.name]
               traits := e.traits.addIf isLast .varargs }
  for x in m.throws do
    let x ← resolveType c s x
    modifyMethod id fun e => { e with throws := e.throws ++ [x] }
  if m.body.isNone then
    unless traits.has (.ofList [.abstract, .native]) || m.isCompact do
      report c .methodBodyRequired m.name.info []
  else if traits.has .abstract then
    report c .abstractMethodWithBody m.name.info []
  return id

/-- The accessors and the canonical constructor that a record does not declare itself. -/
def completeRecord (c : Context) (s : Scope) (t : TypeId) (d : TypeDecl) : Lookup Unit := do
  let types ← d.components.mapM (paramType c s)
  let names := d.components.map (·.name.name)
  let isDeclared := fun name params => do
    anyM (fun m => do
      let e ← methodEntry m
      andAlso (pure (e.name == name)) (sameErasures e.params params))
      (← entry t).shape.declaredD.methods
  for (name, type) in names.zip types do
    unless ← isDeclared name [] do
      let _ ← appendMethod
        { name, declaring := t, traits := .ofList [.public, .synthetic], result := type }
  unless ← isDeclared "<init>" types do
    let _ ← appendMethod
      { name := "<init>", declaring := t, traits := .ofList [.public, .synthetic]
        params := types, paramNames := names, result := base .void, isConstructor := true }

/-- Reports the methods of a type that have the name and parameter erasures of an earlier one. -/
def checkDuplicateMethods (c : Context) (t : TypeId) : Lookup Unit := do
  let d := (← entry t).shape.declaredD
  for (m, i) in d.methods.zipIdx do
    let e ← methodEntry m
    if let some decl := e.decl then
      let isDuplicate ← anyM (fun k => do
        let f ← methodEntry k
        andAlso (pure (f.name == e.name)) (sameErasures e.params f.params)) (d.methods.take i)
      if isDuplicate then
        let name := if e.isConstructor then d.name else e.name
        report c .duplicateMethod decl.name.info
          [name ++ "(" ++ (← typeNames e.params) ++ ")", d.name]

/-- Resolves the members of a source type. -/
def resolveMembers (u : UnitId) (t : TypeId) (d : TypeDecl) : Lookup Unit := do
  let c : Context := { unit := u }
  let s ← declScope t
  resolveFields c s t d
  let mut hasConstructor := false
  for m in d.members.filterMap Member.method? do
    let _ ← resolveMethod c s t d m
    hasConstructor := hasConstructor || m.isConstructor
  match d.kind with
  | .enum =>
    let _ ← appendMethod
      { name := "values", declaring := t, traits := .ofList [.public, .static, .synthetic]
        result := ← array t 1 }
    let _ ← appendMethod
      { name := "valueOf", declaring := t, traits := .ofList [.public, .static, .synthetic]
        result := t, params := [← stringType] }
  | .record => completeRecord c s t d
  | _ => pure ()
  let e := (← entry t).shape.declaredD
  if !hasConstructor && !e.traits.has .interface && !e.isAnonymous && d.kind != .record then
    let access := if d.kind == .enum then Traits.private
      else e.traits.inter (.ofList [.public, .protected, .private])
    let _ ← appendMethod
      { name := "<init>", declaring := t, traits := access.union .synthetic
        result := base .void, isConstructor := true }
  checkDuplicateMethods c t

/-! ## Completion on demand -/

/-- Makes the supertypes of a declared type known. -/
def supertypesRule (t : TypeId) : Lookup Unit := do
  let (id, s) ← view t
  let .declared d := s | return
  if d.progress.hasSupertypes || d.progress.inSupertypes then
    return
  modifyDeclared id fun d => { d with progress := { d.progress with inSupertypes := true } }
  match d.origin with
  | .source u td => resolveSupertypes u id td
  | .binary f signature => readSupertypes id f signature
  | .missing => pure ()
  modifyDeclared id fun d =>
    { d with progress := { d.progress with inSupertypes := false, hasSupertypes := true } }

/-- Makes the members of a declared type known. -/
def membersRule (t : TypeId) : Lookup Unit := do
  let (id, s) ← view t
  let .declared d := s | return
  if d.progress.hasMembers then
    return
  ensureSupertypes id
  modifyDeclared id fun d => { d with progress := { d.progress with hasMembers := true } }
  match d.origin with
  | .source u td => resolveMembers u id td
  | .binary f _ => readMembers id f
  | .missing => pure ()

/-! ## Local classes -/

/-- The type of a local or anonymous class in a body. The supertypes of an anonymous one are set
later. -/
def declareLocal (u : UnitId) (d : TypeDecl) (s : Scope) : Lookup TypeId := do
  let t ← declare u d s.currentType
  modify fun w => { w with scopes := w.scopes.insert t (.type s t) }
  let e := (← entry t).shape.declaredD
  e.memberTypes.forM ensureSupertypes
  unless e.isAnonymous do
    ensureSupertypes t
  return t

/-- Sets the supertype of an anonymous class to the type it is created from. -/
def completeAnonymous (t up : TypeId) : Lookup Unit := do
  if (← entry t).shape.declaredD.progress.hasSupertypes then
    return
  modifyDeclared t fun d => { d with progress := { d.progress with hasSupertypes := true } }
  if up.isNone then
    setSuperclass t (← objectType)
  else if ← isInterfaceType up then
    setSuperclass t (← objectType)
    modifyDeclared t fun d => { d with interfaces := [up] }
  else
    setSuperclass t up
  (← entry t).shape.declaredD.memberTypes.forM ensureSupertypes

/-! ## Checks -/

/-- Whether a class has a method with a body for an abstract one. -/
def implements (t : TypeId) (m : MethodEntry) : Lookup Bool := do
  anyM (fun k => do
    let e ← methodEntry k
    andAlso (pure (!e.isAbstract && e.params.length == m.params.length))
      (sameErasures e.params m.params)) (← methods t m.name)

/-- The types seen and the methods already reported. -/
structure AbstractWalk where
  seen : List TypeId := []
  reported : List Text := []

/-- Reports the abstract methods of a supertype and the types above it that a class does not
implement. -/
def checkAbstractFrom (c : Context) (t : TypeId) (d : Declared) (at_ : Info) :
    Nat → AbstractWalk → TypeId → Lookup AbstractWalk
  | 0, w, _ => return w
  | n + 1, w, up => do
    let up ← resolve up
    if up.isNone || w.seen.contains up then
      return w
    let mut w := { w with seen := up :: w.seen }
    let decl ← declaration up
    ensureMembers decl
    for m in (← shape decl).declaredD.methods do
      let e ← methodEntry m
      if e.isAbstract && !e.isStatic then
        let k ← methodEntry (← methodOf up m)
        unless ← implements t k do
          let sig := e.name ++ "(" ++ (← typeNames k.params) ++ ")"
          unless w.reported.contains sig do
            w := { w with reported := sig :: w.reported }
            report c .unimplementedAbstractMethod at_
              [d.name, (← typeName k.declaring) ++ "." ++ sig]
    w ← checkAbstractFrom c t d at_ n w (← superclass up)
    for i in ← superInterfaces up do
      w ← checkAbstractFrom c t d at_ n w i
    return w

/-- Reports the abstract methods that a concrete class does not implement. -/
def checkAbstractMethods (c : Context) (t : TypeId) : Lookup Unit := do
  let (id, s) ← view t
  let .declared d := s | return
  let some decl := d.decl? | return
  if d.traits.has (.ofList [.interface, .abstract]) ||
      (d.kind == .enum && !d.traits.has .final) then
    return
  let mut w : AbstractWalk := {}
  w ← checkAbstractFrom c id d decl.nameInfo walkLimit w (← superclass id)
  for i in ← superInterfaces id do
    w ← checkAbstractFrom c id d decl.nameInfo walkLimit w i

/-- Reports a type argument that is not within a bound of its variable. -/
def checkBounds (check : BoundCheck) (generic : TypeId) (s : Substitution) (v arg : TypeId) :
    List TypeId → Lookup Unit
  | [] => return
  | b :: bs => do
    if ← isSubtype arg (← substitute s b) then
      checkBounds check generic s v arg bs
    else
      report { check.context with member := none } .typeArgumentMismatch check.node
        [← typeName arg, (← entry v).shape.name, ← typeName b, ← typeName generic]

/-- Checks the type arguments that were written since the last time. -/
def runBoundChecks : Lookup Unit := do
  let checks := (← get).boundChecks
  modify fun w => { w with boundChecks := #[] }
  for check in checks do
    let (id, s) ← view check.type
    if let .composite (.parameterized g _ _ false) := s then
      let (gid, _) ← view g
      ensureSupertypes gid
      let sub ← substitutionOf id
      let (args, _, _) ← parts id
      for (v, arg) in (← shape gid).typeVars.zip args do
        unless (← shape arg).isWildcard do
          checkBounds check gid sub v arg ((← shape v).bounds?.getD [])

/-! ## Source files -/

/-- Adds a source file and makes the types it declares known. -/
def addUnit (u : CompilationUnit) (isSilent : Bool) : Lookup UnitId := do
  let id : UnitId := ⟨(← get).units.size⟩
  let package := u.packageName
  modify fun w => { w with units := w.units.push { unit := u, isSilent, package } }
  unless package.isEmpty do
    modify fun w => { w with packages := w.packages.insert package }
  for d in u.types do
    let _ ← declare id d .none
  return id

/-- Completes the types of a source file, once. -/
def completeUnit (u : UnitId) : Lookup Unit := do
  if (← unitEntry u).isCompleted then
    return
  modifyUnit u fun e => { e with isCompleted := true }
  bindImports u
  let types := (← unitEntry u).types
  types.forM ensureSupertypes
  types.forM ensureMembers
  types.forM (checkAbstractMethods { unit := u })
  runBoundChecks

/-- Loads a source file that is not being compiled. -/
def acceptSource (f : SourceFile) : Lookup Unit := do
  let w ← get
  let r := Parse.unitOf f.contents { file := f.name, level := w.level, firstId := w.nextNode }
  modify fun w => { w with nextNode := r.nextId }
  completeUnit (← addUnit r.tree true)

/-- The type of the given name in class files, loaded if need be. A member type without a class file
of its own is found through the type around it. -/
def binaryTypeRule (name : Text) : Lookup (Option TypeId) := do
  if let some t := (← get).byBinaryName[name]? then
    let (id, s) ← view t
    return if s.isMissing then none else some id
  let compound := nameParts name
  match (← get).names.find? compound with
  | some (.binary f) => return some (← acceptBinary f)
  | some (.source f) =>
    acceptSource f
    return (← get).byBinaryName[name]?
  | none =>
    let last := compound.getLast?.getD {}
    match last.lastIdx? (· == '$') with
    | some (i + 1) =>
      let some outer ← binaryType (internalName (compound.dropLast ++ [last.take (i + 1)]))
        | return none
      let m ← memberType outer (last.drop (i + 2))
      return if m.isSome then some m else none
    | _ => return none

end Lookup

end Javelin
