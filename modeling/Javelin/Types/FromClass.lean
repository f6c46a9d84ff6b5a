import Javelin.ClassFile.Descriptor
import Javelin.Types.Subtyping

/-!
# Types from class files

A class file becomes a type at its first mention; its supertypes and members are read when they are
needed. The types that it names stay placeholders until someone looks at them. Where a generic
signature cannot be read, the descriptor is used instead.
-/

namespace Javelin

/-- A constant of the pool as the value of a field: an integer is taken for the type that the
descriptor names. -/
def Constant.ofPool (c : Constant) (descriptor : Text) : Constant :=
  match c with
  | .int v =>
    if descriptor == "Z" then .boolean (v != 0)
    else if descriptor == "B" then .byte v.toInt8
    else if descriptor == "C" then .char v.toInt16.toUInt16
    else if descriptor == "S" then .short v.toInt16
    else .int v
  | .float b => .ofFloatBits b
  | c => c

/-- The kind of declaration that a class file holds. -/
def ClassFile.typeKind (f : ClassFile) : TypeKind :=
  if f.flags.has .annot then .annot
  else if f.flags.has .interface then .interface
  else if f.flags.has .enum then .enum
  else if f.superName == "java/lang/Record" then .record
  else .cls

namespace Lookup

/-- The parts of an internal name. -/
def nameParts (internal : Text) : List Text := internal.split '/'

/-! ## Types in signatures and descriptors -/

/-- The first of some type variables with a name. -/
def variableNamed (name : Text) : List TypeId → Lookup TypeId
  | [] => return .none
  | v :: vs => do if (← entry v).shape.name == name then return v else variableNamed name vs

/-- The type that a descriptor names. -/
def ofDescriptor (d : Descriptor.Field) : Lookup TypeId := do
  match d.element with
  | .primitive t => array (base t) d.depth
  | .cls name => do array (← reference (nameParts name)) d.depth

/-- References to the exceptions that a method declares. -/
def exceptionReferences (names : List Text) : Lookup (List TypeId) :=
  names.mapM fun n => reference (nameParts n)

variable [Answers]

mutual

/-- The type that a signature names, where the given type variables are in scope, the innermost
first. -/
def ofSignature (vars : List TypeId) : Signature.TypeSig → Lookup TypeId
  | .primitive t => return base t
  | .variable name => do
    let v ← variableNamed name vars
    if v.isSome then return v else objectType
  | .array elem => do array (← ofSignature vars elem) 1
  | .cls c => ofClassSignature vars c

def ofClassSignature (vars : List TypeId) : Signature.ClassSig → Lookup TypeId
  | .mk name args outer => do
    let generic ← reference (nameParts name)
    let outer ← ofOuterSignature vars outer
    let args ← ofArgSignatures vars args
    if args.isEmpty then return generic else parameterize generic args outer

def ofOuterSignature (vars : List TypeId) : Option Signature.ClassSig → Lookup TypeId
  | none => return .none
  | some c => ofClassSignature vars c

def ofArgSignatures (vars : List TypeId) : List Signature.ArgSig → Lookup (List TypeId)
  | [] => return []
  | a :: as => do
    let t ← ofArgSignature vars a
    return t :: (← ofArgSignatures vars as)

def ofArgSignature (vars : List TypeId) : Signature.ArgSig → Lookup TypeId
  | .exact t => ofSignature vars t
  | .unbounded => wildcard .none .unbounded
  | .upper t => do wildcard (← ofSignature vars t) .upper
  | .lower t => do wildcard (← ofSignature vars t) .lower

end

/-- Gives type variables the bounds of a signature. -/
def readBounds (own : List TypeId) (params : List Signature.ParamSig) (vars : List TypeId) :
    Lookup Unit := do
  for (v, p) in own.zip params do
    let bounds ← (p.classBound.toList ++ p.interfaceBounds).mapM (ofSignature vars)
    modifyVariable v fun e => { e with bounds := e.bounds ++ bounds }
    noteMembers v ((← entry v).shape.bounds?.getD [])
where
  /-- Notes a type at the placeholders among the types it mentions. -/
  noteMembers (v : TypeId) (ts : List TypeId) : Lookup Unit := noteMember (.type v) ts

/-- The type variables that the members of a class may mention: its own and those of the classes
whose instances enclose it. -/
def classVariables : Nat → TypeId → Lookup (List TypeId)
  | 0, _ => return []
  | n + 1, t => do
    let d := (← entry t).shape.declaredD
    if d.enclosing.isNone || d.traits.has .static then
      return d.typeVars
    return d.typeVars ++ (← classVariables n (← resolve d.enclosing))

/-! ## Loading -/

/-- The type of a class file. -/
def acceptBinary (f : ClassFile) : Lookup TypeId := do
  let internal := f.name
  if let some t := (← get).byBinaryName[internal]? then
    return t
  let (package, simple) := match internal.lastIdx? (· == '/') with
    | some i => ((internal.take i).dotted, internal.drop (i + 1))
    | none => ({}, internal)
  let kind := f.typeKind
  let kept := (Traits.addIf {} f.isDeprecated .deprecated).addIf (kind == .record) .record
  let signature := if f.signature.isEmpty then none
    else (Signature.OfClass.ofText f.signature).toOption
  let t ← addType <| .declared
    { origin := .binary f signature, name := simple, package, qualified := internal.dotted
      binaryName := internal, traits := (Traits.ofAccess f.flags).union kept, kind }
  modify fun w => { w with byBinaryName := w.byBinaryName.insert internal t }
  if let some own := f.ownInnerClass? then
    modifyDeclared t fun d =>
      { d with name := own.simpleName, traits := (Traits.ofAccess own.flags).union kept }
    if own.outer.isEmpty then
      modifyDeclared t fun d =>
        { d with isLocal := true, isAnonymous := own.simpleName.isEmpty }
    else if let some outer ← binaryType own.outer then
      let around := (← shape outer).declaredD.qualified
      modifyDeclared t fun d =>
        { d with enclosing := outer, qualified := around ++ "." ++ d.name }
  let qualified := (← entry t).shape.declaredD.qualified
  modify fun w => { w with byName := w.byName.insert qualified t }
  if let some s := signature then
    for (p, i) in s.params.zipIdx do
      let v ← addVariable p.name i t .none
      modifyDeclared t fun d => { d with typeVars := d.typeVars ++ [v] }
  return t

/-- Reads the supertypes of a class file. -/
def readSupertypes (t : TypeId) (f : ClassFile) (signature : Option Signature.OfClass) :
    Lookup Unit := do
  let vars ← classVariables (← get).types.size t
  match signature with
  | some s =>
    readBounds (← entry t).shape.typeVars s.params vars
    if f.superClass != 0 then
      let up ← ofClassSignature vars s.superclass
      modifyDeclared t fun d => { d with superclass := up }
    for i in s.interfaces do
      let i ← ofClassSignature vars i
      modifyDeclared t fun d => { d with interfaces := d.interfaces ++ [i] }
  | none =>
    unless f.superName.isEmpty do
      let up ← reference (nameParts f.superName)
      modifyDeclared t fun d => { d with superclass := up }
    for i in f.interfaceNames do
      let i ← reference (nameParts i)
      modifyDeclared t fun d => { d with interfaces := d.interfaces ++ [i] }
  let d := (← entry t).shape.declaredD
  noteMember (.type t) (d.superclass :: d.interfaces)

/-- Reads a field; nothing if its type cannot be read. -/
def readField (t : TypeId) (f : ClassFile) (vars : List TypeId) (m : ClassFile.Member) :
    Lookup Unit := do
  let signature := m.signature f.pool
  let descriptor := if signature.isEmpty then m.descriptorText f.pool else signature
  let .ok sig := Signature.TypeSig.ofText descriptor | return
  let type ← ofSignature vars sig
  let traits := (Traits.ofAccess m.flags).addIf (m.isDeprecated f.pool) .deprecated
  let value := if traits.has .static && traits.has .final then
      (m.constantValue? f.pool).map (·.ofPool descriptor)
    else none
  let id ← addField
    { name := m.nameText f.pool, declaring := t, traits, type, constant := .known value }
  noteMember (.field id) [type]
  modifyDeclared t fun d => { d with fields := d.fields ++ [id] }

/-- Fills in a method from its generic signature. -/
def fillFromSignature (id : MethodId) (vars : List TypeId) (s : Signature.OfMethod)
    (exceptions : List Text) : Lookup Unit := do
  let mut own : List TypeId := []
  for (p, i) in s.typeParams.zipIdx do
    own := own ++ [← addVariable p.name i .none id]
  let vars := own ++ vars
  readBounds own s.typeParams vars
  let params ← s.params.mapM (ofSignature vars)
  let result ← match s.result with
    | some r => ofSignature vars r
    | none => pure (base .void)
  let throws ← s.throws.mapM (ofSignature vars)
  let throws ← if throws.isEmpty then exceptionReferences exceptions else pure throws
  modifyMethod id fun e => { e with typeVars := own, params, result, throws }

/-- Fills in a method from its descriptor. The constructor of an inner class takes the enclosing
instance first, which is no parameter in source. -/
def fillFromDescriptor (t : TypeId) (id : MethodId) (d : Descriptor.Method)
    (exceptions : List Text) : Lookup Unit := do
  let own := (← entry t).shape.declaredD
  let isInner := own.enclosing.isSome && !own.traits.has .static && !own.traits.has .interface
  let drops := (← methodEntry id).isConstructor && isInner
  let params ← (if drops then d.params.drop 1 else d.params).mapM ofDescriptor
  let result ← match d.result with
    | some r => ofDescriptor r
    | none => pure (base .void)
  let throws ← exceptionReferences exceptions
  modifyMethod id fun e => { e with params, result, throws }

/-- Reads a method; nothing if its type cannot be read. -/
def readMethod (t : TypeId) (f : ClassFile) (vars : List TypeId) (m : ClassFile.Member) :
    Lookup Unit := do
  let name := m.nameText f.pool
  let traits := ((Traits.ofAccess m.flags).addIf (m.flags.has .varargs) .varargs).addIf
    (m.isDeprecated f.pool) .deprecated
  let isDefault := (← entry t).shape.isInterface &&
    !traits.has (.ofList [.abstract, .static, .private])
  let id ← addMethod
    { name, declaring := t, traits := traits.addIf isDefault .default
      isConstructor := name == "<init>" }
  let exceptions := m.exceptionNames f.pool
  let signature := m.signature f.pool
  let generic := if signature.isEmpty then none
    else (Signature.OfMethod.ofText signature).toOption
  match generic with
  | some s => fillFromSignature id vars s exceptions
  | none =>
    let .ok d := Descriptor.Method.ofText (m.descriptorText f.pool) | return
    fillFromDescriptor t id d exceptions
  let e ← methodEntry id
  noteMember (.method id) (e.result :: e.params ++ e.throws)
  modifyDeclared t fun d => { d with methods := d.methods ++ [id] }

/-- Reads the members of a class file. -/
def readMembers (t : TypeId) (f : ClassFile) : Lookup Unit := do
  let vars ← classVariables (← get).types.size t
  for m in f.fields do
    unless m.flags.has .synthetic do
      readField t f vars m
  for m in f.methods do
    unless m.flags.has (.ofList [.synthetic, .bridge]) || m.nameText f.pool == "<clinit>" do
      readMethod t f vars m
  for i in f.innerClasses do
    if i.outer == f.name && !i.simpleName.isEmpty && !i.flags.has .synthetic then
      if let some m ← binaryType i.name then
        modifyDeclared t fun d => { d with memberTypes := d.memberTypes ++ [m] }

end Lookup

end Javelin
