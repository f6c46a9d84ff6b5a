import Javelin.Emit.Constructors
import Javelin.Library.SourceTree
import Javelin.Resolve.Declarations

/-!
# Classes

Every type declared in a source file becomes one class file, member types, local and anonymous
classes included. A member with problems, or one that needs something that is not translated, gets a
body that throws an error with the messages.

1. Access flags.
2. Bodies of members.
3. Fields and methods.
4. The class of a declaration, and what a local class captures.
5. Finished class files.
-/

namespace Javelin.Emit

open Bytecode ClassFile

/-! ## Access flags -/

/-- The flags of a class file; nested classes are public or not there. -/
def classFlags (t : Traits) : AccessFlags :=
  .ofList <| List.flatten [
    if t.has .public || t.has .protected then [.public] else [],
    if t.has .final then [.final] else [],
    if t.has .abstract then [.abstract] else [],
    if t.has .interface then
      .interface :: .abstract :: (if t.has .annot then [.annot] else [])
    else [.super],
    if t.has .enum then [.enum] else [],
    if t.has .synthetic then [.synthetic] else []]

/-- The flags of a nested class in the list of nested classes. -/
def innerFlags (t : Traits) : AccessFlags :=
  let f := (classFlags t).without (.ofList [.public, .super])
  let f := if t.has .public then f.union .public
    else if t.has .protected then f.union .protected
    else if t.has .private then f.union .private
    else f
  if t.has .static then f.union .static else f

def memberFlagTable : List (Traits × AccessFlags) :=
  [(.public, .public), (.private, .private), (.protected, .protected), (.static, .static),
   (.final, .final), (.synchronized, .synchronized), (.volatile, .volatile),
   (.transient, .transient), (.native, .native), (.abstract, .abstract), (.strictfp, .strict),
   (.varargs, .varargs), (.synthetic, .synthetic), (.enum, .enum)]

def memberFlags (t : Traits) : AccessFlags :=
  .ofList ((memberFlagTable.filter (t.has ·.1)).map (·.2))

/-! ## Bodies -/

/-- Writes code in a body of its own. -/
def inBody (b : Body) (work : Emitting Unit) : Emitting Assembly := do
  let outside := (← get).body
  modify fun s => { s with body := b }
  work
  let code := (← get).body.code
  modify fun s => { s with body := outside }
  return code

/-- Does work unless it is given up up to a level; the reason then. -/
def attempt {α : Type} (level : AbortLevel) (work : Emitting α) :
    Emitting (Except Abort α) := fun s =>
  match work s with
  | .ok a s => .ok (.ok a) s
  | .error e s => if e.level.rank ≤ level.rank then .ok (.error e) s else .error e s

variable [Answers]

/-- A body that throws an error with messages. -/
def problemCode (i : ClassId) (at_ : Info) (isStatic : Bool) (descriptor : Text)
    (messages : List Text) : Emitting Assembly :=
  let locals := (callWords descriptor).1 + if isStatic then 0 else 1
  inBody { cls := i, code := { maxLocals := locals } } do
    line at_
    throwProblems messages

/-- The code of a member; one without a declaration has no errors of its own. -/
def memberCode (i : ClassId) (node : Option Info) (isStatic : Bool) (descriptor : Text)
    (work : Emitting Unit) : Emitting Assembly := do
  let decl := (← draft i).decl.info
  let at_ := node.getD decl
  let isBad ← match node with
    | some n => do pure ((← isErroneous n) || (← known (·.aborted.contains decl.id)))
    | none => pure false
  if isBad then
    return ← problemCode i at_ isStatic descriptor (← messagesIn at_)
  let outside := (← get).body
  let body : Body := { cls := i, isStatic, code := { maxLocals := if isStatic then 0 else 1 } }
  match ← attempt .method (inBody body work) with
  | .ok code =>
    if code.hasOverflow || 65536 ≤ code.bytes.size then
      problemCode i at_ isStatic descriptor ["The code of this method is too large"]
    else
      return code
  | .error e =>
    modify fun s => { s with body := outside }
    problemCode i at_ isStatic descriptor [e.reason]

def codeAttribute (i : ClassId) (c : Assembly) : Emitting Attribute :=
  buildIn i do
    let lines ← if c.lines.isEmpty then pure [] else do pure [← Builder.lineNumbers c.lines.toList]
    Builder.code ⟨c.maxStack.toUInt16, c.maxLocals.toUInt16, ⟨⟨c.bytes⟩⟩, c.handlers.toList, lines⟩

/-! ## Fields and methods -/

def addField (i : ClassId) (field : FieldId) (flags : AccessFlags) (name descriptor : Text)
    (attributes : List Attribute) : Emitting Unit :=
  modifyDraft i fun c =>
    { c with fields := c.fields.push { field, flags, name, descriptor, attributes } }

def addMethod (i : ClassId) (method : MethodId) (flags : AccessFlags) (name descriptor : Text)
    (attributes : List Attribute) : Emitting Unit :=
  modifyDraft i fun c =>
    { c with methods := c.methods.push { method, flags, name, descriptor, attributes } }

/-- The attributes for a generic signature and for deprecation. -/
def commonAttributes (i : ClassId) (signature : Text) (traits : Traits) :
    Emitting (List Attribute) :=
  buildIn i do
    let generic ← if signature.isEmpty then pure [] else do pure [← Builder.signature signature]
    let old ← if traits.has .deprecated then do pure [← Builder.deprecated] else pure []
    return generic ++ old

def declaredField (i : ClassId) (f : FieldId) : Emitting Unit := do
  let e ← Lookup.fieldEntry f
  let constant ← if e.isStatic && e.isFinal then Lookup.fieldConstant f else pure none
  let value ← match constant with
    | some c => do
      let entry ← constantEntry i c
      pure [← buildIn i (Builder.constantValue entry)]
    | none => pure []
  let common ← commonAttributes i (← Lookup.fieldSignature e.type) e.traits
  addField i f (memberFlags e.traits) e.name (← Lookup.descriptor e.type) (value ++ common)

variable [Generator]

/-- A method or constructor with a declaration. Class files of the written version cannot hold the
bodies of interface methods. -/
def declaredMethod (i : ClassId) (m : MethodDecl) (id : MethodId) : Emitting Unit := do
  let e ← Lookup.methodEntry id
  let c ← draft i
  let flags := memberFlags e.traits
  let descriptor ← if e.isConstructor then constructorDescriptor id else Lookup.methodDescriptor id
  let throws ← if e.throws.isEmpty then pure [] else do
    let names ← e.throws.mapM fun t => ofLookup (Lookup.binaryName t)
    pure [← buildIn i (Builder.exceptions names)]
  let rest := throws ++ (← commonAttributes i (← Lookup.methodSignature id) e.traits)
  if (← Lookup.shape c.type).isInterface && m.body.isSome then
    warnUnsupported m.info "interface method bodies"
    unless e.isStatic || e.traits.has .private do
      addMethod i id (flags.union .abstract) e.name descriptor rest
  else if m.body.isNone && !m.isCompact then
    addMethod i id flags e.name descriptor rest
  else
    let code ← memberCode i (some m.info) e.isStatic descriptor do
      methodParams m e
      if e.isConstructor then
        constructorBody m
      else
        m.body.forM blockCode
        if ← isReachable then
          op .returnVoid 0
    addMethod i id flags e.name descriptor ((← codeAttribute i code) :: rest)

/-- A constructor without a declaration. If the superclass has no constructor for it, it throws an
error. -/
def impliedConstructor (i : ClassId) (id : MethodId) : Emitting Unit := do
  let e ← Lookup.methodEntry id
  let c ← draft i
  let descriptor ← constructorDescriptor id
  let isBad ← known (·.erroneous.contains c.decl.info.id)
  let code ← match c.decl.name, isBad && c.decl.kind != .record with
    | some name, true => do
      problemCode i c.decl.info false descriptor (← messagesIn name.info)
    | _, _ => memberCode i none false descriptor (defaultConstructor e.params)
  addMethod i id ((memberFlags e.traits).without .synthetic) "<init>" descriptor
    [← codeAttribute i code]

/-- The methods of enums and records without a declaration. -/
def impliedMethod (i : ClassId) (id : MethodId) : Emitting Unit := do
  let e ← Lookup.methodEntry id
  let c ← draft i
  let flags := (memberFlags e.traits).without .synthetic
  let own ← Lookup.descriptor c.type
  if c.decl.kind == .enum && e.name == "values" then
    let code ← inBody { cls := i } valuesBody
    addMethod i id flags "values" ("()[" ++ own) [← codeAttribute i code]
  else if c.decl.kind == .enum && e.name == "valueOf" then
    let code ← inBody { cls := i, code := { maxLocals := 1 } } valueOfBody
    addMethod i id flags "valueOf" ("(Ljava/lang/String;)" ++ own) [← codeAttribute i code]
  else if c.decl.kind == .record then
    let f ← Lookup.findField c.type e.name
    if f.isSome && e.params.isEmpty then
      let code ← inBody { cls := i, code := { maxLocals := 1 } }
        (accessorBody (← Lookup.fieldEntry f))
      let own ← codeAttribute i code
      let signature ← Lookup.fieldSignature e.result
      let generic ← if signature.isEmpty then pure [] else do
        pure [← buildIn i (Builder.signature ("()" ++ signature))]
      addMethod i id flags e.name (← Lookup.methodDescriptor id) (own :: generic)

/-- All fields and methods of a class, and its initializer. -/
def members (i : ClassId) : Emitting Unit := do
  let c ← draft i
  let d := (← Lookup.shape c.type).declaredD
  if c.outer.isSome then
    addField i .none (.ofList [.final, .synthetic]) "this$0" (← Lookup.descriptor c.outer) []
  for l in c.captured do
    let e ← Lookup.localEntry l
    addField i .none (.ofList [.private, .final, .synthetic]) ("val$" ++ e.name)
      (← Lookup.descriptor e.type) []
  d.fields.forM (declaredField i)
  if c.decl.kind == .enum then
    addField i .none (.ofList [.private, .static, .final, .synthetic]) "$VALUES"
      ("[" ++ (← Lookup.descriptor c.type)) []
  if c.hasAssertions then
    addField i .none (.ofList [.static, .final, .synthetic]) "$assertionsDisabled" "Z" []
  for id in d.methods do
    let e ← Lookup.methodEntry id
    match e.decl with
    | some m => declaredMethod i m id
    | none => if e.isConstructor then impliedConstructor i id else impliedMethod i id
  if d.isAnonymous then
    let code ← memberCode i none false c.descriptor anonymousConstructor
    addMethod i .none {} "<init>" c.descriptor [← codeAttribute i code]
  if ← needsInitializer c then
    let code ← memberCode i none true "()V" classInitializer
    addMethod i .none .static "<clinit>" "()V" [← codeAttribute i code]

/-! ## The class of a declaration -/

/-- Whether an assertion stands at most `depth` levels below a node, outside nested classes. -/
def hasAssertion : Nat → Node → Bool
  | 0, _ => false
  | depth + 1, n =>
    match n with
    | .stmt (.assert ..) => true
    | .typeDecl _ => false
    | n => n.children.any (hasAssertion depth)

/-- Whether a class itself holds assertions. -/
def usesAssertions (depth : Nat) (d : TypeDecl) : Bool :=
  (d.members.map Node.ofMember).any (hasAssertion depth) ||
    d.constants.any fun k => k.args.any fun x => hasAssertion depth (.expr x)

/-- The variables that a table has for the identifiers of a tree. -/
def variablesIn (table : Std.HashMap Nat Symbol) (nodes : List Node) : List LocalId :=
  nodes.filterMap fun
    | .ident n =>
      match table[n.info.id]? with
      | some (.var l) => some l
      | _ => none
    | _ => none

/-- The variables of bodies around a class that it uses, or that the constructor of its superclass
needs. Constants are not captured. -/
def captures (d : TypeDecl) : Emitting (List LocalId) := do
  let s ← get
  let nodes := Node.preorder (s.world.nextNode + 1) (.typeDecl d)
  let inside : Std.HashSet LocalId :=
    (variablesIn s.world.findings.defs nodes).foldl (·.insert ·) {}
  let used := variablesIn s.world.findings.uses nodes
  let t ← known (·.localTypes.getD d.info.id .none)
  let above ← if t.isNone then pure [] else do
    let up ← draftOf? (← Lookup.declaration (← Lookup.superclass t))
    pure ((up.map (·.captured)).getD [])
  (used ++ above).foldlM (fun found l => do
    if inside.contains l || found.contains l || (← Lookup.localEntry l).constant.isSome then
      return found
    return found ++ [l]) []

/-- Lists a class inside another one. -/
def nest (i : ClassId) (t : TypeId) : Emitting Unit :=
  modifyDraft i fun c => if c.nested.contains t then c else { c with nested := c.nested ++ [t] }

/-- Finds the constructor that an anonymous class calls, and the descriptor of its own. -/
def connectAnonymous (i : ClassId) (creation : Creation) : Emitting Unit := do
  match creation with
  | .none => pure ()
  | .enumConstant k =>
    let m ← methodAt k
    modifyDraft i fun c => { c with isEnumBody := true, superConstructor := m }
  | .expression x =>
    let m ← methodAt x
    let outer ← if m.isSome then do outerOf (← Lookup.methodEntry m).declaring else pure .none
    modifyDraft i fun c => { c with superConstructor := m, superOuter := outer }
  let c ← draft i
  let own ← optionalDescriptor c.outer
  let extra : Text := if c.isEnumBody then enumParams else {}
  let outer ← optionalDescriptor c.superOuter
  let params ← if c.superConstructor.isSome then do
      pure (paramsOf (← Lookup.methodDescriptor c.superConstructor))
    else pure {}
  let captured ← capturedDescriptors c.captured
  let descriptor := "(" ++ own ++ extra ++ outer ++ params ++ captured ++ ")V"
  modifyDraft i fun c => { c with descriptor }

/-- The names of the superclass and of the interfaces of a class file. -/
def supertypeNames (t : TypeId) (s : Shape) : Emitting (Text × List Text) := do
  let up ← Lookup.superclass t
  let super : Text ←
    if s.declaredD.kind == .record then pure "java/lang/Record"
    else if up.isSome && !s.isInterface then ofLookup (Lookup.binaryName up)
    else pure "java/lang/Object"
  let interfaces ← (← Lookup.superInterfaces t).mapM fun x => ofLookup (Lookup.binaryName x)
  return (super, interfaces)

/-- The class of a type declaration, generated if it is new. -/
def classRule (d : TypeDecl) (t : TypeId) (isLocal : Bool) (creation : Creation) :
    Emitting ClassId := do
  if let some i := (← get).byType[t]? then
    return i
  let s ← Lookup.shape t
  let declared := s.declaredD
  let i := (← get).classes.size
  modify fun s =>
    { s with
      classes := s.classes.push { type := t, decl := d, name := declared.binaryName }
      builders := s.builders.push default
      byType := s.byType.insert t i }
  if isLocal then
    let site := (← get).body.cls
    let outer ← if (← get).body.isStatic then pure .none else do pure (← draft site).type
    let captured ← captures d
    modifyDraft i fun c => { c with outer, captured }
    nest site t
  else if declared.enclosing.isSome && d.kind == .cls && !declared.traits.has .static then
    modifyDraft i fun c => { c with outer := declared.enclosing }
  let depth := (← get).world.nextNode + 1
  modifyDraft i fun c => { c with hasAssertions := usesAssertions depth d }
  if declared.isAnonymous then
    connectAnonymous i creation
  let (super, interfaces) ← supertypeNames t s
  let builder := Builder.new (classFlags declared.traits) declared.binaryName super interfaces
  modify fun s => { s with builders := s.builders.setIfInBounds i builder }
  members i
  for m in d.members.filterMap Member.type? do
    if let some inner := (← get).world.typeOfDecl[m.info.id]? then
      let _ ← Generator.classOf m inner false .none
      nest i inner
  return i

/-! ## Finished classes -/

/-- The entry for a class in the list of nested classes. -/
def innerClass (t : TypeId) : Emitting InnerClass := do
  let d := (← Lookup.shape t).declaredD
  let outer ← if d.isLocal || d.enclosing.isNone then pure {} else do
    pure (← Lookup.shape d.enclosing).declaredD.binaryName
  let simpleName := if d.isAnonymous then {} else d.name
  return { name := d.binaryName, outer, simpleName, flags := innerFlags d.traits }

/-- The entries of a class: its own if it is nested, and those of the classes inside it. -/
def innerClasses (c : ClassDraft) (isNested : Bool) : Emitting (List InnerClass) := do
  let own ← if isNested then do pure [← innerClass c.type] else pure []
  return own ++ (← (c.nested.filter (· != c.type)).mapM innerClass)

/-- A class file that was generated. -/
structure Output where
  name : Text
  type : TypeId
  file : ClassFile
  bytes : Text
deriving Inhabited

/-- Takes back private access from a member that other classes use. -/
def widen (isUsed : Bool) (m : MemberDraft) : AccessFlags :=
  if isUsed then m.flags.without .private else m.flags

/-- Adds the members and attributes of a class to its file. -/
def assemble (c : ClassDraft) (usedFields : Std.HashSet FieldId) (usedMethods : Std.HashSet MethodId)
    (inner : List InnerClass) (file signature : Text) (isDeprecated : Bool) : Build Unit := do
  for f in c.fields do
    let isUsed := f.field.isSome && usedFields.contains f.field
    Builder.addField (widen isUsed f) f.name f.descriptor f.attributes
  for m in c.methods do
    let isUsed := m.method.isSome && usedMethods.contains m.method
    Builder.addMethod (widen isUsed m) m.name m.descriptor m.attributes
  if !inner.isEmpty then
    Builder.addAttribute (← Builder.innerClasses inner)
  if !file.isEmpty then
    Builder.addAttribute (← Builder.sourceFile (Path.base file))
  if !signature.isEmpty then
    Builder.addAttribute (← Builder.signature signature)
  if isDeprecated then
    Builder.addAttribute (← Builder.deprecated)

/-- The encoded form of a class, or why it has none. -/
def encode (c : ClassDraft) (b : Builder) : Except Text Output :=
  let failed (message : Text) : Except Text Output :=
    .error ("generate " ++ c.name ++ ": " ++ message)
  match b.fault with
  | some f => failed f.message
  | none =>
    match b.file.toBytes with
    | .error f => failed f.message
    | .ok bytes => .ok { name := c.name, type := c.type, file := b.file, bytes }

/-- Adds the members and attributes of a class and encodes it. -/
def finishClass (i : ClassId) : Emitting (Except Text Output) := do
  let c ← draft i
  let d := (← Lookup.shape c.type).declaredD
  let s ← get
  let (usedFields, usedMethods, file) := (s.widenedFields, s.widenedMethods, s.unit.file)
  let inner ← innerClasses c d.enclosing.isSome
  let signature ← Lookup.classSignature c.type
  buildIn i (assemble c usedFields usedMethods inner file signature (d.traits.has .deprecated))
  return encode c ((← get).builders.getD i default)

/-- A top level type and the classes inside it. If the type is given up, none of them is kept. -/
def topLevel (d : TypeDecl) (t : TypeId) : Emitting Unit := do
  let n := (← get).classes.size
  match ← attempt .type (classRule d t false .none) with
  | .ok _ => return
  | .error _ =>
    modify fun s =>
      { s with
        classes := s.classes.extract 0 n
        builders := s.builders.extract 0 n
        byType := (s.classes.toList.drop n).foldl (fun m c => m.erase c.type) s.byType
        body := {} }

/-- The class files of the first classes that can be encoded, and the message if one cannot. -/
def finishAll : List ClassId → Emitting (List Output × Option Text)
  | [] => return ([], none)
  | i :: rest => do
    match ← finishClass i with
    | .error e => return ([], some e)
    | .ok o =>
      let (os, e) ← finishAll rest
      return (o :: os, e)

/-- All classes of the source file. -/
def allClasses : Emitting (List Output × Option Text) := do
  for d in (← get).unit.types do
    if let some t := (← get).world.typeOfDecl[d.info.id]? then
      topLevel d t
  finishAll (List.range (← get).classes.size)

end Emit

/-- Code generation that goes at most the given number of steps deep. -/
@[reducible]
def Emit.generator [Answers] : Nat → Emit.Generator
  | 0 => ⟨fun _ => return, fun _ => return, fun _ _ => return, fun _ _ _ => return,
      fun _ _ => return, fun _ _ _ _ => return 0⟩
  | n + 1 =>
    { value := fun x => letI := generator n; Emit.valueRule x
      plain := fun x => letI := generator n; Emit.plainRule x
      initial := fun x t => letI := generator n; Emit.initialRule x t
      branch := fun x l b => letI := generator n; Emit.branchRule x l b
      stmt := fun ls st => letI := generator n; Emit.stmtRule ls st
      classOf := fun d t l c => letI := generator n; Emit.classRule d t l c }

/-- The class files of a source file. The problems that were found in it become the messages of the
errors that its bodies throw. -/
def Lookup.generate (u : UnitId) (notes : Notes) (problems : List Problem) :
    Lookup (List Emit.Output × Option Text) := do
  let e ← unitEntry u
  letI := Emit.generator (100 * ((← get).nextNode + 100))
  fun w =>
    let start : Emit.Emission := { world := w, unit := e.unit, notes, problems }
    match Emit.allClasses start with
    | .ok r s => .ok r s.world
    | .error a s => .error a s.world

end Javelin
