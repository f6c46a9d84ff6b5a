import Javelin.Emit.Statements
import Javelin.Types.Overload

/-!
# Constructors and class initializers

1. What a body throws in place of code that has errors.
2. Parameters: the enclosing instance and the name and number of an enum constant come before those
   that are declared, captured variables behind them.
3. Calls of other constructors, and the initializers of instances.
4. The bodies that no source text stands for.
-/

namespace Javelin.Emit

open Bytecode

/-! ## Errors in place of code -/

/-- The message of the error that is thrown in place of code with problems. -/
def problemMessage : List Text → Text
  | [] => "Unresolved compilation problem: \n\tUnknown error\n"
  | [m] => "Unresolved compilation problem: \n\t" ++ m ++ "\n"
  | ms => "Unresolved compilation problems: \n\t" ++ Text.join "\n\t" ms ++ "\n"

variable [Answers]

/-- Throws an error with the messages of problems. -/
def throwProblems (messages : List Text) : Emitting Unit := do
  opClass .newObject 1 "java/lang/Error"
  op .dup 1
  pushString (problemMessage messages)
  callMethod .invokespecial (-2) "java/lang/Error" "<init>" "(Ljava/lang/String;)V"
  op .athrow (-1)

/-! ## Parameters -/

/-- Reserves the parameters before those that a constructor declares. -/
def leadingParams : Emitting Unit := do
  let c ← currentDraft
  if c.outer.isSome then
    let slot ← alloc 1
    modifyBody fun b => { b with outerSlot := some slot }
  if c.decl.kind == .enum || c.isEnumBody then
    let slot ← alloc 2
    modifyBody fun b => { b with enumSlot := some slot }

/-- Reserves the parameters for captured variables. -/
def capturedParams : Emitting Unit := do
  for l in (← currentDraft).captured do
    let slot ← alloc (← kindOf (← Lookup.localEntry l).type).size
    modifyBody fun b => { b with slots := b.slots.insert l slot }

/-- Reserves the parameters of a method or constructor. -/
def methodParams (m : MethodDecl) (e : MethodEntry) : Emitting Unit := do
  modifyBody fun b => { b with result := e.result }
  if e.isConstructor then
    leadingParams
  let params ← if m.isCompact then do pure (← currentDraft).decl.components else pure m.params
  for (p, i) in params.zipIdx do
    let _ ← declare p.name (e.params.getD i .none)
  if e.isConstructor then
    capturedParams

/-- Pushes the name and number of the enum constant that is made. -/
def loadEnumParams : Emitting Unit := do
  if let some slot := (← get).body.enumSlot then
    loadRef slot
    load .int (slot + 1)

/-- Keeps the enclosing instance and the captured variables, before the constructor of the
superclass can need them. -/
def keepSurroundings : Emitting Unit := do
  let c ← currentDraft
  if c.outer.isSome then
    loadRef 0
    loadRef ((← get).body.outerSlot.getD 0)
    accessField .putfield (-2) c.name "this$0" (← Lookup.descriptor c.outer)
  for l in c.captured do
    let e ← Lookup.localEntry l
    let k ← kindOf e.type
    loadRef 0
    load k ((← get).body.slots.getD l 0)
    accessField .putfield (-1 - k.size) c.name ("val$" ++ e.name) (← Lookup.descriptor e.type)

variable [Generator]

/-! ## Calls of constructors -/

/-- Pushes the captured variables of a class that is generated here. -/
def loadCapturedOf (t : TypeId) (at_ : Info) : Emitting Unit := do
  for l in ((← draftOf? t).map (·.captured)).getD [] do
    loadLocal l at_

/-- Calls another constructor of the class, with the same extra arguments. -/
def thisCall (i : Info) (args : List Expr) : Emitting Unit := do
  let c ← currentDraft
  let m ← methodAt i
  if !m.isSome then
    unsupported i "unresolved constructor calls"
  loadRef 0
  (← get).body.outerSlot.forM loadRef
  loadEnumParams
  arguments i args m
  for l in c.captured do
    loadLocal l i
  callConstructor c.type m

/-- Calls a constructor of the superclass. -/
def superCall (at_ : Info) (m : MethodId) (qualifier : Option Expr) (args : List Expr) :
    Emitting Unit := do
  let c ← currentDraft
  if c.decl.kind == .enum then
    loadRef 0
    loadEnumParams
    callMethod .invokespecial (-3) "java/lang/Enum" "<init>" "(Ljava/lang/String;I)V"
  else if c.decl.kind == .record then
    loadRef 0
    callMethod .invokespecial (-1) "java/lang/Record" "<init>" "()V"
  else if !m.isSome then
    let up ← Lookup.superclass c.type
    if up.isSome && !(← Lookup.isObject up) then
      unsupported at_ "unresolved constructor calls"
    loadRef 0
    callMethod .invokespecial (-1) "java/lang/Object" "<init>" "()V"
  else
    let decl ← Lookup.declaration (← Lookup.methodEntry m).declaring
    loadRef 0
    let outer ← outerOf decl
    if c.isEnumBody then
      loadEnumParams
    else if outer.isSome then
      match qualifier with
      | some q => Generator.value q
      | none => loadEnclosing outer at_
    arguments at_ args m
    loadCapturedOf decl at_
    callConstructor decl m

/-! ## Initializers -/

/-- The initializer of a field, if it belongs to the given kind. -/
def fieldInitializer (isStatic : Bool) (v : VarDeclarator) : Emitting Unit := do
  let f := (← get).world.fieldOfDecl.getD v.info.id .none
  match v.init, f.isSome with
  | some x, true =>
    let e ← Lookup.fieldEntry f
    if e.isStatic != isStatic then
      return
    if isStatic then
      if (← Lookup.fieldConstant f).isSome then
        return
    line v.info
    if ← isErroneous v.info then
      return ← throwProblems (← messagesIn v.info)
    unless isStatic do
      loadRef 0
    Generator.initial x e.type
    fieldOp (if isStatic then .putstatic else .putfield) f (← currentDraft).type
  | _, _ => return

/-- The initializers of fields and the initializer blocks of one kind, in the order of the text. -/
def initializers (isStatic : Bool) : Emitting Unit := do
  for m in (← currentDraft).decl.members do
    match m with
    | .field d => d.vars.forM (fieldInitializer isStatic)
    | .initializer i static body =>
      if static == isStatic then
        if ← isErroneous i then
          line i
          throwProblems (← messagesIn i)
        else
          blockCode body
    | _ => pure ()

/-! ## Constructors -/

/-- The call of another constructor that a body starts with, and the rest of the body. -/
def splitCall : List Stmt → Option (Info × Bool × Option Expr × List Expr) × List Stmt
  | .constructorCall i isSuper qualifier _ args :: rest => (some (i, isSuper, qualifier, args), rest)
  | stmts => (none, stmts)

/-- Gives the fields of a record the values of the parameters. -/
def storeComponents : Emitting Unit := do
  let c ← currentDraft
  for p in c.decl.components do
    let f ← Lookup.findField c.type p.name.name
    match ← localAt p.name, f.isSome with
    | some l, true =>
      loadRef 0
      loadLocal l p.info
      fieldOp .putfield f c.type
    | _, _ => unsupported p.info "compact constructors of erroneous records"

def constructorBody (m : MethodDecl) : Emitting Unit := do
  let (call, stmts) := splitCall ((m.body.map Block.stmts).getD [])
  line m.info
  match call with
  | some (i, false, _, args) =>
    line i
    thisCall i args
  | some (i, true, qualifier, args) =>
    keepSurroundings
    line i
    superCall i (← methodAt i) qualifier args
    initializers false
  | none =>
    keepSurroundings
    superCall m.info (← methodAt m.info) none []
    initializers false
  stmts.forM (Generator.stmt [])
  if m.isCompact then
    if ← isReachable then
      storeComponents
  if ← isReachable then
    op .returnVoid 0

/-- The constructor that the default constructor calls. -/
def implicitSuper : Emitting MethodId := do
  let c ← currentDraft
  let m ← methodAt c.decl.info
  if m.isSome || c.decl.kind == .record || c.decl.kind == .enum then
    return m
  let up ← Lookup.superclass c.type
  if up.isNone then
    return m
  return (← Lookup.findMethod (← Lookup.methods up "<init>") [] c.type .none).1

/-- The body of the default constructor, or of the canonical constructor of a record. -/
def defaultConstructor (params : List TypeId) : Emitting Unit := do
  let c ← currentDraft
  let isRecord := c.decl.kind == .record
  line c.decl.info
  leadingParams
  let slots ← if isRecord then
      params.mapM fun p => do
        let k ← kindOf p
        return (k, ← alloc k.size)
    else pure []
  capturedParams
  keepSurroundings
  superCall c.decl.info (← implicitSuper) none []
  initializers false
  if isRecord then
    for (p, i) in c.decl.components.zipIdx do
      let f ← Lookup.findField c.type p.name.name
      match slots[i]?, f.isSome with
      | some (k, slot), true =>
        loadRef 0
        load k slot
        fieldOp .putfield f c.type
      | _, _ => unsupported p.info "records with unresolved components"
  op .returnVoid 0

/-- The body of the constructor of an anonymous class, which passes its arguments on. -/
def anonymousConstructor : Emitting Unit := do
  let c ← currentDraft
  line c.decl.info
  leadingParams
  let superOuter ← if c.superOuter.isSome then some <$> alloc 1 else pure none
  let params ← if c.superConstructor.isSome then do
      let root := (← Lookup.methodEntry c.superConstructor).root
      pure (← Lookup.methodEntry root).params
    else pure []
  let slots ← params.mapM fun p => do
    let k ← kindOf p
    return (k, ← alloc k.size)
  capturedParams
  keepSurroundings
  loadRef 0
  if c.superConstructor.isSome then
    let decl ← Lookup.declaration (← Lookup.methodEntry c.superConstructor).declaring
    loadEnumParams
    superOuter.forM loadRef
    for (k, slot) in slots do
      load k slot
    loadCapturedOf decl c.decl.info
    callConstructor decl c.superConstructor
  else
    callMethod .invokespecial (-1) "java/lang/Object" "<init>" "()V"
  initializers false
  op .returnVoid 0

/-! ## Class initializers -/

/-- Asks the outermost class whether assertions are on. -/
def assertionStatus : Emitting Unit := do
  let c ← currentDraft
  let top ← Lookup.outermost c.type
  loadEntry (← build (ClassFile.Builder.cls (← Lookup.shape top).declaredD.binaryName))
  callMethod .invokevirtual 0 "java/lang/Class" "desiredAssertionStatus" "()Z"
  let enabled ← newLabel
  let done ← newLabel
  jump .ifne enabled
  op (Opcode.iconst0 + 1) 1
  jump .goto done
  place enabled
  op .iconst0 1
  place done
  accessField .putstatic (-1) c.name "$assertionsDisabled" "Z"

/-- Makes one enum constant. -/
def enumConstant (c : ClassDraft) (descriptor : Text) (k : EnumConstant) (i : Nat) :
    Emitting Unit := do
  line k.info
  if ← isErroneous k.info then
    return ← throwProblems (← messagesIn k.info)
  let m ← methodAt k.info
  if !m.isSome then
    unsupported k.info "unresolved enum constructors"
  let (cls, constructor) ← match k.body with
    | some d => do
      let a ← anonymousClass d (.enumConstant k.info)
      pure (a.name, a.descriptor)
    | none => do pure (c.name, ← constructorDescriptor m)
  opClass .newObject 1 cls
  op .dup 1
  pushString k.name.name
  pushNat i
  arguments k.info k.args m
  useMethod m
  callMethod .invokespecial (-1 - (callWords constructor).1) cls "<init>" constructor
  accessField .putstatic (-1) c.name k.name.name descriptor

/-- Makes the enum constants and the array of all of them. -/
def enumConstants : Emitting Unit := do
  let c ← currentDraft
  let descriptor ← Lookup.descriptor c.type
  for (k, i) in c.decl.constants.zipIdx do
    enumConstant c descriptor k i
  pushNat c.decl.constants.length
  opClass .anewarray 0 c.name
  for (k, i) in c.decl.constants.zipIdx do
    op .dup 1
    pushNat i
    accessField .getstatic 1 c.name k.name.name descriptor
    op (.forKind .iastore .ref) (-3)
  accessField .putstatic (-1) c.name "$VALUES" ("[" ++ descriptor)

/-- The body of the class initializer. -/
def classInitializer : Emitting Unit := do
  let c ← currentDraft
  line c.decl.info
  if c.hasAssertions then
    assertionStatus
  if c.decl.kind == .enum then
    enumConstants
  initializers true
  op .returnVoid 0

/-- Whether a class needs an initializer. -/
def needsInitializer (c : ClassDraft) : Emitting Bool := do
  if c.hasAssertions || c.decl.kind == .enum then
    return true
  for m in c.decl.members do
    match m with
    | .field d =>
      for v in d.vars do
        let f := (← get).world.fieldOfDecl.getD v.info.id .none
        if f.isSome && v.init.isSome && (← Lookup.fieldEntry f).isStatic then
          if (← Lookup.fieldConstant f).isNone then
            return true
    | .initializer _ true _ => return true
    | _ => pure ()
  return false

/-! ## Members of enums and records -/

/-- The body of the method that lists the constants of an enum. -/
def valuesBody : Emitting Unit := do
  let c ← currentDraft
  let array := "[" ++ (← Lookup.descriptor c.type)
  line c.decl.info
  accessField .getstatic 1 c.name "$VALUES" array
  callMethod .invokevirtual 0 array "clone" "()Ljava/lang/Object;"
  opClass .checkcast 0 array
  op (.forKind .ireturn .ref) (-1)

/-- The body of the method that finds a constant of an enum by its name. -/
def valueOfBody : Emitting Unit := do
  let c ← currentDraft
  line c.decl.info
  loadEntry (← build (ClassFile.Builder.cls c.name))
  loadRef 0
  callMethod .invokestatic (-1) "java/lang/Enum" "valueOf"
    "(Ljava/lang/Class;Ljava/lang/String;)Ljava/lang/Enum;"
  opClass .checkcast 0 c.name
  op (.forKind .ireturn .ref) (-1)

/-- The body of the method that reads a component of a record. -/
def accessorBody (f : FieldEntry) : Emitting Unit := do
  let c ← currentDraft
  let k ← kindOf f.type
  line c.decl.info
  loadRef 0
  accessField .getfield (k.size - 1) c.name f.name (← Lookup.descriptor f.type)
  op (.forKind .ireturn k) (-k.size)

end Javelin.Emit
