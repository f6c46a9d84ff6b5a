import Javelin.Emit.Convert

/-!
# Members and enclosing instances

An inner class keeps the instance that encloses it in a field, and a local class keeps copies of the
variables that it uses. Constructors take both as extra parameters.
-/

namespace Javelin.Emit

open Bytecode

variable [Answers]

/-! ## Descriptors of constructors -/

/-- The type of the enclosing instance that instances of a type are made with. -/
def outerOf (t : TypeId) : Emitting TypeId := do
  let t ← Lookup.declaration t
  if let some d ← draftOf? t then
    return d.outer
  let s ← Lookup.shape t
  let d := s.declaredD
  if d.enclosing.isNone || d.isLocal || d.traits.has .static then
    return .none
  if s.isInterface || d.traits.has .enum || d.traits.has .record then
    return .none
  let enclosing ← Lookup.shape d.enclosing
  return if enclosing.isAbsent || enclosing.isInterface then .none else d.enclosing

/-- What stands between the parentheses of a descriptor. -/
def paramsOf (descriptor : Text) : Text :=
  match descriptor.findIdx? (· == ')') with
  | some stop => descriptor.slice 1 stop
  | none => {}

/-- The descriptors of captured variables. -/
def capturedDescriptors (ls : List LocalId) : Emitting Text := do
  return Text.concat (← ls.mapM fun l => do Lookup.descriptor (← Lookup.localEntry l).type)

/-- The descriptor of a type, or nothing. -/
def optionalDescriptor (t : TypeId) : Emitting Text := do
  if t.isNone then return {} else Lookup.descriptor t

/-- The extra parameters of the constructors of enums. -/
def enumParams : Text := "Ljava/lang/String;I"

/-- The descriptor of a constructor with the extra parameters of its class. -/
def constructorDescriptor (m : MethodId) : Emitting Text := do
  let e ← Lookup.methodEntry m
  let decl ← Lookup.declaration e.declaring
  let d := (← Lookup.shape decl).declaredD
  let draft ← draftOf? decl
  if let some c := draft then
    if d.isAnonymous then
      return c.descriptor
  let outer ← optionalDescriptor (← outerOf decl)
  let extra : Text := if d.isSource && d.kind == .enum then enumParams else {}
  let params := paramsOf (← Lookup.methodDescriptor m)
  let captured ← capturedDescriptors ((draft.map (·.captured)).getD [])
  return "(" ++ outer ++ extra ++ params ++ captured ++ ")V"

/-! ## Access from other classes -/

/-- Lets another class of the nest use a private method. -/
def useMethod (m : MethodId) : Emitting Unit := do
  let e ← Lookup.methodEntry m
  let root := e.root
  let e ← Lookup.methodEntry root
  if e.traits.has .private then
    if (← Lookup.declaration e.declaring) != (← currentDraft).type then
      modify fun s => { s with widenedMethods := s.widenedMethods.insert root }

/-- Lets another class of the nest use a private field. -/
def useField (f : FieldId) : Emitting Unit := do
  let root := (← Lookup.fieldEntry f).root
  let e ← Lookup.fieldEntry root
  if e.traits.has .private then
    if (← Lookup.declaration e.declaring) != (← currentDraft).type then
      modify fun s => { s with widenedFields := s.widenedFields.insert root }

/-- Reads or writes a field through its declaring class, or through the given one. -/
def fieldOp (o : Opcode) (f : FieldId) (owner : TypeId) : Emitting Unit := do
  let e ← Lookup.fieldEntry (← Lookup.fieldEntry f).root
  let owner ← if owner.isSome then pure owner else Lookup.declaration e.declaring
  useField f
  let size : Int := (← kindOf e.type).size
  let delta : Int :=
    if o == .getstatic then size
    else if o == .putstatic then -size
    else if o == .getfield then size - 1
    else -1 - size
  accessField o delta (← Lookup.binaryName owner) e.name (← Lookup.descriptor e.type)

/-- Calls a constructor of a class; the receiver and the arguments are on the stack. -/
def callConstructor (decl : TypeId) (m : MethodId) : Emitting Unit := do
  let descriptor ← constructorDescriptor m
  useMethod m
  callMethod .invokespecial (-1 - (callWords descriptor).1) (← Lookup.binaryName decl) "<init>"
    descriptor

/-! ## Enclosing instances -/

/-- Reads the enclosing instance of the object on the stack; in a constructor that of the current
object is a parameter. -/
def stepOutward (isFirst : Bool) (owner : Text) (outer : TypeId) : Emitting Unit := do
  match isFirst, (← get).body.outerSlot with
  | true, some slot => loadRef slot
  | _, _ =>
    if isFirst then
      loadRef 0
    accessField .getfield 0 owner "this$0" (← Lookup.descriptor outer)

/-- Goes outward from an instance of a class to one of the target, at most `n` steps. -/
def walkOutward (target : TypeId) (at_ : Info) : Nat → Bool → TypeId → Emitting Unit
  | 0, _, _ => unsupported at_ "unreachable enclosing instances"
  | n + 1, isFirst, current => do
    let outer ← outerOf current
    if outer.isNone then
      unsupported at_ "unreachable enclosing instances"
    stepOutward isFirst (← Lookup.binaryName current) outer
    let next ← Lookup.declaration outer
    unless ← inherits next target do
      walkOutward target at_ n false next

/-- Pushes the innermost instance of a type around the code. -/
def loadEnclosing (target : TypeId) (at_ : Info) : Emitting Unit := do
  let target ← Lookup.declaration target
  let body := (← get).body
  if body.isStatic then
    unsupported at_ "enclosing instances in static contexts"
  let current := (← currentDraft).type
  if ← inherits current target then
    loadRef 0
  else
    walkOutward target at_ ((← get).world.types.size + 1) true current

/-- Goes outward to the class that has a copy of a variable, at most `n` steps. -/
def loadCaptured (l : LocalId) (e : LocalEntry) (at_ : Info) :
    Nat → Bool → Option ClassDraft → Emitting Unit
  | n + 1, isFirst, some c => do
    if c.captured.contains l then
      if isFirst then
        loadRef 0
      accessField .getfield ((← kindOf e.type).size - 1) c.name ("val$" ++ e.name)
        (← Lookup.descriptor e.type)
    else if c.outer.isNone then
      unsupported at_ "uncaptured local variables"
    else
      stepOutward isFirst c.name c.outer
      loadCaptured l e at_ n false (← draftOf? (← Lookup.declaration c.outer))
  | _, _, _ => unsupported at_ "uncaptured local variables"

/-- Pushes a local variable: from its slot, as a constant, or from the copy in a local class. -/
def loadLocal (l : LocalId) (at_ : Info) : Emitting Unit := do
  let e ← Lookup.localEntry l
  let body := (← get).body
  if let some slot := body.slots[l]? then
    load (← kindOf e.type) slot
  else if let some c := e.constant then
    pushConstant c
  else if body.isStatic then
    unsupported at_ "captured variables in static contexts"
  else
    loadCaptured l e at_ ((← get).classes.size + 1) true (some (← currentDraft))

/-- Fails with a null pointer exception if the reference on the stack is null. -/
def checkNull : Emitting Unit := do
  op .dup 1
  callMethod .invokevirtual 0 "java/lang/Object" "getClass" "()Ljava/lang/Class;"
  op .pop (-1)

/-! ## Local variables -/

/-- The type of the variable that an identifier declares, or else the given one. -/
def localType (n : Ident) (other : TypeId) : Emitting TypeId := do
  match ← localAt n with
  | some l =>
    let t := (← Lookup.localEntry l).type
    return if t.isSome then t else other
  | none => return other

/-- Reserves the slot of a local variable. -/
def declare (n : Ident) (other : TypeId) : Emitting Nat := do
  let t ← localType n other
  let slot ← alloc (← kindOf t).size
  if let some l ← localAt n then
    modifyBody fun b => { b with slots := b.slots.insert l slot }
  return slot

/-- Pushes the arguments of a call. Those for a variable arity parameter are collected in an
array. -/
def arguments [Generator] (at_ : Info) (xs : List Expr) (m : MethodId) : Emitting Unit := do
  let params := (← Lookup.methodEntry m).params
  match params.getLast?, ← known (·.varargs.contains at_.id) with
  | some last, true =>
    let n := params.length - 1
    (xs.take n).forM Generator.value
    let elem ← Lookup.elementType (← Lookup.erasure last)
    let rest := xs.drop n
    pushNat rest.length
    newArrayOf elem
    for (x, i) in rest.zipIdx do
      op .dup 1
      pushNat i
      Generator.value x
      storeElement elem
  | _, _ => xs.forM Generator.value

end Javelin.Emit
