import Javelin.Emit.Expressions

/-!
# Statements

1. Regions and the code that a jump runs on its way out.
2. Simple statements, conditionals and loops.
3. Locks, exceptions and resources. The code for the normal way out of a protected statement is
   written once for each way, and handlers cover the rest.
-/

namespace Javelin.Emit

open Bytecode

/-! ## Regions -/

/-- Starts a region at the current place. -/
def openRegion : Emitting RegionId := do
  let r := (← get).body.regions.size
  let start ← pc
  modifyBody fun b => { b with regions := b.regions.push { start } }
  return r

def modifyRegion (r : RegionId) (f : Region → Region) : Emitting Unit :=
  modifyBody fun b => { b with regions := b.regions.modify r f }

def region (r : RegionId) : Emitting Region := return (← get).body.regions.getD r default

/-- Ends a region at the current place. -/
def closeRegion (r : RegionId) : Emitting Unit := do
  let stop ← pc
  modifyRegion r fun x => { x with stop }

/-- Starts the handler of what follows; its place. -/
def openHandler : Emitting Nat := do
  let h ← newLabel
  let here ← pc
  modifyCode (·.placeHandler h)
  return here

def protect (r : RegionId) (target : Nat) (type : UInt16) : Emitting Unit := do
  let x ← region r
  modifyCode (·.protect x target type)

variable [Answers] [Generator]

/-- The statements of a block. -/
def blockCode (b : Block) : Emitting Unit := b.stmts.forM (Generator.stmt [])

/-! ## Ways out -/

/-- Closes the resource in a slot. -/
def invokeClose (slot : Nat) (owner : Text) (isInterface : Bool) : Emitting Unit := do
  loadRef slot
  if isInterface then
    callInterface (-1) 1 owner "close" "()V"
  else
    callMethod .invokevirtual (-1) owner "close" "()V"

/-- The code that a statement asks for when it is left. A resource that is null is not closed. -/
def cleanUp : Cleanup → Emitting Unit
  | .block b => blockCode b
  | .unlock slot => do
    loadRef slot
    op .monitorexit (-1)
  | .close slot owner isInterface => do
    let skip ← newLabel
    loadRef slot
    jump .ifnull skip
    invokeClose slot owner isInterface
    place skip

/-- Leaves all statements but the outermost `keep`: runs what they ask for, the innermost first, and
then the exit. This code is not under the protection of the statements that it leaves. -/
def leave (keep : Nat) (exit : Emitting Unit) : Emitting Unit := do
  let start ← pc
  let scopes := (← get).body.scopes
  let left := scopes.above keep
  let (row, height) := (scopes.row, scopes.height)
  for i in left do
    if let some c := ((← get).body.scopes.get? i).bind (·.cleanup) then
      modifyBody fun b => { b with scopes := { b.scopes with height := i } }
      cleanUp c
      modifyBody fun b => { b with scopes := { b.scopes with row, height } }
  exit
  let stop ← pc
  for i in left do
    if let some r := ((← get).body.scopes.get? i).bind (·.region) then
      modifyRegion r (·.cut start stop)

/-- The place of the statement that a jump looks for. -/
def target? (isTarget : JumpScope → Bool) : Emitting (Option Nat) := do
  let scopes := (← get).body.scopes
  return scopes.search isTarget scopes.height

/-- Whether a break or continue with an optional label looks for a statement. -/
def isTarget (label : Option Ident) (kinds : List ScopeKind) (s : JumpScope) : Bool :=
  match label with
  | some l => s.labels.contains l.name
  | none => kinds.contains s.kind

/-- Jumps to the end of a statement, or to its next round. -/
def jumpOut (i : Info) (label : Option Ident) (isContinue : Bool) : Emitting Unit := do
  let kinds := if isContinue then [.loop] else [.loop, .switch]
  match ← target? (isTarget label kinds) with
  | none =>
    unsupported i <|
      if isContinue then "continue statements without target" else "break statements without target"
  | some n =>
    leave (n + 1) do
      let s := ((← get).body.scopes.get? n).getD default
      jump .goto (if isContinue then s.continueTo else s.breakTo)

/-- Gives a switch expression its value. -/
def yieldValue (i : Info) (value : Expr) : Emitting Unit := do
  match ← target? (·.kind == .switchExpr) with
  | none => unsupported i "yield statements without switch"
  | some n =>
    let s := ((← get).body.scopes.get? n).getD default
    Generator.value value
    store (← kindOf s.resultType) s.result
    leave (n + 1) (jump .goto s.breakTo)

/-- Returns from the body. A result waits in a variable while other code runs on the way. -/
def returnFrom (value : Option Expr) : Emitting Unit := do
  match value with
  | none => leave 0 (op .returnVoid 0)
  | some x =>
    let k ← kindOf (← get).body.result
    Generator.value x
    let finish : Emitting Unit := op (.forKind .ireturn k) (-k.size)
    if (← get).body.scopes.hasCleanup then
      let slot ← alloc k.size
      store k slot
      leave 0 do
        load k slot
        finish
    else
      finish

/-! ## Simple statements -/

def localVariables (d : VarDecl) : Emitting Unit := do
  for v in d.vars do
    let slot ← declare v.name (← typeRef d.type)
    if let some x := v.init then
      let t ← match ← localAt v.name with
        | some l => do pure (← Lookup.localEntry l).type
        | none => pure .none
      Generator.initial x t
      store (← kindOf t) slot

def localClass (d : TypeDecl) : Emitting Unit := do
  let t ← known (·.localTypes.getD d.info.id .none)
  if t.isNone then
    unsupported d.info "unresolved local classes"
  let _ ← Generator.classOf d t true .none

def ifElse (cond : Expr) (yes : Stmt) (no : Option Stmt) : Emitting Unit := do
  match ← constantOf cond with
  | some c => if c.isTrue then Generator.stmt [] yes else no.forM (Generator.stmt [])
  | none =>
    let other ← newLabel
    Generator.branch cond other false
    Generator.stmt [] yes
    match no with
    | none => place other
    | some no =>
      let done ← newLabel
      jump .goto done
      place other
      Generator.stmt [] no
      place done

/-- The descriptor of the constructor of the error of an assertion with a message, and the words of
the message. -/
def assertionArgument (message : Expr) : Emitting (Text × Nat) := do
  let b ← basicType (← convertedType message)
  let arg : Text := match b with
    | .undefined => "Ljava/lang/Object;"
    | .byte | .short => "I"
    | b => basicDescriptor b
  return ("(" ++ arg ++ ")V", (kindOfBasic b).size)

def assertion (cond : Expr) (message : Option Expr) : Emitting Unit := do
  let ok ← newLabel
  accessField .getstatic 1 (← currentDraft).name "$assertionsDisabled" "Z"
  jump .ifne ok
  Generator.branch cond ok true
  opClass .newObject 1 "java/lang/AssertionError"
  op .dup 1
  let (descriptor, words) ← match message with
    | some m => do
      Generator.value m
      assertionArgument m
    | none => pure ("()V", 0)
  callMethod .invokespecial (-1 - words) "java/lang/AssertionError" "<init>" descriptor
  op .athrow (-1)
  place ok

/-! ## Loops -/

/-- The body of a loop. -/
def loopBody (labels : List Text) (breakTo continueTo : LabelId) (body : Stmt) : Emitting Unit := do
  pushScope { kind := .loop, labels, breakTo, continueTo }
  Generator.stmt [] body
  popScope

def whileLoop (labels : List Text) (cond : Expr) (body : Stmt) : Emitting Unit := do
  if let some c ← constantOf cond then
    if !c.isTrue then
      return
  let top ← newLabel
  let done ← newLabel
  place top
  Generator.branch cond done false
  loopBody labels done top body
  jump .goto top
  place done

def doLoop (labels : List Text) (body : Stmt) (cond : Expr) : Emitting Unit := do
  let top ← newLabel
  let next ← newLabel
  let done ← newLabel
  place top
  loopBody labels done next body
  place next
  Generator.branch cond top true
  place done

def forLoop (labels : List Text) (init : List Stmt) (cond : Option Expr) (update : List Expr)
    (body : Stmt) : Emitting Unit := do
  init.forM (Generator.stmt [])
  let top ← newLabel
  let next ← newLabel
  let done ← newLabel
  place top
  cond.forM fun c => Generator.branch c done false
  loopBody labels done next body
  place next
  update.forM effect
  jump .goto top
  place done

/-- Goes through an array by index. -/
def forEachElement (labels : List Text) (v : VarDeclarator) (array : Expr) (arrayType : TypeId)
    (body : Stmt) (top next done : LabelId) : Emitting Unit := do
  let elem ← Lookup.elementType arrayType
  let arraySlot ← alloc 1
  Generator.value array
  store .ref arraySlot
  let lengthSlot ← alloc 1
  loadRef arraySlot
  op .arraylength 0
  store .int lengthSlot
  let indexSlot ← alloc 1
  op .iconst0 1
  store .int indexSlot
  place top
  load .int indexSlot
  load .int lengthSlot
  jump .ifIcmpge done
  let slot ← declare v.name elem
  let t ← localType v.name elem
  loadRef arraySlot
  load .int indexSlot
  loadElement elem
  coerce elem t
  store (← kindOf t) slot
  loopBody labels done next body
  place next
  modifyCode (·.increment indexSlot true)
  jump .goto top
  place done

/-- Goes through the elements that an iterator gives. -/
def forEachIterated (labels : List Text) (v : VarDeclarator) (iterable : Expr) (body : Stmt)
    (top next done : LabelId) : Emitting Unit := do
  let object ← Lookup.objectType
  let iterator ← alloc 1
  Generator.value iterable
  callInterface 0 1 "java/lang/Iterable" "iterator" "()Ljava/util/Iterator;"
  store .ref iterator
  place top
  loadRef iterator
  callInterface 0 1 "java/util/Iterator" "hasNext" "()Z"
  jump .ifeq done
  let slot ← declare v.name object
  let t ← localType v.name object
  loadRef iterator
  callInterface 0 1 "java/util/Iterator" "next" "()Ljava/lang/Object;"
  coerce object t
  store (← kindOf t) slot
  loopBody labels done next body
  place next
  jump .goto top
  place done

def forEachLoop (i : Info) (labels : List Text) (d : VarDecl) (iterable : Expr) (body : Stmt) :
    Emitting Unit := do
  match d.vars with
  | [v] =>
    let t ← typeOf iterable
    let top ← newLabel
    let next ← newLabel
    let done ← newLabel
    if (← Lookup.shape t).isArray then
      forEachElement labels v iterable t body top next done
    else
      forEachIterated labels v iterable body top next done
  | _ => unsupported i "malformed enhanced for statements"

/-! ## Locks -/

/-- Fails unless the stack is empty: a handler loses what is on it. -/
def requireEmptyStack (i : Info) (what : Text) : Emitting Unit := do
  if (← get).body.code.depth != 0 then
    unsupported i what

/-- Catches everything in a region, cleans up and throws it again. -/
def rethrow (regions : List RegionId) (c : Cleanup) : Emitting Unit := do
  let h ← openHandler
  for r in regions do
    protect r h 0
  let slot ← alloc 1
  store .ref slot
  cleanUp c
  loadRef slot
  op .athrow (-1)

def synchronized (i : Info) (lock : Expr) (body : Block) : Emitting Unit := do
  requireEmptyStack i "synchronized statements inside expressions"
  Generator.value lock
  op .dup 1
  let slot ← alloc 1
  store .ref slot
  op .monitorenter (-1)
  let exit := Cleanup.unlock slot
  let r ← openRegion
  pushScope { kind := .cleanup, cleanup := some exit, region := some r }
  blockCode body
  closeRegion r
  popScope
  let done ← newLabel
  if ← isReachable then
    cleanUp exit
    jump .goto done
  let x ← region r
  if x.stop > x.start then
    rethrow [r] exit
  place done

/-! ## Exceptions -/

/-- The types that a clause catches. -/
def caughtTypes (c : CatchClause) : Emitting (List TypeId) := do
  match c.param.type with
  | some (.union _ ts) => ts.mapM typeRef
  | some t => return [← typeRef t]
  | none => return [.none]

/-- A clause that catches what a region throws. The normal way out of it is cut out of the region of
the clauses. -/
def catchClause (c : CatchClause) (tried caught : RegionId) (scope : JumpScope) (done : LabelId) :
    Emitting Unit := do
  let h ← openHandler
  for t in ← caughtTypes c do
    let cls ← build (ClassFile.Builder.cls (← Lookup.binaryName (← Lookup.erasure t)))
    protect tried h cls
  pushScope scope
  let slot ← declare c.param.name (← Lookup.objectType)
  store .ref slot
  blockCode c.body
  popScope
  if ← isReachable then
    let start ← pc
    scope.cleanup.forM cleanUp
    jump .goto done
    let stop ← pc
    modifyRegion caught (·.cut start stop)

/-- A body with its clauses and its final block, which also runs when a clause fails. -/
def tryCatchFinally (body : Emitting Unit) (catches : List CatchClause) (final : Option Block) :
    Emitting Unit := do
  let cleanup := final.map Cleanup.block
  let done ← newLabel
  let tried ← openRegion
  let scope : JumpScope := { kind := .cleanup, cleanup, region := some tried }
  pushScope scope
  body
  closeRegion tried
  popScope
  if ← isReachable then
    cleanup.forM cleanUp
    jump .goto done
  let x ← region tried
  if x.stop != x.start then
    let caught ← openRegion
    for c in catches do
      catchClause c tried caught { scope with region := some caught } done
    closeRegion caught
    cleanup.forM (rethrow [tried, caught])
  place done

/-! ## Resources -/

/-- Puts a resource into a variable; the slot and the type of the resource. -/
def openResource (i : Info) (r : Stmt) : Emitting (Nat × TypeId) := do
  match r with
  | .locals d =>
    match d.vars with
    | [v] =>
      localVariables d
      let l := (← localAt v.name).getD .none
      let slot := (← get).body.slots.getD l 0
      return (slot, ← localType v.name (← Lookup.objectType))
    | _ => unsupported d.info "malformed resources"
  | .expr _ x =>
    Generator.value x
    let t ← typeOf x
    let slot ← alloc 1
    store .ref slot
    return (slot, t)
  | _ => unsupported i "malformed resources"

/-- Closes a resource while an exception goes on; one that the closing throws is added to it. -/
def closeAfterFailure (r : RegionId) (slot : Nat) (owner : Text) (isInterface : Bool) :
    Emitting Unit := do
  let h ← openHandler
  protect r h 0
  let primary ← alloc 1
  store .ref primary
  let again ← newLabel
  loadRef slot
  jump .ifnull again
  let start ← pc
  invokeClose slot owner isInterface
  let stop ← pc
  jump .goto again
  let inner ← openHandler
  let throwable ← build (ClassFile.Builder.cls "java/lang/Throwable")
  modifyCode (·.addHandler (start, stop) inner throwable)
  let suppressed ← alloc 1
  store .ref suppressed
  loadRef primary
  loadRef suppressed
  callMethod .invokevirtual (-2) "java/lang/Throwable" "addSuppressed" "(Ljava/lang/Throwable;)V"
  place again
  loadRef primary
  op .athrow (-1)

/-- A block that uses resources; each of them is closed after those that follow it. -/
def withResources (i : Info) : List Stmt → Block → Emitting Unit
  | [], body => blockCode body
  | r :: rest, body => do
    let (slot, t) ← openResource i r
    let decl ← Lookup.declaration t
    let owner ← Lookup.binaryName decl
    let isInterface := (← Lookup.shape decl).isInterface
    let close := Cleanup.close slot owner isInterface
    let reg ← openRegion
    pushScope { kind := .cleanup, cleanup := some close, region := some reg }
    withResources i rest body
    closeRegion reg
    popScope
    let done ← newLabel
    if ← isReachable then
      cleanUp close
      jump .goto done
    let x ← region reg
    if x.stop > x.start then
      closeAfterFailure reg slot owner isInterface
    place done

def tryStatement (i : Info) (resources : List Stmt) (body : Block) (catches : List CatchClause)
    (final : Option Block) : Emitting Unit := do
  requireEmptyStack i "try statements inside expressions"
  if catches.isEmpty && final.isNone && !resources.isEmpty then
    withResources i resources body
  else
    tryCatchFinally (withResources i resources body) catches final

/-! ## The rule -/

/-- Whether labels before a statement belong to it. -/
def takesLabels : Stmt → Bool
  | .while .. | .doWhile .. | .for .. | .forEach .. | .labeled .. => true
  | _ => false

def isLabeled : Stmt → Bool
  | .labeled .. => true
  | _ => false

def isBlock : Stmt → Bool
  | .block _ => true
  | _ => false

/-- A statement with labels; those before a loop belong to the loop. -/
def labeled (labels : List Text) (body : Stmt) : Emitting Unit := do
  if takesLabels body then
    Generator.stmt labels body
  else
    let done ← newLabel
    pushScope { kind := .label, labels, breakTo := done }
    Generator.stmt [] body
    popScope
    place done

/-- The code of a statement that can be reached. -/
def stmtCode (labels : List Text) (st : Stmt) : Emitting Unit := do
  match st with
  | .block b => blockCode b
  | .empty _ => return
  | .locals d => localVariables d
  | .localClass _ d => localClass d
  | .expr _ x => effect x
  | .ifElse _ cond yes no => ifElse cond yes no
  | .while _ cond body => whileLoop labels cond body
  | .doWhile _ body cond => doLoop labels body cond
  | .for _ init cond update body => forLoop labels init cond update body
  | .forEach i d iterable body => forEachLoop i labels d iterable body
  | .labeled _ l body => labeled (labels ++ [l.name]) body
  | .return _ x => returnFrom x
  | .break i l => jumpOut i l false
  | .continue i l => jumpOut i l true
  | .yield i x => yieldValue i x
  | .throw _ x =>
    Generator.value x
    op .athrow (-1)
  | .switch _ selector cases => switchCode selector cases .none
  | .try i resources body catches final => tryStatement i resources body catches final
  | .sync i lock body => synchronized i lock body
  | .assert _ cond message => assertion cond message
  | .constructorCall i .. => unsupported i "misplaced constructor calls"

/-- A statement. One that cannot be reached has no code. Only the first of several labels notes its
line. -/
def stmtRule (labels : List Text) (st : Stmt) : Emitting Unit := do
  if labels.isEmpty || !isLabeled st then
    if (← get).notes.unreachable.contains st.info.id then
      return
    unless isBlock st do
      line st.info
  stmtCode labels st

end Javelin.Emit
