import Javelin.Bytecode.Assembly
import Javelin.Bytecode.Opcode
import Javelin.ClassFile.Builder
import Javelin.Resolve.Basic
import Javelin.Syntax.Node
import Javelin.Types.Basic

/-!
# The state of code generation

Every type declared in a source file becomes one class file. Classes that are declared inside bodies
are generated while the body is, so several class files grow at the same time.

1. `ClassDraft`, a class file that grows.
2. `Body`, the code of a member that is being written.
3. `Emission` and the monad `Emitting`. What was added to a class file stays there when the body
   that needed it is given up.
-/

/-!
## The statements around a point

A jump looks outward for the statement that it leaves or repeats, and runs on its way what the
statements between ask for: final blocks, the release of locks, the closing of resources.

1. `JumpScope`, a statement that a jump may leave.
2. `ScopeStack`, the statements around a point. What a jump runs on its way is written as if it
   stood outside of the statement that asks for it, on the same stack. Its own statements take the
   places of those that the jump leaves, and are found there when the jump is done.
-/

namespace Javelin.Emit

open Bytecode

/-- What runs when a jump leaves a statement. -/
inductive Cleanup where
  | block (b : Block)
  | unlock (slot : Nat)
  | close (slot : Nat) (owner : Text) (isInterface : Bool)

/-- The statements that jumps look for. -/
inductive ScopeKind where
  | loop
  | switch
  | switchExpr
  | label
  | cleanup
deriving DecidableEq, Inhabited, Repr

/-- The number of a region. -/
abbrev RegionId := Nat

/-- A statement that a jump may leave. -/
structure JumpScope where
  kind : ScopeKind
  labels : List Text := []
  breakTo : LabelId := 0
  continueTo : LabelId := 0
  /-- Where a switch expression keeps its value. -/
  result : Nat := 0
  resultType : TypeId := .none
  cleanup : Option Cleanup := none
  region : Option RegionId := none
deriving Inhabited

/-- The statements around a point, the outermost first. Row `n` has room for `2 ^ n` statements; one
more moves them all to the next row. -/
structure ScopeStack where
  rows : Array (Array JumpScope) := #[]
  row : Nat := 0
  height : Nat := 0
deriving Inhabited

namespace ScopeStack

/-- The places of the current row. Those at and above the height are out of use. -/
def places (s : ScopeStack) : Array JumpScope := s.rows.getD s.row #[]

def get? (s : ScopeStack) (i : Nat) : Option JumpScope :=
  if i < s.height then s.places[i]? else none

/-- Puts a value at a place, or behind the last one. -/
def putAt {α : Type} (a : Array α) (i : Nat) (x : α) : Array α :=
  if i < a.size then a.setIfInBounds i x else a.push x

def push (s : ScopeStack) (x : JumpScope) : ScopeStack :=
  if s.height < 2 ^ s.row then
    { s with rows := putAt s.rows s.row (putAt s.places s.height x), height := s.height + 1 }
  else
    let moved := (s.places.extract 0 s.height).push x
    { rows := putAt s.rows (s.row + 1) moved, row := s.row + 1, height := s.height + 1 }

def pop (s : ScopeStack) : ScopeStack := { s with height := s.height - 1 }

/-- The places of the statements above the lowest `n`, the innermost first. -/
def above (s : ScopeStack) (n : Nat) : List Nat := (List.range' n (s.height - n)).reverse

/-- Whether a jump out of all statements has to run something. -/
def hasCleanup (s : ScopeStack) : Bool :=
  (List.range s.height).any fun i => ((s.get? i).bind (·.cleanup)).isSome

/-- The innermost of the lowest `n` statements that a jump looks for. Only a yield can leave a
switch expression. -/
def search (s : ScopeStack) (isTarget : JumpScope → Bool) : Nat → Option Nat
  | 0 => none
  | n + 1 =>
    match s.get? n with
    | none => none
    | some x =>
      if isTarget x then some n
      else if x.kind == .switchExpr then none
      else s.search isTarget n

end ScopeStack

end Javelin.Emit

namespace Javelin.Emit

open Bytecode

/-! ## Classes -/

/-- A field or method that waits until its access flags are final. -/
structure MemberDraft where
  field : FieldId := .none
  method : MethodId := .none
  flags : AccessFlags
  name : Text
  descriptor : Text
  attributes : List ClassFile.Attribute
deriving Inhabited

/-- Where an anonymous class comes from. -/
inductive Creation where
  | none
  | expression (node : Info)
  | enumConstant (node : Info)
deriving Inhabited

/-- A class file that grows. -/
structure ClassDraft where
  type : TypeId
  decl : TypeDecl
  name : Text
  /-- The type of the instance that encloses each instance. -/
  outer : TypeId := .none
  /-- The variables of bodies around the class that are copied into its instances. -/
  captured : List LocalId := []
  /-- The classes inside this one, as far as it lists them. -/
  nested : List TypeId := []
  fields : Array MemberDraft := #[]
  methods : Array MemberDraft := #[]
  hasAssertions : Bool := false
  /-- The constructor that an anonymous class calls. -/
  superConstructor : MethodId := .none
  /-- The type of the enclosing instance that this constructor needs. -/
  superOuter : TypeId := .none
  /-- Whether the class is the body of an enum constant. -/
  isEnumBody : Bool := false
  /-- The descriptor of the constructor of an anonymous class. -/
  descriptor : Text := {}
deriving Inhabited

/-- The number of a class among those that are generated. -/
abbrev ClassId := Nat

/-! ## Bodies -/

/-- The body of a member that is being written. In a constructor the enclosing instance and the name
and number of an enum constant are parameters. -/
structure Body where
  cls : ClassId := 0
  code : Assembly := {}
  isStatic : Bool := true
  result : TypeId := .none
  slots : Std.HashMap LocalId Nat := {}
  /-- The statements around this point. -/
  scopes : ScopeStack := {}
  regions : Array Region := #[]
  outerSlot : Option Nat := none
  enumSlot : Option Nat := none
deriving Inhabited

/-! ## The monad -/

/-- The class files of a source file so far. Private members that another class of the nest uses are
written with package access. -/
structure Emission where
  world : World
  unit : CompilationUnit
  notes : Notes
  /-- The problems of the file. -/
  problems : List Problem
  classes : Array ClassDraft := #[]
  builders : Array ClassFile.Builder := #[]
  byType : Std.HashMap TypeId ClassId := {}
  widenedFields : Std.HashSet FieldId := {}
  widenedMethods : Std.HashSet MethodId := {}
  body : Body := {}
deriving Inhabited

/-- A step of code generation. What it did stays done if it is given up. -/
abbrev Emitting := EStateM Abort Emission

/-- Asks a question about the program. -/
def ofLookup {α : Type} (q : Lookup α) : Emitting α := fun s =>
  let w := s.world
  let s := { s with world := default }
  match q w with
  | .ok a w => .ok a { s with world := w }
  | .error e w => .error e { s with world := w }

instance : MonadLift Lookup Emitting := ⟨ofLookup⟩

/-- The parts of code generation that contain each other. -/
class Generator where
  /-- Pushes an expression, converted to the type that its context expects. -/
  value : Expr → Emitting Unit
  /-- Pushes an expression in its own type. -/
  plain : Expr → Emitting Unit
  /-- Pushes the initial value of a variable of a type. -/
  initial : Expr → TypeId → Emitting Unit
  /-- Jumps to a label if a condition has the given value. -/
  branch : Expr → LabelId → Bool → Emitting Unit
  /-- A statement; the labels belong to a loop. -/
  stmt : List Text → Stmt → Emitting Unit
  /-- The class of a type declaration, inside the current body or not. -/
  classOf : TypeDecl → TypeId → Bool → Creation → Emitting ClassId

/-! ## Classes -/

def draft (i : ClassId) : Emitting ClassDraft := return (← get).classes.getD i default

def modifyDraft (i : ClassId) (f : ClassDraft → ClassDraft) : Emitting Unit :=
  modify fun s => { s with classes := s.classes.modify i f }

/-- The class that a type has been given, if it is generated here. -/
def draftOf? (t : TypeId) : Emitting (Option ClassDraft) := do
  match (← get).byType[t]? with
  | some i => return some (← draft i)
  | none => return none

/-- Adds to the class file of a class. -/
def buildIn {α : Type} (i : ClassId) (b : ClassFile.Build α) : Emitting α := fun s =>
  let builder := s.builders.getD i default
  let s := { s with builders := s.builders.setIfInBounds i default }
  let (a, builder) := b.run builder
  .ok a { s with builders := s.builders.setIfInBounds i builder }

/-- Adds to the class file of the current body. -/
def build {α : Type} (b : ClassFile.Build α) : Emitting α := do buildIn (← get).body.cls b

/-- The class of the current body. -/
def currentDraft : Emitting ClassDraft := do draft (← get).body.cls

/-! ## Code -/

def modifyBody (f : Body → Body) : Emitting Unit := modify fun s => { s with body := f s.body }

def modifyCode (f : Assembly → Assembly) : Emitting Unit :=
  modify fun s => { s with body := { s.body with code := f s.body.code } }

def isReachable : Emitting Bool := return (← get).body.code.isReachable

/-- The place of the next instruction. -/
def pc : Emitting Nat := return (← get).body.code.pc

def op (o : Opcode) (delta : Int) : Emitting Unit := modifyCode (·.op o delta [])

def opWith (o : Opcode) (delta : Int) (operands : List UInt8) : Emitting Unit :=
  modifyCode (·.op o delta operands)

/-- An instruction with an index into the constant pool. -/
def opIndex (o : Opcode) (delta : Int) (i : UInt16) : Emitting Unit :=
  opWith o delta (Assembly.bytes2 i)

def jump (o : Opcode) (l : LabelId) : Emitting Unit := modifyCode (·.jump o l)

def place (l : LabelId) : Emitting Unit := modifyCode (·.place l)

def newLabel : Emitting LabelId := do
  let l := (← get).body.code.labels.size
  modifyCode fun c => c.newLabel.2
  return l

/-- Reserves local variable slots. -/
def alloc (size : Nat) : Emitting Nat := do
  let n := (← get).body.code.maxLocals
  modifyCode fun c => (c.alloc size).2
  return n

/-- Notes the line of a node. -/
def line (i : Info) : Emitting Unit := modifyCode (·.line i.span.start.line)

/-! ## Problems and findings -/

/-- What is known from resolving names. -/
def known {α : Type} (f : Findings → α) : Emitting α := return f (← get).world.findings

/-- Warns that something is not translated. -/
def warnUnsupported (at_ : Info) (what : Text) : Emitting Unit :=
  modify fun s =>
    let p := Problem.new .codegenUnsupported (.ofSpan s.unit.file at_.span) [what]
    { s with world := { s.world with reports := s.world.reports.push p } }

/-- Gives up the body because of something that is not translated. -/
def unsupported {α : Type} (at_ : Info) (what : Text) : Emitting α := do
  warnUnsupported at_ what
  throw ⟨.method, (← get).unit.file, "Code generation for " ++ what ++ " is not supported"⟩

/-- The type of an expression. -/
def typeOf (x : Expr) : Emitting TypeId := known (·.typeOf x.info)

/-- The type of an expression after the conversion that its context applies. -/
def convertedType (x : Expr) : Emitting TypeId := known (·.convertedType x.info)

def constantOf (x : Expr) : Emitting (Option Constant) := known (·.constants[x.info.id]?)

/-- The type that a type node denotes. -/
def typeRef (n : TypeNode) : Emitting TypeId := known (·.typeRefs.getD n.info.id .none)

/-- The method that was found for a node. -/
def methodAt (i : Info) : Emitting MethodId := known (·.methods.getD i.id .none)

/-- The local variable that an identifier declares. -/
def localAt (n : Ident) : Emitting (Option LocalId) := do
  match ← known (·.defs[n.info.id]?) with
  | some (.var l) => return some l
  | _ => return none

/-- Whether a member holds errors. -/
def isErroneous (i : Info) : Emitting Bool := do
  let f := (← get).world.findings
  return f.erroneous.contains i.id || f.aborted.contains i.id || i.flags.has .hasErrors ||
    i.flags.has .malformed

/-- The messages of the errors inside a node. -/
def messagesIn (i : Info) : Emitting (List Text) := do
  let s ← get
  let inside (p : Problem) : Bool :=
    p.isError && (p.location.file.isEmpty || p.location.file == s.unit.file) &&
      i.span.start.offset ≤ p.location.start && p.location.start < i.span.stop.offset
  return (s.problems.filter inside).map (·.message)

end Javelin.Emit
