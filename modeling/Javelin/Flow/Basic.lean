import Javelin.Flow.Frame
import Javelin.Resolve.Basic
import Javelin.Syntax.Size

/-!
# The state of the analysis

The analysis walks bodies forward and carries the assignment state along. Beside it stand the slots
of the variables that are tracked, the frames around the current point and what was found out about
the nodes.
-/

namespace Javelin.Flow

/-- What resolving names found out about a program: what its nodes mean, and the rows of the fields
and variables that they name. -/
structure Program where
  findings : Findings := {}
  fields : Array FieldEntry := #[]
  locals : Array LocalEntry := #[]
deriving Inhabited

namespace Program

def fieldEntry (p : Program) (f : FieldId) : FieldEntry := p.fields.getD f.index {}

def localEntry (p : Program) (l : LocalId) : LocalEntry := p.locals.getD l.index {}

/-- The declared field behind an instantiated one. -/
def declaredField (p : Program) (f : FieldId) : FieldId :=
  let root := (p.fieldEntry f).root
  if root.isSome then root else f

/-- The value of a condition that is constant. -/
def constantCondition (p : Program) (x : Expr) : Option Bool :=
  match p.findings.constants[x.withoutParens.info.id]? with
  | some (.boolean b) => some b
  | _ => none

/-- The local variable that an identifier declares. -/
def declared? (p : Program) (name : Ident) : Option Symbol :=
  match p.findings.defs[name.info.id]? with
  | some (.var l) => some (.var l)
  | _ => none

end Program

/-- Where the analysis is. The blank finals are the final fields of the class without initializers;
`rethrown` holds what the clause of a catch parameter can catch, and `reported` the problems that
were found, the latest first. -/
structure Analysis where
  unit : UnitId
  program : Program := {}
  slots : Std.HashMap Symbol Nat := {}
  nextSlot : Nat := 0
  frames : List Frame := []
  member : Option Nat := none
  kind : BodyKind := .method
  type : TypeId := .none
  blankFinals : List FieldId := []
  rethrown : Std.HashMap LocalId (List TypeId) := {}
  reported : List Problem.Id := []
  notes : Notes := {}
deriving Inhabited

/-- How many of the problems that were found are errors. -/
def Analysis.errors (a : Analysis) : Nat :=
  (a.reported.filter fun id => id.description.severity == .error).length

/-- A step of the analysis. -/
abbrev Analyzer := StateT Analysis Lookup

/-- The parts of the walk that contain each other. -/
class Visitor where
  /-- The state after an expression is evaluated for its value. -/
  expr : Expr → Inits → Analyzer Inits
  /-- The split state after a condition. -/
  condition : Expr → Inits → Analyzer Inits
  /-- The state after a statement with the given labels directly before it. -/
  stmt : List Text → Stmt → Inits → Analyzer Inits
  typeDecl : TypeDecl → Analyzer Unit

/-- What is known from resolving names. -/
def known {α : Type} (f : Findings → α) : Analyzer α := return f (← get).program.findings

/-- Whether a member or type was given up part way. -/
def isAborted (i : Info) : Analyzer Bool := return (← getThe World).findings.aborted.contains i.id

/-- Reports a problem in the current member. -/
def report (id : Problem.Id) (at_ : Info) (args : List Text) : Analyzer Unit := do
  let s ← get
  Lookup.report { unit := s.unit, member := s.member } id at_ args
  modify fun s => { s with reported := id :: s.reported }

/-- Marks a statement that is never run. -/
def markUnreachable (st : Stmt) : Analyzer Unit :=
  modify fun s =>
    { s with notes := { s.notes with unreachable := s.notes.unreachable.insert st.info.id } }

/-! ## Slots -/

/-- The slot of a variable, if it is tracked. -/
def slot? (v : Symbol) : Analyzer (Option Nat) := return (← get).slots[v]?

/-- Tracks a variable. -/
def track (v : Symbol) : Analyzer Nat := do
  if let some n ← slot? v then
    return n
  let n := (← get).nextSlot
  modify fun s => { s with slots := s.slots.insert v n, nextSlot := n + 1 }
  return n

/-- Tracks the local variable that an identifier declares. -/
def trackLocal (name : Ident) : Analyzer (Option Nat) := do
  match (← get).program.declared? name with
  | some v => return some (← track v)
  | none => return none

/-- Tracks a variable that has a value from its declaration on. -/
def bind (name : Ident) (s : Inits) : Analyzer Inits := do
  match ← trackLocal name with
  | some n => return s.assign n
  | none => return s

/-! ## Frames -/

/-- Does something inside a further frame, and gives the frame as it was left. -/
def inFrame {α : Type} (f : Frame) (work : Analyzer α) : Analyzer (α × Frame) := do
  modify fun s => { s with frames := f :: s.frames }
  let a ← work
  let left := (← get).frames.headD f
  modify fun s => { s with frames := s.frames.tail }
  return (a, left)

/-- Changes the innermost frame. -/
def modifyFrame (g : Frame → Frame) : Analyzer Unit :=
  modify fun s =>
    { s with frames := match s.frames with
        | f :: rest => g f :: rest
        | [] => [] }

/-! ## Questions about expressions -/

/-- The value of a condition that is constant. -/
def constantCondition (x : Expr) : Analyzer (Option Bool) :=
  return (← get).program.constantCondition x

/-- Whether an expression is the current object. -/
def isThis (x : Expr) : Bool :=
  match x.withoutParens with
  | .this _ none => true
  | _ => false

/-- The variable that an assignment to an expression changes: a local variable, or a field of the
current object or class. -/
def Program.target? (p : Program) (x : Expr) : Option Symbol :=
  match x.withoutParens with
  | .name _ n =>
    match p.findings.uses[n.info.id]? with
    | some (.field f) => some (.field (p.declaredField f))
    | v => v
  | .field i target _ =>
    if isThis target then p.findings.fields[i.id]?.map fun f => .field (p.declaredField f) else none
  | _ => none

/-- The tracked variable that an assignment to an expression changes. -/
def targetSlot (x : Expr) : Analyzer (Option Nat) := do
  match (← get).program.target? x with
  | some v => slot? v
  | none => return none

/-- The expressions that a node and the nodes below it assign to, outside lambdas and classes. -/
def assignmentTargets (n : Node) : List Expr :=
  let below := n.children.attach.flatMap fun c => assignmentTargets c.1
  match n with
  | .expr (.lambda ..) | .typeDecl _ => []
  | .expr (.assign _ _ target _) => target :: below
  | .expr (.unary _ op x _) => if op == .inc || op == .dec then x :: below else below
  | _ => below
termination_by sizeOf n
decreasing_by exact Node.sizeOf_lt_of_mem_children c.2

/-- The tracked variables that parts of a body assign. -/
def assignedIn (parts : List Node) : Analyzer (List Nat) :=
  (parts.flatMap assignmentTargets).filterMapM targetSlot

end Javelin.Flow
