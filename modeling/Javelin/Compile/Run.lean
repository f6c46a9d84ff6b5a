import Javelin.Emit.Classes
import Javelin.Flow.Analyze
import Javelin.Library.SourceTree
import Javelin.Problem.Basic

/-!
# Compiling source files together

All files are parsed, then their types are declared, then completed; last each file is resolved,
checked and translated. A file that is given up does not take part in later phases, and the other
files go on; when the work is cancelled, all files that are not done end. A problem belongs to the
file that it names, whichever work found it.
-/

/-!
## The results of compiling

What compiling is told, what it gives for each source file, and counts over all of them.
-/

namespace Javelin.Compile

-- Sums start at the number zero itself.
attribute [local instance (1100)] Zero.ofOfNat0

/-- How source files are compiled. -/
structure Options where
  level : Level := .latest
  keepsWarnings : Bool := true
  /-- A file is given up once it has this many errors; zero stands for no limit. -/
  maxErrors : Nat := 0
  /-- Whether the classes of files with errors are stored too. -/
  proceedsOnError : Bool := false
  /-- Whether the work ends before classes are generated. -/
  checksOnly : Bool := false
  /-- Whether the work is cancelled before it starts. -/
  isCancelled : Bool := false
deriving Inhabited

/-- What compiling one source file gives. -/
structure UnitResult where
  file : Text
  tree : Option CompilationUnit := none
  notes : Notes := {}
  problems : List Problem := []
  classes : List Emit.Output := []
  outcome : Outcome := .completed
  abort : Option Abort := none
  /-- Why the classes could not be encoded or stored. -/
  fault : Option Text := none
deriving Inhabited

/-- Whether the file has errors or was not completed. -/
def UnitResult.isFailed (r : UnitResult) : Bool :=
  r.outcome != .completed || r.fault.isSome || r.problems.any Problem.isError

/-- Counts over the results of several files. -/
structure Summary where
  units : Nat := 0
  classes : Nat := 0
  errors : Nat := 0
  warnings : Nat := 0
  aborted : Nat := 0
  cancelled : Nat := 0
deriving DecidableEq, Inhabited, Repr

def Summary.ofResults (rs : List UnitResult) : Summary :=
  let severities := rs.flatMap fun r => r.problems.map (·.severity)
  { units := rs.length
    classes := (rs.map fun r => r.classes.length).sum
    errors := severities.count .error
    warnings := severities.count .warning
    aborted := rs.countP (·.outcome == .aborted)
    cancelled := rs.countP (·.outcome == .cancelled) }

/-- The classes that were stored, each name once. -/
structure ClassStore where
  classes : Std.HashMap Text Text := {}
deriving Inhabited

namespace ClassStore

/-- Stores a class, unless there is one of its name. -/
def insert (s : ClassStore) (name bytes : Text) : Except Text ClassStore :=
  if s.classes.contains name then .error ("accept " ++ name ++ ": duplicate class")
  else .ok ⟨s.classes.insert name bytes⟩

/-- The names of the classes in order. -/
def names (s : ClassStore) : List Text := s.classes.keys.mergeSort Text.le

end ClassStore

end Javelin.Compile

namespace Javelin.Compile

/-- A source file on its way. -/
structure UnitRun where
  source : SourceFile
  unit : UnitId := default
  found : Problem.Collector := {}
  /-- Whether the file has as many errors as it may; further problems are dropped. -/
  isFull : Bool := false
  isDone : Bool := false
  result : UnitResult
deriving Inhabited

/-- The state of compiling. -/
structure Run where
  options : Options := {}
  world : World
  units : Array UnitRun
  /-- All problems in the order of their reports. -/
  stream : Array Problem := #[]
  store : ClassStore := {}
deriving Inhabited

namespace Run

/-- The last file of a name. -/
def indexOf? (r : Run) (file : Text) : Option Nat :=
  (List.range r.units.size).reverse.find? fun i => (r.units.getD i default).source.name == file

/-- Takes up a problem. -/
def report (r : Run) (p : Problem) : Run :=
  match r.indexOf? p.file with
  | none => { r with stream := r.stream.push p }
  | some i =>
    let u := r.units.getD i default
    if u.isFull then r
    else
      let found := u.found.report p
      let limit := r.options.maxErrors
      let isFull := limit > 0 && p.isError && found.errorCount ≥ limit
      { r with
        stream := r.stream.push p
        units := r.units.setIfInBounds i { u with found, isFull } }

/-- Ends the work on a file. -/
def close (r : Run) (i : Nat) (outcome : Outcome) (abort : Option Abort) : Run :=
  { r with
    units := r.units.modify i fun u =>
      { u with isDone := true, result := { u.result with problems := u.found.sorted, outcome, abort } } }

/-- Ends the work on all files that are not done. -/
def closeAll (r : Run) (outcome : Outcome) : Run :=
  (List.range r.units.size).foldl (fun r i =>
    if (r.units.getD i default).isDone then r else r.close i outcome none) r

end Run

/-- A step of compiling, which may give up a file. -/
abbrev Compiling := EStateM Abort Run

/-- Does work on the world and takes up the problems that it reports. -/
def ofLookup {α : Type} (q : Lookup α) : Compiling α := fun r =>
  let w := r.world
  let r := { r with world := default }
  let settle (w : World) : Run :=
    w.reports.foldl Run.report { r with world := { w with reports := #[] } }
  match q w with
  | .ok a w => .ok a (settle w)
  | .error e w => .error e (settle w)

def unitRun (i : Nat) : Compiling UnitRun := return (← get).units.getD i default

def modifyUnit (i : Nat) (f : UnitRun → UnitRun) : Compiling Unit :=
  modify fun r => { r with units := r.units.modify i f }

def modifyResult (i : Nat) (f : UnitResult → UnitResult) : Compiling Unit :=
  modifyUnit i fun u => { u with result := f u.result }

/-- Gives up a file that has as many errors as it may. -/
def checkLimit (i : Nat) : Compiling Unit := do
  let u ← unitRun i
  if u.isFull then
    let limit := (← get).options.maxErrors
    throw ⟨.compilation, u.source.name, "too many errors (" ++ Text.ofNat limit ++ ")"⟩

/-! ## Phases -/

def parse (i : Nat) : Compiling Unit := do
  let u ← unitRun i
  let r ← get
  let p := Parse.unitOf u.source.contents
    { file := u.source.name, level := r.options.level, firstId := r.world.nextNode }
  modify fun r => { r with world := { r.world with nextNode := p.nextId } }
  modifyResult i fun x => { x with tree := some p.tree }
  modify (p.problems.foldl Run.report)

def declare (i : Nat) : Compiling Unit := do
  if let some tree := (← unitRun i).result.tree then
    let unit ← ofLookup (Lookup.addUnit tree false)
    modifyUnit i fun u => { u with unit }

def complete (i : Nat) : Compiling Unit := do
  ofLookup (Lookup.completeUnit (← unitRun i).unit)

/-- Stores classes up to the first that cannot be stored. -/
def storeClasses (i : Nat) : List Emit.Output → Compiling Unit
  | [] => return
  | o :: rest => do
    match (← get).store.insert o.name o.bytes with
    | .ok store =>
      modify fun r => { r with store }
      storeClasses i rest
    | .error e => modifyResult i fun x => { x with fault := some e }

/-- Generates the classes of a file, and stores them unless it has errors. -/
def generate (i : Nat) : Compiling Unit := do
  let u ← unitRun i
  let (classes, fault) ← ofLookup (Lookup.generate u.unit u.result.notes u.found.sorted)
  modifyResult i fun x => { x with classes, fault }
  let u ← unitRun i
  if fault.isNone && (!u.found.hasErrors || (← get).options.proceedsOnError) then
    storeClasses i classes

/-- Resolves, checks and translates a file. -/
def finish (i : Nat) : Compiling Unit := do
  let unit := (← unitRun i).unit
  ofLookup (Lookup.resolveUnit unit)
  checkLimit i
  let (notes, _) ← ofLookup (Lookup.analyze unit)
  modifyResult i fun x => { x with notes }
  checkLimit i
  unless (← get).options.checksOnly do
    generate i

def phases : List (Nat → Compiling Unit) := [parse, declare, complete, finish]

/-- One phase for one file. A file that is given up is closed. -/
def step (phase : Nat → Compiling Unit) (r : Run) (i : Nat) : Run :=
  let u := r.units.getD i default
  if u.isDone then r
  else
    let work : Compiling Unit := do
      checkLimit i
      phase i
      checkLimit i
    match work r with
    | .ok _ r => r
    | .error a r =>
      let a := if a.file.isEmpty then { a with file := u.source.name } else a
      r.close i .aborted (some a)

/-- The turns of all files: each phase for all files in order, before the next phase. -/
def turns (n : Nat) : List ((Nat → Compiling Unit) × Nat) :=
  phases.flatMap fun phase => (List.range n).map (phase, ·)

/-- Takes the turns from number `k` on. Before a file that is not done takes its turn, the context
is asked whether the work is cancelled by then. -/
def takeTurns (isCancelled : Nat → Bool) :
    List ((Nat → Compiling Unit) × Nat) → Nat → Run → Run
  | [], _, r => r.closeAll .completed
  | (phase, i) :: rest, k, r =>
    if !(r.units.getD i default).isDone && isCancelled k then r.closeAll .cancelled
    else takeTurns isCancelled rest (k + 1) (step phase r i)

/-- Where compiling starts. -/
def start (o : Options) (names : NameSource) (store : ClassStore) (files : List SourceFile) : Run :=
  let least : Problem.Severity := if o.keepsWarnings then .info else .error
  { options := o
    world := { names, level := o.level }
    units := (files.map fun f =>
      { source := f, found := { threshold := least.rank }, result := { file := f.name } : UnitRun }).toArray
    store }

/-- What compiling gives: the results in the order of the files, all problems in the order of their
reports, and the classes that were stored. -/
structure Report where
  results : List UnitResult := []
  stream : List Problem := []
  store : ClassStore := {}
deriving Inhabited

def Run.toReport (r : Run) : Report := ⟨r.units.toList.map (·.result), r.stream.toList, r.store⟩

/-- Compiles source files against each other and against the given types, until the context is
done. -/
def compileUntil (isCancelled : Nat → Bool) (o : Options) (names : NameSource) (store : ClassStore)
    (files : List SourceFile) : Report :=
  (takeTurns isCancelled (turns files.length) 0 (start o names store files)).toReport

/-- Compiles source files in a context that is done from the start or not at all. -/
def compile (o : Options) (names : NameSource) (store : ClassStore) (files : List SourceFile) :
    Report :=
  compileUntil (fun _ => o.isCancelled) o names store files

end Javelin.Compile

/-!
## Compiling in shares

Several workers compile one share of the source files each, against a world of their own. Each finds
the types of the other shares as source files, so the results do not depend on the number of
workers. -/

namespace Javelin.Compile

/-- A source file once for each top level type that it declares, under the path where the type is
looked for. -/
def declaredPaths (level : Level) (f : SourceFile) : List Text :=
  let unit := (Parse.unitOf f.contents { file := f.name, level }).tree
  let dir := unit.packageName.replace "." "/"
  (unit.types.map TypeDecl.nameText).filterMap fun name =>
    if name.isEmpty then none else some (Path.clean (dir ++ "/" ++ name ++ ".java"))

/-- All source files by the types that they declare. -/
def sharedSources (level : Level) (files : List SourceFile) : SourceTree :=
  files.foldl (fun t f => (declaredPaths level f).foldl (·.insert · f.contents) t) {}

/-- The elements at the places `w`, `w + n`, `w + 2 * n` and so on. -/
def share {α : Type} (n w : Nat) (xs : List α) : List α :=
  xs.zipIdx.filterMap fun (x, i) => if i % n == w then some x else none

/-- Puts shares together again: the inverse of dealing them out. -/
def deal {α : Type} (total : Nat) (shares : List (List α)) : List α :=
  (List.range total).filterMap fun i =>
    (shares[i % shares.length]?).bind (·[i / shares.length]?)

/-- Compiles source files with a number of workers. Each worker asks for itself whether the work is
cancelled by then. -/
def compileSharedUntil (isCancelled : Nat → Nat → Bool) (o : Options) (names : NameSource)
    (files : List SourceFile) (workers : Nat) : Report :=
  let workers := min workers files.length
  if workers ≤ 1 then compileUntil (isCancelled 0) o names {} files
  else
    let names := NameSource.chain [(sharedSources o.level files).names, names]
    let (store, reports) := (List.range workers).foldl (fun (store, reports) w =>
      let r := compileUntil (isCancelled w) o names store (share workers w files)
      (r.store, reports ++ [r])) (({} : ClassStore), ([] : List Report))
    ⟨deal files.length (reports.map (·.results)), reports.flatMap (·.stream), store⟩

/-- Compiles source files with a number of workers, in a context that is done from the start or not
at all. -/
def compileShared (o : Options) (names : NameSource) (files : List SourceFile) (workers : Nat) :
    Report :=
  compileSharedUntil (fun _ _ => o.isCancelled) o names files workers

end Javelin.Compile
