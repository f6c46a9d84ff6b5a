import Std.Data.HashSet
import Javelin.Problem.Id
import Javelin.Source.Position
import Javelin.Text.Utf8

/-!
# Problems

A problem is one diagnostic: its identity, its message and the range of source it is about.
-/

namespace Javelin

/-- Where a problem lies: a half-open range of bytes and the line and column of its start. -/
structure Location where
  file : Text := {}
  start : Int := 0
  stop : Int := 0
  line : Int := 0
  column : Int := 0
deriving DecidableEq, Inhabited

/-- The location of a span of a file. -/
def Location.ofSpan (file : Text) (s : Span) : Location :=
  ⟨file, s.start.offset, s.stop.offset, s.start.line, s.start.column⟩

/-- One diagnostic. -/
structure Problem where
  id : Problem.Id
  severity : Problem.Severity
  category : Problem.Category
  message : Text
  arguments : List Text
  location : Location
deriving DecidableEq, Inhabited

namespace Problem

/-- The problem of the given identity, with what is fixed for that identity. -/
def new (id : Id) (location : Location) (arguments : List Text) : Problem :=
  let d := id.description
  { id, severity := d.severity, category := d.category, message := id.fillIn arguments,
    arguments, location }

def isError (p : Problem) : Bool := p.severity == .error

def file (p : Problem) : Text := p.location.file

/-- `file:line:column: severity: message`. -/
def render (p : Problem) : Text :=
  (if p.file.isEmpty then {} else p.file ++ ":") ++ Text.ofInt p.location.line ++ ":" ++
    Text.ofInt p.location.column ++ ": " ++ p.severity.label ++ ": " ++ p.message

/-- Order by file and then by start. -/
def before (p q : Problem) : Bool :=
  if p.file == q.file then p.location.start ≤ q.location.start else p.file.lt q.file

/-- Stable order by file and start. -/
def sort (ps : List Problem) : List Problem := ps.mergeSort before

/-- How many problems are errors. -/
def errorCount (ps : List Problem) : Nat := ps.countP isError

end Problem

end Javelin

/-!
## Aborts

An abort gives up a part of the work: a member, a type or the whole compilation of a unit. It is
caught by the first enclosing boundary of at least its level.
-/

namespace Javelin

/-- How much work an abort discards; only the ranks of the three named levels arise. -/
structure AbortLevel where
  rank : Int
deriving DecidableEq, Inhabited, Repr

namespace AbortLevel

def method : AbortLevel := ⟨0⟩

def type : AbortLevel := ⟨1⟩

def compilation : AbortLevel := ⟨2⟩

def name (l : AbortLevel) : String :=
  if l == method then "method" else if l == type then "type"
  else if l == compilation then "compilation" else "unknown"

end AbortLevel

/-- A piece of work that was given up. -/
structure Abort where
  level : AbortLevel
  file : Text
  reason : Text
deriving DecidableEq, Inhabited

namespace Abort

def message (a : Abort) : Text :=
  let place : Text := if a.file.isEmpty then {} else " in " ++ a.file
  a.level.name ++ " aborted" ++ place ++ ": " ++ a.reason

/-- How a boundary leaves the work it surrounds. -/
inductive Caught (α : Type) where
  | finished (value : α)
  | caught (abort : Abort)
  | escaped (abort : Abort)

/-- A boundary stops aborts up to its own level. -/
def caughtAt {α : Type} (level : AbortLevel) : Except Abort α → Caught α
  | .ok a => .finished a
  | .error a => if a.level.rank ≤ level.rank then .caught a else .escaped a

end Abort

/-- How the work on a unit ended. -/
inductive Outcome where
  | completed
  | aborted
  | cancelled
deriving DecidableEq, Inhabited, Repr

def Outcome.name : Outcome → String
  | .completed => "completed"
  | .aborted => "aborted"
  | .cancelled => "cancelled"

end Javelin

/-!
## Collectors

A collector keeps the problems reported to it in order. It drops repetitions (same identity, range
and message) and problems less severe than its threshold.
-/

namespace Javelin.Problem

/-- What makes two reports the same problem. -/
structure Key where
  id : Id
  file : Text
  start : Int
  stop : Int
  message : Text
deriving DecidableEq, Hashable

def key (p : Problem) : Key := ⟨p.id, p.file, p.location.start, p.location.stop, p.message⟩

/-- Collected problems, with the highest severity rank that is kept. -/
structure Collector where
  problems : Array Problem := #[]
  seen : Std.HashSet Key := {}
  threshold : Int := Severity.info.rank
deriving Inhabited

namespace Collector

def report (c : Collector) (p : Problem) : Collector :=
  if p.severity.rank > c.threshold || c.seen.contains p.key then c
  else { c with problems := c.problems.push p, seen := c.seen.insert p.key }

def reportAll (c : Collector) (ps : List Problem) : Collector := ps.foldl report c

/-- Reports a problem under the given file name if it has none. -/
def reportIn (c : Collector) (file : Text) (p : Problem) : Collector :=
  c.report (if p.file.isEmpty then { p with location := { p.location with file } } else p)

def toList (c : Collector) : List Problem := c.problems.toList

/-- The problems by file and start. -/
def sorted (c : Collector) : List Problem := sort c.toList

def size (c : Collector) : Nat := c.problems.size

def errorCount (c : Collector) : Nat := Problem.errorCount c.toList

def hasErrors (c : Collector) : Bool := c.errorCount > 0

/-- Drops all problems and keeps the threshold. -/
def reset (c : Collector) : Collector := { threshold := c.threshold }

end Collector

end Javelin.Problem
