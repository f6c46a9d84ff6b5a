import Javelin.Problem.Basic
import Javelin.Source.Position
import Javelin.Text.Utf8

/-!
# Diagnostics

Problems as editors show them: lines and characters are counted from zero, and characters are
UTF-16 code units.
-/

namespace Javelin

/-- A place as editors count it. -/
structure EditorPosition where
  line : Nat
  character : Nat
deriving DecidableEq, Inhabited, Repr

/-- A problem as editors show it. -/
structure Diagnostic where
  start : EditorPosition
  stop : EditorPosition
  severity : Nat
  code : Int
  message : Text
deriving DecidableEq, Inhabited

namespace Diagnostic

/-- The name of the tool that finds the problems. -/
def source : Text := "jfront"

/-- The place of an offset; offsets outside the text are moved to its ends. -/
def positionOf (t : Text) (lines : LineIndex) (offset : Int) : EditorPosition :=
  let offset := min offset.toNat t.size
  let line := lines.line offset
  ⟨line - 1, (t.slice (lines.start line) offset).units.length⟩

def severityOf : Problem.Severity → Nat
  | .error => 1
  | .warning => 2
  | .info => 3

/-- A problem of a text. One without extent covers the next byte, if there is one. -/
def ofProblem (t : Text) (lines : LineIndex) (p : Problem) : Diagnostic :=
  let l := p.location
  let start := positionOf t lines l.start
  let stop :=
    if l.stop > l.start then positionOf t lines l.stop
    else if l.start < t.size then positionOf t lines (l.start + 1)
    else start
  { start, stop, severity := severityOf p.severity, code := p.id.number, message := p.message }

def ofProblems (t : Text) (ps : List Problem) : List Diagnostic :=
  ps.map (ofProblem t (.ofText t))

end Diagnostic

end Javelin
