import Javelin.Problem.Basic

/-!
# Problems with source excerpts

A listing shows each problem on a line of its own. When the source of its file is known, the line
the problem lies on and a caret under its column follow. The caret line repeats the tabs of the
source line, so that the caret lines up.
-/

namespace Javelin.Problem

/-- The given line of a source, counted from one and without carriage returns at its end. -/
def sourceLine? (source : Text) (line : Int) : Option Text :=
  if line < 1 then none
  else ((source.split '\n')[(line - 1).toNat]?).map fun l => l.trimRight (· == '\r')

/-- One blank or tab for each character before the column, then the caret. -/
def caret (line : Text) (column : Int) : Text :=
  let before := (line.chars.take (column - 1).toNat).map fun (_, c) =>
    if c == '\t' then ("\t" : Text) else " "
  Text.concat before ++ "^"

/-- The lines shown for one problem, given the sources by file name. -/
def excerpt (source? : Text → Option Text) (p : Problem) : Text :=
  let shown : Text :=
    match (source? p.file).bind (sourceLine? · p.location.line) with
    | some line => "\t" ++ line ++ "\n\t" ++ caret line (max 1 p.location.column) ++ "\n"
    | none => {}
  p.render ++ "\n" ++ shown

/-- The listing of several problems. -/
def listing (source? : Text → Option Text) (ps : List Problem) : Text :=
  Text.concat (ps.map (excerpt source?))

end Javelin.Problem
