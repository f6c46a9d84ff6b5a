import Javelin.Text.Utf8

/-!
# Positions and spans

Offsets and columns count bytes of the source as written; lines and columns start at one. A
position is computed in three ways that agree: by moving over the bytes one at a time
(`Position.advance`), by a scan from the start (`Position.scan`), and by a search in the table of
line starts (`LineIndex.position`). -/

namespace Javelin

/-- A place in a source file. The default is the place of nodes that were never positioned. -/
structure Position where
  offset : Nat := 0
  line : Nat := 0
  column : Nat := 0
deriving DecidableEq, Inhabited, Repr

/-- A half-open range of a source file. -/
structure Span where
  start : Position := {}
  stop : Position := {}
deriving DecidableEq, Inhabited, Repr

namespace Position

/-- The first position of a source. -/
def first : Position := ⟨0, 1, 1⟩

/-- The position after the byte `b`. -/
@[inline] def after (p : Position) (b : UInt8) : Position :=
  if b == '\n' then ⟨p.offset + 1, p.line + 1, 1⟩ else ⟨p.offset + 1, p.line, p.column + 1⟩

/-- The position after the next `n` bytes of `t`. -/
def advance (t : Text) (p : Position) : Nat → Position
  | 0 => p
  | n + 1 => advance t (p.after (t.at0 p.offset)) n

/-- The position at offset `o` of `t`, by a scan from the start. -/
def scan (t : Text) (o : Nat) : Position :=
  { advance t first (min o t.size) with offset := o }

end Position

/-- The offsets at which the lines of a source start. -/
structure LineIndex where
  starts : Array Nat
deriving Inhabited

namespace LineIndex

def ofText (t : Text) : LineIndex :=
  ⟨(List.range t.size).foldl (fun acc i => if t.at0 i == '\n' then acc.push (i + 1) else acc) #[0]⟩

/-- The number of the line that holds offset `o`, counted from one. -/
def line (li : LineIndex) (o : Nat) : Nat :=
  Text.boundariesUpTo li.starts o 0 li.starts.size li.starts.size

/-- The offset at which the given line, counted from one, starts. -/
def start (li : LineIndex) (line : Nat) : Nat := li.starts.getD (line - 1) 0

def position (li : LineIndex) (o : Nat) : Position :=
  let l := li.line o
  ⟨o, l, o - li.start l + 1⟩

end LineIndex

end Javelin
