import Javelin.Flow.Inits

/-!
# States kept in cells

States that are updated in place. A split state refers to the cells of its two sides, so a mark on
the whole shows in the parts and the other way round; a copy has cells of its own.
-/

namespace Javelin.Flow

/-- The place of a state. -/
abbrev CellId := Nat

/-- The contents of a cell. The sides of a split state lie in earlier cells. -/
inductive Cell where
  | dead
  | vacuous
  | live (assigned potential : Slots)
  | split (yes no : CellId)
deriving Inhabited

/-- All cells; the first holds the dead state. -/
structure Cells where
  cells : Array Cell := #[.dead]
deriving Inhabited

namespace Cells

def cell (c : Cells) (i : CellId) : Cell := c.cells.getD i .dead

/-- The dead state. -/
def deadEnd : CellId := 0

/-- The state in a cell, split at most `n` levels deep. -/
def readIn (c : Cells) : Nat → CellId → Inits
  | 0, _ => .dead
  | n + 1, i =>
    match c.cell i with
    | .dead => .dead
    | .vacuous => .vacuous
    | .live a p => .live a p
    | .split t f => .split (c.readIn n t) (c.readIn n f)

/-- The state in a cell. -/
def read (c : Cells) (i : CellId) : Inits := c.readIn (c.cells.size + 1) i

def push (c : Cells) (x : Cell) : CellId × Cells := (c.cells.size, ⟨c.cells.push x⟩)

/-- Puts a state into cells of its own. -/
def write (c : Cells) : Inits → CellId × Cells
  | .dead => (deadEnd, c)
  | .vacuous => c.push .vacuous
  | .live a p => c.push (.live a p)
  | .split a b =>
    let (i, c) := c.write a
    let (j, c) := c.write b
    c.push (.split i j)

/-- A state that depends on a condition, with the sides where they are. -/
def split (c : Cells) (yes no : CellId) : CellId × Cells := c.push (.split yes no)

/-- Changes what is assigned in a cell and in the cells of its sides. -/
def updateIn (f : Slots → Slots → Slots × Slots) : Nat → CellId → Cells → Cells
  | 0, _, c => c
  | n + 1, i, c =>
    match c.cell i with
    | .live a p => ⟨c.cells.setIfInBounds i (.live (f a p).1 (f a p).2)⟩
    | .split t e => updateIn f n e (updateIn f n t c)
    | _ => c

def update (c : Cells) (i : CellId) (f : Slots → Slots → Slots × Slots) : Cells :=
  updateIn f (c.cells.size + 1) i c

/-- Marks a slot as assigned. -/
def assign (c : Cells) (i : CellId) (slot : Nat) : Cells :=
  c.update i fun a p => (a.insert slot, p.insert slot)

/-- Marks slots as perhaps assigned. -/
def allow (c : Cells) (i : CellId) (slots : List Nat) : Cells :=
  c.update i fun a p => (a, slots.foldl Slots.insert p)

/-- Forgets a slot, whose variable comes into scope anew. -/
def forget (c : Cells) (i : CellId) (slot : Nat) : Cells :=
  c.update i fun a p => (a.erase slot, p.erase slot)

def copy (c : Cells) (i : CellId) : CellId × Cells := c.write (c.read i)

/-- Joins two states that do not depend on a condition, in a copy of one of them. -/
def join (c : Cells) (i j : CellId) : CellId × Cells :=
  match c.cell i, c.cell j with
  | .dead, _ => c.copy j
  | _, .dead => c.copy i
  | .vacuous, _ => c.copy j
  | _, .vacuous => c.copy i
  | _, .live b q =>
    let (m, c) := c.copy i
    (m, c.update m fun a p => (a.inter b, p.union q))
  | _, _ => c.copy i

/-- The state whatever the outcomes of at most `n` nested conditions. A state that does not depend
on a condition stays where it is. -/
def unconditionalIn : Nat → CellId → Cells → CellId × Cells
  | 0, _, c => (deadEnd, c)
  | n + 1, i, c =>
    match c.cell i with
    | .split t f =>
      let (a, c) := unconditionalIn n t c
      let (b, c) := unconditionalIn n f c
      c.join a b
    | _ => (i, c)

def unconditional (c : Cells) (i : CellId) : CellId × Cells :=
  unconditionalIn (c.cells.size + 1) i c

/-- The state where two paths join. -/
def merge (c : Cells) (i j : CellId) : CellId × Cells :=
  let (a, c) := c.unconditional i
  let (b, c) := c.unconditional j
  c.join a b

def whenTrue (c : Cells) (i : CellId) : CellId :=
  match c.cell i with
  | .split t _ => t
  | _ => i

def whenFalse (c : Cells) (i : CellId) : CellId :=
  match c.cell i with
  | .split _ f => f
  | _ => i

/-- Adds the assignments of a block that runs on the way out. A split state stays as it is. -/
def andThen (c : Cells) (i block : CellId) : Cells :=
  let (b, c) := c.unconditional block
  match c.cell i, c.cell b with
  | .live .., .live b q => c.update i fun a p => (a.union b, p.union q)
  | _, _ => c

/-- Adds what another path may have assigned. A split state stays as it is. -/
def allowFrom (c : Cells) (i other : CellId) : Cells :=
  let (b, c) := c.unconditional other
  match c.cell i, c.cell b with
  | .live .., .live _ q => c.update i fun a p => (a, p.union q)
  | _, _ => c

/-- Whether two states assign the same variables. -/
def agree (c : Cells) (i j : CellId) : Bool := (c.read i).agree (c.read j)

end Cells

end Javelin.Flow
