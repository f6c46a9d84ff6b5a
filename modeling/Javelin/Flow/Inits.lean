import Javelin.Text.Basic

/-!
# Assignment states

What is known about variables at a point of a program: which have certainly been assigned, and which
may have been. Variables are numbered by slots.

1. `Slots`, sets of slots.
2. `Inits`, the state at a point, with a separate state for each outcome of a condition.
3. What a state says about a slot, and how assignments change it.
4. `merge`, the state where two paths join.
-/

namespace Javelin.Flow

/-! ## Sets of slots -/

/-- A finite set of slots, as the bits of a number. -/
structure Slots where
  bits : Nat := 0
deriving DecidableEq, Inhabited

namespace Slots

def contains (s : Slots) (n : Nat) : Bool := s.bits.testBit n

def insert (s : Slots) (n : Nat) : Slots := ⟨s.bits ||| 1 <<< n⟩

def erase (s : Slots) (n : Nat) : Slots := if s.contains n then ⟨s.bits ^^^ 1 <<< n⟩ else s

def union (s t : Slots) : Slots := ⟨s.bits ||| t.bits⟩

def inter (s t : Slots) : Slots := ⟨s.bits &&& t.bits⟩

/-- The members in increasing order. -/
def toList (s : Slots) : List Nat := (List.range (s.bits.log2 + 1)).filter s.contains

/-- The members in braces, divided by commas. -/
def render (s : Slots) : Text := "\x7b" ++ Text.join "," (s.toList.map Text.ofNat) ++ "\x7d"

end Slots

/-! ## States -/

/-- The state at a point. -/
inductive Inits where
  /-- No path leads here. -/
  | dead
  /-- The branch that a constant condition rules out: it counts as reachable and never runs, so
  every variable is assigned in it. -/
  | vacuous
  | live (assigned potential : Slots)
  /-- The states after a condition that holds and one that does not. -/
  | split (yes no : Inits)
deriving DecidableEq, Inhabited

namespace Inits

/-- Nothing is assigned. -/
def start : Inits := live {} {}

def isReachable : Inits → Bool
  | dead => false
  | split a b => a.isReachable || b.isReachable
  | _ => true

/-- Whether a variable has certainly been assigned. -/
def isAssigned (n : Nat) : Inits → Bool
  | live a _ => a.contains n
  | split a b => a.isAssigned n && b.isAssigned n
  | _ => true

/-- Whether a variable may have been assigned. -/
def mayBeAssigned (n : Nat) : Inits → Bool
  | live _ p => p.contains n
  | split a b => a.mayBeAssigned n || b.mayBeAssigned n
  | _ => false

/-- The state after an assignment. -/
def assign (n : Nat) : Inits → Inits
  | live a p => live (a.insert n) (p.insert n)
  | split a b => split (a.assign n) (b.assign n)
  | s => s

/-- The state if the given variables may have been assigned as well. -/
def allow (ns : List Nat) : Inits → Inits
  | live a p => live a (ns.foldl Slots.insert p)
  | split a b => split (a.allow ns) (b.allow ns)
  | s => s

/-- The state after a variable comes into scope anew. -/
def forget (n : Nat) : Inits → Inits
  | live a p => live (a.erase n) (p.erase n)
  | split a b => split (a.forget n) (b.forget n)
  | s => s

/-! ## Joining paths -/

/-- Joins two states that do not depend on a condition: what both assign is assigned, and what
either may assign may be. A path that never runs contributes nothing. -/
def join : Inits → Inits → Inits
  | dead, b => b
  | a, dead => a
  | vacuous, b => b
  | a, vacuous => a
  | live a p, live b q => live (a.inter b) (p.union q)
  | a, _ => a

/-- The state whatever the outcome of the condition. -/
def unconditional : Inits → Inits
  | split a b => join a.unconditional b.unconditional
  | s => s

/-- The state where two paths join. -/
def merge (a b : Inits) : Inits := join a.unconditional b.unconditional

/-- The state if the condition holds. -/
def whenTrue : Inits → Inits
  | split a _ => a
  | s => s

/-- The state if the condition does not hold. -/
def whenFalse : Inits → Inits
  | split _ b => b
  | s => s

/-- Adds the assignments of a block that runs on the way out. -/
def andThen (s block : Inits) : Inits :=
  match s, block.unconditional with
  | live a p, live b q => live (a.union b) (p.union q)
  | s, _ => s

/-- Adds what another path may have assigned. -/
def allowFrom (s other : Inits) : Inits :=
  match s, other.unconditional with
  | live a p, live _ q => live a (p.union q)
  | s, _ => s

/-- Whether two states assign the same variables. -/
def agree (a b : Inits) : Bool := a.unconditional == b.unconditional

def render : Inits → Text
  | dead => "dead"
  | vacuous => "vacuous"
  | live a p => "assigned" ++ a.render ++ " potential" ++ p.render
  | split a b => "true:" ++ a.render ++ " false:" ++ b.render

end Inits

end Javelin.Flow
