import Javelin.Bytecode.Opcode
import Javelin.ClassFile.Basic

/-!
# Assembling the code of a method

`Assembly` is the code of one method so far. It counts the words on the operand stack, and drops
instructions that cannot be reached. A label is a place in the code; jumps to a label that is not
placed yet are filled in when it is.

1. Labels and instructions.
2. Jumps, placing labels and switches.
3. Line numbers.
4. `Region`, code under the protection of an exception handler.
-/

namespace Javelin.Bytecode

/-- The number of a label. -/
abbrev LabelId := Nat

/-- An operand that waits for a label: the place of its instruction, its own place, and whether it
has four bytes instead of two. -/
structure LabelRef where
  base : Nat
  place : Nat
  isWide : Bool
deriving DecidableEq, Inhabited

/-- A place in the code, with the depth of the stack there once it is known. -/
structure Label where
  pc : Option Nat := none
  depth : Option Nat := none
  refs : List LabelRef := []
deriving Inhabited

/-- The code of a method so far. -/
structure Assembly where
  bytes : Array UInt8 := #[]
  depth : Nat := 0
  maxStack : Nat := 0
  maxLocals : Nat := 0
  isReachable : Bool := true
  lines : Array ClassFile.LineEntry := #[]
  lastLine : Nat := 0
  handlers : Array ClassFile.Handler := #[]
  /-- Whether a jump is too far for two bytes. -/
  hasOverflow : Bool := false
  labels : Array Label := #[]
deriving Inhabited

namespace Assembly

/-! ## Instructions -/

/-- The place of the next instruction. -/
def pc (c : Assembly) : Nat := c.bytes.size

/-- Changes the depth of the stack. -/
def adjust (c : Assembly) (delta : Int) : Assembly :=
  let depth := (c.depth + delta).toNat
  { c with depth, maxStack := max c.maxStack depth }

def append (c : Assembly) (bs : List UInt8) : Assembly :=
  { c with bytes := bs.foldl Array.push c.bytes }

/-- An instruction with its operands and its effect on the depth of the stack. -/
def op (c : Assembly) (o : Opcode) (delta : Int) (operands : List UInt8) : Assembly :=
  if !c.isReachable then c
  else
    let c := ((c.append [o]).append operands).adjust delta
    if o.endsFlow then { c with isReachable := false } else c

/-- The two bytes of a number, the higher one first. -/
def bytes2 (v : UInt16) : List UInt8 := [(v >>> 8).toUInt8, v.toUInt8]

def bytes4 (v : UInt32) : List UInt8 :=
  [(v >>> 24).toUInt8, (v >>> 16).toUInt8, (v >>> 8).toUInt8, v.toUInt8]

/-- A load or store of a local variable: the first four have instructions of their own, and those
above 255 need the wide form. -/
def varOp (c : Assembly) (long short : Opcode) (slot : Nat) (delta : Int) : Assembly :=
  if slot < 4 then c.op (short + slot.toUInt8) delta []
  else if slot < 256 then c.op long delta [slot.toUInt8]
  else (c.op .wide 0 []).op long delta (bytes2 slot.toUInt16)

/-- Adds one to a local variable, or takes one away. -/
def increment (c : Assembly) (slot : Nat) (isUp : Bool) : Assembly :=
  if slot < 256 then c.op .iinc 0 [slot.toUInt8, if isUp then 1 else 255]
  else
    (c.op .wide 0 []).op .iinc 0 (bytes2 slot.toUInt16 ++ bytes2 (if isUp then 1 else 65535))

/-- Reserves local variable slots; the first of them. -/
def alloc (c : Assembly) (size : Nat) : Nat × Assembly :=
  (c.maxLocals, { c with maxLocals := c.maxLocals + size })

/-! ## Labels -/

def newLabel (c : Assembly) : LabelId × Assembly :=
  (c.labels.size, { c with labels := c.labels.push {} })

def label (c : Assembly) (l : LabelId) : Label := c.labels.getD l {}

def modifyLabel (c : Assembly) (l : LabelId) (f : Label → Label) : Assembly :=
  { c with labels := c.labels.modify l f }

/-- Writes bytes over those at a place. -/
def overwrite (c : Assembly) (place : Nat) (bs : List UInt8) : Assembly :=
  { c with bytes := (bs.zipIdx place).foldl (fun a (b, i) => a.setIfInBounds i b) c.bytes }

/-- Fills in an operand: the distance from its instruction to the target. -/
def patch (c : Assembly) (r : LabelRef) (target : Nat) : Assembly :=
  let distance : Int := target - r.base
  if r.isWide then c.overwrite r.place (bytes4 (Int32.ofInt distance).toUInt32)
  else
    let c := if distance < -32768 || distance > 32767 then { c with hasOverflow := true } else c
    c.overwrite r.place (bytes2 (Int16.ofInt distance).toUInt16)

/-- Fills in an operand now or when its label is placed. -/
def reference (c : Assembly) (l : LabelId) (r : LabelRef) : Assembly :=
  match (c.label l).pc with
  | some target => c.patch r target
  | none => c.modifyLabel l fun x => { x with refs := x.refs ++ [r] }

/-- The depth at a label is that of the first jump to it. -/
def noteDepth (c : Assembly) (l : LabelId) : Assembly :=
  c.modifyLabel l fun x => { x with depth := some (x.depth.getD c.depth) }

/-- A branch to a label. -/
def jump (c : Assembly) (o : Opcode) (l : LabelId) : Assembly :=
  if !c.isReachable then c
  else
    let base := c.pc
    let c := c.op o (-(o.branchPops : Int)) [0, 0]
    (c.noteDepth l).reference l ⟨base, base + 1, false⟩

/-- Binds a label to the current place. Code after a jump can be reached again if something jumps
here. -/
def place (c : Assembly) (l : LabelId) : Assembly :=
  let x := c.label l
  let here := c.pc
  let (c, depth) :=
    if c.isReachable then (c, some (x.depth.getD c.depth))
    else if !x.refs.isEmpty || x.depth.isSome then
      ({ c with isReachable := true, depth := x.depth.getD 0 }, x.depth)
    else (c, x.depth)
  let c := x.refs.foldl (fun c r => c.patch r here) c
  c.modifyLabel l fun _ => { pc := some here, depth }

/-- Starts an exception handler: the stack holds the exception alone. -/
def placeHandler (c : Assembly) (l : LabelId) : Assembly :=
  ({ c with isReachable := true, depth := 0 }.place l).adjust 1

/-! ## Switches -/

/-- A four byte operand for a label. -/
def wideReference (c : Assembly) (l : LabelId) (base : Nat) : Assembly :=
  let place := c.pc
  ((c.append [0, 0, 0, 0]).noteDepth l).reference l ⟨base, place, true⟩

/-- The targets of a table from a key on: those of the cases for their keys, and the default for the
keys between. -/
def tableTargets (other : LabelId) : Nat → Int → List (Int32 × LabelId) → List LabelId
  | 0, _, _ => []
  | n + 1, k, (key, l) :: rest =>
    if key.toInt == k then l :: tableTargets other n (k + 1) rest
    else other :: tableTargets other n (k + 1) ((key, l) :: rest)
  | n + 1, k, [] => other :: tableTargets other n (k + 1) []

/-- A switch on the number on the stack, as a table if the keys lie close together. The keys must be
in order. -/
def switchOn (c : Assembly) (cases : List (Int32 × LabelId)) (other : LabelId) : Assembly :=
  if !c.isReachable then c
  else
    let base := c.pc
    let padding := List.replicate (3 - base % 4) (0 : UInt8)
    let start (o : Opcode) : Assembly :=
      (((c.append [o]).append padding).adjust (-1)).wideReference other base
    let number (c : Assembly) (v : Int32) : Assembly := c.append (bytes4 v.toUInt32)
    let lookup : Assembly :=
      cases.foldl (fun c (k, l) => (number c k).wideReference l base)
        (number (start .lookupswitch) (Int32.ofNat cases.length))
    let c := match cases.head?, cases.getLast? with
      | some (lo, _), some (hi, _) =>
        let span := (hi.toInt - lo.toInt).toNat
        if span < 2 * cases.length + 4 then
          (tableTargets other (span + 1) lo.toInt cases).foldl (wideReference · · base)
            (number (number (start .tableswitch) lo) hi)
        else lookup
      | _, _ => lookup
    { c with isReachable := false }

/-! ## Lines -/

/-- Notes the source line of the code that follows. -/
def line (c : Assembly) (n : Nat) : Assembly :=
  if n == 0 || n == c.lastLine || !c.isReachable then c
  else
    let e : ClassFile.LineEntry := ⟨c.pc.toUInt16, n.toUInt16⟩
    let lines := match c.lines.back? with
      | some last => if last.pc.toNat == c.pc then c.lines.pop.push { last with line := e.line }
        else c.lines.push e
      | none => c.lines.push e
    { c with lastLine := n, lines }

end Assembly

/-! ## Regions -/

/-- A range of code under the protection of handlers. Code that a jump out of it runs on the way is
cut out. -/
structure Region where
  start : Nat
  stop : Nat := 0
  gaps : List (Nat × Nat) := []
deriving DecidableEq, Inhabited

namespace Region

/-- Cuts a range out. -/
def cut (r : Region) (start stop : Nat) : Region :=
  if stop > start then { r with gaps := r.gaps ++ [(start, stop)] } else r

/-- The ranges between the gaps, from a place on. -/
def rangesFrom (stop : Nat) : Nat → List (Nat × Nat) → List (Nat × Nat)
  | start, [] => if stop > start then [(start, stop)] else []
  | start, (a, b) :: rest =>
    if a > start then (start, a) :: rangesFrom stop (max start b) rest
    else rangesFrom stop (max start b) rest

/-- The ranges that are protected. -/
def ranges (r : Region) : List (Nat × Nat) := rangesFrom r.stop r.start r.gaps

end Region

namespace Assembly

def addHandler (c : Assembly) (range : Nat × Nat) (target : Nat) (type : UInt16) : Assembly :=
  let h : ClassFile.Handler := ⟨range.1.toUInt16, range.2.toUInt16, target.toUInt16, type⟩
  { c with handlers := c.handlers.push h }

/-- Protects a region by the handler at a place. -/
def protect (c : Assembly) (r : Region) (target : Nat) (type : UInt16) : Assembly :=
  r.ranges.foldl (fun c range => c.addHandler range target type) c

end Assembly

end Javelin.Bytecode
