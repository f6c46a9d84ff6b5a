import Javelin.Constant.Basic
import Javelin.Text.Utf8

/-!
# Constant pools

A class file keeps its names, numbers and references in a pool and refers to them by index. Indices
start at one, and the index after a long or double is not used. Looking up an index that is unused,
out of range or of another kind gives the empty text.
-/

namespace Javelin.ClassFile

/-- The three kinds of member references. -/
inductive RefKind where
  | field
  | method
  | interfaceMethod
deriving DecidableEq, Inhabited, Hashable, Repr

/-- An entry of a pool. -/
inductive Entry where
  | utf8 (text : Text)
  | integer (value : Int32)
  | float (bits : UInt32)
  | long (value : Int64)
  | double (bits : UInt64)
  | cls (name : UInt16)
  | string (text : UInt16)
  | ref (kind : RefKind) (cls nameAndType : UInt16)
  | nameAndType (name descriptor : UInt16)
  | methodHandle (kind : UInt8) (ref : UInt16)
  | methodType (descriptor : UInt16)
  | dynamic (isCall : Bool) (bootstrap nameAndType : UInt16)
  | module (name : UInt16)
  | package (name : UInt16)
deriving DecidableEq, Inhabited, Hashable

def RefKind.tag : RefKind → UInt8
  | .field => 9
  | .method => 10
  | .interfaceMethod => 11

/-- The byte in front of an entry in a file. -/
def Entry.tag : Entry → UInt8
  | .utf8 _ => 1
  | .integer _ => 3
  | .float _ => 4
  | .long _ => 5
  | .double _ => 6
  | .cls _ => 7
  | .string _ => 8
  | .ref k .. => k.tag
  | .nameAndType .. => 12
  | .methodHandle .. => 15
  | .methodType _ => 16
  | .dynamic isCall .. => if isCall then 18 else 17
  | .module _ => 19
  | .package _ => 20

/-- The number of indices that an entry takes. -/
def Entry.slots : Entry → Nat
  | .long _ | .double _ => 2
  | _ => 1

/-- The entries from index one on; unused indices hold nothing. -/
structure Pool where
  entries : Array (Option Entry) := #[]
deriving Inhabited

namespace Pool

def get? (p : Pool) (i : UInt16) : Option Entry :=
  if i == 0 then none else (p.entries[i.toNat - 1]?).join

def utf8 (p : Pool) (i : UInt16) : Text :=
  match p.get? i with
  | some (.utf8 t) => t
  | _ => {}

/-- The internal name of a class. -/
def className (p : Pool) (i : UInt16) : Text :=
  match p.get? i with
  | some (.cls n) => p.utf8 n
  | _ => {}

/-- A name and a descriptor. -/
def nameAndType (p : Pool) (i : UInt16) : Text × Text :=
  match p.get? i with
  | some (.nameAndType n d) => (p.utf8 n, p.utf8 d)
  | _ => ({}, {})

/-- The owner, name and descriptor of a member reference. -/
def memberRef (p : Pool) (i : UInt16) : Text × Text × Text :=
  match p.get? i with
  | some (.ref _ c nt) => (p.className c, p.nameAndType nt)
  | _ => ({}, {}, {})

/-- Why an entry is not the value of a constant. -/
inductive LoadFault where
  | outOfRange (index : UInt16)
  | notConstant (index : UInt16) (tag : UInt8)
deriving DecidableEq, Repr

def LoadFault.message : LoadFault → Text
  | .outOfRange i => "constant pool index " ++ Text.ofNat i.toNat ++ " out of range"
  | .notConstant i t =>
    "constant pool entry " ++ Text.ofNat i.toNat ++ " has tag " ++ Text.ofNat t.toNat ++
      ", not a constant value"

/-- The value of a number or string entry. -/
def loadable (p : Pool) (i : UInt16) : Except LoadFault Constant :=
  match p.get? i with
  | some (.integer v) => .ok (.int v)
  | some (.float b) => .ok (.float b)
  | some (.long v) => .ok (.long v)
  | some (.double b) => .ok (.double b)
  | some (.string t) => .ok (.string (p.utf8 t))
  | none => .error (.outOfRange i)
  | some e => .error (.notConstant i e.tag)

end Pool

end Javelin.ClassFile

/-!
## Strings in class files

A string is stored by its UTF-16 code units, each in one to three bytes; zero takes two. A character
outside the basic plane is a surrogate pair and takes six bytes. What is no character reads as the
replacement character.
-/

namespace Javelin.Text

/-- The code units from offset `i` on. A byte that starts no unit counts as one. -/
def storedUnitsFrom (t : Text) (i : Nat) : List Nat :=
  if h : i < t.size then
    let c := (t.get i h).toNat
    if h₂ : 0xC0 ≤ c ∧ c < 0xE0 ∧ i + 1 < t.size then
      (c % 32 * 64 + (t.get (i + 1) h₂.2.2).toNat % 64) :: storedUnitsFrom t (i + 2)
    else if h₃ : 0xE0 ≤ c ∧ c < 0xF0 ∧ i + 2 < t.size then
      (c % 16 * 4096 + (t.get (i + 1) (by omega)).toNat % 64 * 64 +
        (t.get (i + 2) h₃.2.2).toNat % 64) :: storedUnitsFrom t (i + 3)
    else c :: storedUnitsFrom t (i + 1)
  else []
termination_by t.size - i

/-- The text of a sequence of code units. -/
def ofUnits : List Nat → Text
  | [] => {}
  | [u] => ofCodePoint u
  | u :: v :: rest =>
    match joinSurrogates? u v with
    | some n => ofCodePoint n ++ ofUnits rest
    | none => ofCodePoint u ++ ofUnits (v :: rest)

/-- The text that a class file stores as the given bytes. -/
def ofStored (bytes : Text) : Text :=
  if bytes.all (· < 0x80) then bytes else ofUnits (bytes.storedUnitsFrom 0)

/-- The bytes of a code unit. -/
def storedUnit (u : Nat) : List UInt8 :=
  if u != 0 && u < 0x80 then [u.toUInt8]
  else if u < 0x800 then [(0xC0 + u / 64).toUInt8, (0x80 + u % 64).toUInt8]
  else [(0xE0 + u / 4096).toUInt8, (0x80 + u / 64 % 64).toUInt8, (0x80 + u % 64).toUInt8]

/-- The bytes that store a text in a class file. -/
def toStored (t : Text) : Text :=
  if t.all (fun b => b != 0 && b < 0x80) then t else ofList (t.units.flatMap storedUnit)

end Javelin.Text
