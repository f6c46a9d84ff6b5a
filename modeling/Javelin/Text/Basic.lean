/-!
# Byte texts

Source files, literals and messages are strings of bytes that are usually, but not always, UTF-8.
`Text` is such a string. Texts are ordered bytewise, which for well-formed UTF-8 is the order by
code point.

1. Construction, indexing and slices.
2. Searching: `startsWith`, `endsWith`, `findIdx?`, `contains`.
3. Cutting and joining: `split`, `join`, `replace`, the trims.
4. Order.
-/

namespace Javelin

-- Bytes are compared as arrays.
attribute [local instance (1100)] ByteArray.instDecidableEq

-- Powers are those of the numbers themselves, also where they form a known structure.
attribute [instance (1100)] instPowNat

/-- A string of bytes. -/
structure Text where
  bytes : ByteArray
deriving DecidableEq, Hashable, Inhabited

/-- A character literal stands for its low byte wherever a byte is expected. -/
scoped instance byteOfChar : Coe Char UInt8 := ⟨fun c => c.toNat.toUInt8⟩

namespace Text

/-! ## Construction and indexing -/

def ofString (s : String) : Text := ⟨s.toUTF8⟩

instance : Coe String Text := ⟨ofString⟩

def empty : Text := ⟨ByteArray.empty⟩

instance : EmptyCollection Text := ⟨empty⟩

@[inline] def size (t : Text) : Nat := t.bytes.size

@[inline] def isEmpty (t : Text) : Bool := t.bytes.size == 0

/-- The byte at `i`, or zero past the end. -/
@[inline] def at0 (t : Text) (i : Nat) : UInt8 :=
  if h : i < t.bytes.size then t.bytes[i] else 0

/-- The byte at `i`, which lies inside. -/
@[inline] def get (t : Text) (i : Nat) (h : i < t.size) : UInt8 := t.bytes.get i h

/-- The byte at `i`, if there is one. -/
@[inline] def get? (t : Text) (i : Nat) : Option UInt8 :=
  if h : i < t.bytes.size then some t.bytes[i] else none

protected def append (a b : Text) : Text := ⟨a.bytes ++ b.bytes⟩

instance : Append Text := ⟨Text.append⟩

@[inline] def push (t : Text) (b : UInt8) : Text := ⟨t.bytes.push b⟩

/-- The bytes from `i` up to and without `j`. -/
def slice (t : Text) (i j : Nat) : Text := ⟨t.bytes.extract i j⟩

theorem size_slice {t : Text} {i n : Nat} (h : i + n ≤ t.size) : (t.slice i (i + n)).size = n := by
  have hn : min (i + n) t.bytes.size = i + n := Nat.min_eq_left h
  simp [slice, size, hn]

def take (t : Text) (n : Nat) : Text := t.slice 0 n

def drop (t : Text) (n : Nat) : Text := t.slice n t.size

def dropRight (t : Text) (n : Nat) : Text := t.slice 0 (t.size - n)

def ofList (bs : List UInt8) : Text := ⟨⟨bs.toArray⟩⟩

def toList (t : Text) : List UInt8 := t.bytes.data.toList

def singleton (b : UInt8) : Text := empty.push b

/-- `n` copies of the byte `b`. -/
def replicate (n : Nat) (b : UInt8) : Text := ofList (List.replicate n b)

/-- Whether the bytes are well-formed UTF-8. -/
def isUtf8 (t : Text) : Bool := t.bytes.validateUTF8

/-- The text as a string, if it is well-formed UTF-8. -/
def toString? (t : Text) : Option String := String.fromUTF8? t.bytes

/-- The decimal digits of a natural number. -/
def ofNat (n : Nat) : Text := ofString (Nat.repr n)

/-- The decimal digits of an integer, with a minus sign if it is negative. -/
def ofInt (n : Int) : Text :=
  match n with
  | .ofNat m => ofNat m
  | .negSucc m => "-" ++ ofNat (m + 1)

/-! ## Searching -/

/-- Whether `p` stands in `t` at offset `i`. -/
def hasAt (t : Text) (i : Nat) (p : Text) : Bool :=
  i + p.size ≤ t.size && go p.size
where
  /-- Compares the first `n` bytes, the last one first. -/
  go : Nat → Bool
    | 0 => true
    | n + 1 => t.at0 (i + n) == p.at0 n && go n

def startsWith (t p : Text) : Bool := t.hasAt 0 p

def endsWith (t p : Text) : Bool := p.size ≤ t.size && t.hasAt (t.size - p.size) p

/-- The first offset at or after `i`, among the next `n`, whose byte satisfies `p`. -/
def findFrom (t : Text) (p : UInt8 → Bool) (i : Nat) : Nat → Option Nat
  | 0 => none
  | n + 1 => if p (t.at0 i) then some i else findFrom t p (i + 1) n

/-- The offset of the first byte that satisfies `p`. -/
def findIdx? (t : Text) (p : UInt8 → Bool) : Option Nat := t.findFrom p 0 t.size

def any (t : Text) (p : UInt8 → Bool) : Bool := (t.findIdx? p).isSome

def all (t : Text) (p : UInt8 → Bool) : Bool := !t.any (fun b => !p b)

/-- The first offset at or after `i`, among the next `n`, at which `p` stands. -/
def findTextFrom (t p : Text) (i : Nat) : Nat → Option Nat
  | 0 => none
  | n + 1 => if t.hasAt i p then some i else findTextFrom t p (i + 1) n

/-- The offset of the first occurrence of `p`. -/
def findText? (t p : Text) : Option Nat := t.findTextFrom p 0 (t.size + 1)

def contains (t p : Text) : Bool := (t.findText? p).isSome

/-- The offset of the last byte that satisfies `p`. -/
def lastIdx? (t : Text) (p : UInt8 → Bool) : Option Nat := go t.size
where
  /-- Searches the first `n` bytes from the back. -/
  go : Nat → Option Nat
    | 0 => none
    | n + 1 => if p (t.at0 n) then some n else go n

/-- Number of bytes that satisfy `p`. -/
def count (t : Text) (p : UInt8 → Bool) : Nat :=
  t.bytes.foldl (fun n b => if p b then n + 1 else n) 0

/-- The end of the run of bytes satisfying `p` that starts at `i`. -/
def skipWhile (t : Text) (p : UInt8 → Bool) (i : Nat) : Nat :=
  if h : i < t.bytes.size then
    if p t.bytes[i] then skipWhile t p (i + 1) else i
  else i
termination_by t.bytes.size - i

/-! ## Cutting and joining -/

/-- The pieces between the bytes equal to `b`; always at least one. -/
def split (t : Text) (b : UInt8) : List Text :=
  go (t.size + 1) 0
where
  /-- Cuts the rest from `i` on, with at most `n` pieces left. -/
  go : Nat → Nat → List Text
    | 0, _ => []
    | n + 1, i =>
      let j := t.skipWhile (· != b) i
      if j < t.size then t.slice i j :: go n (j + 1) else [t.slice i t.size]

def join (sep : Text) : List Text → Text
  | [] => empty
  | t :: ts => ts.foldl (fun acc u => acc ++ sep ++ u) t

def concat (ts : List Text) : Text := ts.foldl (· ++ ·) empty

def filter (t : Text) (p : UInt8 → Bool) : Text :=
  ⟨t.bytes.foldl (fun acc b => if p b then acc.push b else acc) ByteArray.empty⟩

def map (t : Text) (f : UInt8 → UInt8) : Text :=
  ⟨t.bytes.foldl (fun acc b => acc.push (f b)) ByteArray.empty⟩

/-- Replaces every occurrence of the non-empty text `p`, from the left, by `r`. -/
def replace (t p r : Text) : Text :=
  go (t.size + 1) 0 empty
where
  /-- Copies the rest from `i` on behind `acc`. -/
  go : Nat → Nat → Text → Text
    | 0, _, acc => acc
    | n + 1, i, acc =>
      if i < t.size then
        if t.hasAt i p then go n (i + p.size) (acc ++ r) else go n (i + 1) (acc.push (t.at0 i))
      else acc

/-- Drops the longest run at the front whose bytes satisfy `p`. -/
def trimLeft (t : Text) (p : UInt8 → Bool) : Text := t.drop (t.skipWhile p 0)

/-- Drops the longest run at the back whose bytes satisfy `p`. -/
def trimRight (t : Text) (p : UInt8 → Bool) : Text :=
  match t.lastIdx? (fun b => !p b) with
  | some i => t.take (i + 1)
  | none => empty

/-- Drops `p` from the front if it stands there. -/
def dropStart (t p : Text) : Text := if t.startsWith p then t.drop p.size else t

/-- Drops `p` from the end if it stands there. -/
def dropEnd (t p : Text) : Text := if t.endsWith p then t.dropRight p.size else t

/-! ## Order -/

/-- Bytewise order. -/
def compare (a b : Text) : Ordering :=
  go (min a.size b.size) 0
where
  /-- Compares from offset `i` on, with `n` common offsets left. -/
  go : Nat → Nat → Ordering
    | 0, _ => Ord.compare a.size b.size
    | n + 1, i =>
      match Ord.compare (a.at0 i) (b.at0 i) with
      | .eq => go n (i + 1)
      | o => o

instance : Ord Text := ⟨Text.compare⟩

def lt (a b : Text) : Bool := a.compare b == .lt

def le (a b : Text) : Bool := a.compare b != .gt

end Text

end Javelin
