import Javelin.ClassFile.Basic
import Javelin.ClassFile.Pool

/-!
# Reading class files

1. Attribute bodies. They are read from a string of known length; the first read past its end is the
   fault.
2. The file. A read past the end leaves a mark and gives what was there, and reading goes on to the
   next point where the mark is looked at; so the fault names the part that was being read there.
-/

namespace Javelin.ClassFile

/-! ## Attribute bodies -/

/-- An attribute that is shorter than it says. -/
structure Truncated where
  name : Text
  offset : Nat
deriving DecidableEq

/-- Reads from a string of bytes: the string, the offset reached, and the offset of a fault. -/
abbrev BodyReader := ReaderT Text (StateT Nat (Except Nat))

def bodyU2 : BodyReader UInt16 := do
  let t ← read
  let i ← get
  if h : i + 2 ≤ t.size then
    set (i + 2)
    return (t.get i (by omega)).toUInt16 <<< 8 ||| (t.get (i + 1) (by omega)).toUInt16
  else throw i

def bodyU4 : BodyReader Nat := do
  let hi ← bodyU2
  let lo ← bodyU2
  return hi.toNat * 65536 + lo.toNat

def bodyBytes (n : Nat) : BodyReader Text := do
  let t ← read
  let i ← get
  if i + n ≤ t.size then
    set (i + n)
    return t.slice i (i + n)
  else throw i

section

variable {α β : Type} {t : Text} {i j : Nat}

theorem bodyReader_bind_ok {m : BodyReader α} {f : α → BodyReader β} {b : β}
    (h : (m >>= f) t i = .ok (b, j)) : ∃ a k, m t i = .ok (a, k) ∧ f a t k = .ok (b, j) := by
  change (m t i >>= fun r => f r.1 t r.2) = _ at h
  cases hm : m t i with
  | error o => rw [hm] at h; cases h
  | ok r => exact ⟨r.1, r.2, rfl, by rw [hm] at h; exact h⟩

theorem bodyU2_ok {v : UInt16} (h : bodyU2 t i = .ok (v, j)) : j = i + 2 := by
  change (dite (i + 2 ≤ t.size) _ _ : BodyReader UInt16) t i = _ at h
  split at h <;> cases h
  rfl

theorem bodyBytes_ok {n : Nat} {u : Text} (h : bodyBytes n t i = .ok (u, j)) :
    j = i + n ∧ j ≤ t.size ∧ u.size = n := by
  change (ite (i + n ≤ t.size) _ _ : BodyReader Text) t i = _ at h
  split at h
  next hn => cases h; exact ⟨rfl, hn, Text.size_slice hn⟩
  next => cases h

end

/-- `n` items in a row. -/
def bodyItems {α : Type} (item : BodyReader α) : Nat → BodyReader (List α)
  | 0 => return []
  | n + 1 => do
    let a ← item
    return a :: (← bodyItems item n)

/-- Items behind their number. -/
def bodyList {α : Type} (item : BodyReader α) : BodyReader (List α) := do
  bodyItems item (← bodyU2).toNat

def bodyHandler : BodyReader Handler :=
  return ⟨← bodyU2, ← bodyU2, ← bodyU2, ← bodyU2⟩

def bodyInner : BodyReader InnerEntry :=
  return ⟨← bodyU2, ← bodyU2, ← bodyU2, ⟨← bodyU2⟩⟩

def bodyLine : BodyReader LineEntry := return ⟨← bodyU2, ← bodyU2⟩

/-- Reads one body; a fault is one of the attribute with the given name. -/
def readBody {α : Type} (r : BodyReader α) (name bytes : Text) : Except Truncated α :=
  match r bytes 0 with
  | .ok (a, _) => .ok a
  | .error o => .error ⟨name, o⟩

/-- What stands in front of the attributes of a code attribute. -/
structure CodeHead where
  maxStack : UInt16
  maxLocals : UInt16
  bytes : Text
  handlers : List Handler
  count : Nat

def codeHead : BodyReader (CodeHead × Nat) := do
  let maxStack ← bodyU2
  let maxLocals ← bodyU2
  let bytes ← bodyBytes (← bodyU4)
  let handlers ← bodyList bodyHandler
  let count ← bodyU2
  return (⟨maxStack, maxLocals, bytes, handlers, count.toNat⟩, ← get)

/-- The name and bytes of an attribute at an offset, and the offset behind. -/
def attributeAt : BodyReader (UInt16 × Text × Nat) := do
  let name ← bodyU2
  let bytes ← bodyBytes (← bodyU4)
  return (name, bytes, ← get)

/-- An attribute inside the body of another is shorter than that body. -/
theorem size_lt_of_attributeAt {bytes inner : Text} {offset next i : Nat} {name : UInt16}
    (h : attributeAt bytes offset = .ok ((name, inner, next), i)) : inner.size < bytes.size := by
  obtain ⟨_, _, hname, h₁⟩ := bodyReader_bind_ok h
  obtain ⟨_, _, hlength, h₂⟩ := bodyReader_bind_ok h₁
  obtain ⟨_, _, hbytes, h₃⟩ := bodyReader_bind_ok h₂
  obtain ⟨_, _, hhi, hrest⟩ := bodyReader_bind_ok hlength
  obtain ⟨_, _, hlo, hend⟩ := bodyReader_bind_ok hrest
  have := bodyU2_ok hname
  have := bodyU2_ok hhi
  have := bodyU2_ok hlo
  have := bodyBytes_ok hbytes
  cases hend
  cases h₃
  omega

mutual

/-- The decoded form of an attribute. -/
def decode (p : Pool) (nameIndex : UInt16) (bytes : Text) : Except Truncated Attribute.Body := do
  let name := p.utf8 nameIndex
  match name.toString?.getD "" with
  | "Code" =>
    let (h, offset) ← readBody codeHead name bytes
    let attributes ← nestedFrom p name bytes offset h.count
    return .code ⟨h.maxStack, h.maxLocals, h.bytes, h.handlers, attributes⟩
  | "ConstantValue" | "Signature" | "SourceFile" =>
    return .index (← readBody bodyU2 name bytes)
  | "Exceptions" => return .exceptions (← readBody (bodyList bodyU2) name bytes)
  | "InnerClasses" => return .innerClasses (← readBody (bodyList bodyInner) name bytes)
  | "LineNumberTable" => return .lines (← readBody (bodyList bodyLine) name bytes)
  | "EnclosingMethod" =>
    let (c, m) ← readBody (do return (← bodyU2, ← bodyU2)) name bytes
    return .enclosingMethod c m
  | "Deprecated" | "Synthetic" => return .marker
  | _ => return .other
termination_by (bytes.size, 1, 0)

/-- The next `n` attributes inside the body of the attribute `outer`. -/
def nestedFrom (p : Pool) (outer bytes : Text) (offset : Nat) :
    Nat → Except Truncated (List Attribute)
  | 0 => return []
  | n + 1 =>
    match h : attributeAt bytes offset with
    | .ok ((name, inner, next), _) => do
      have := size_lt_of_attributeAt h
      let body ← decode p name inner
      let rest ← nestedFrom p outer bytes next n
      return ⟨name, inner, body⟩ :: rest
    | .error o => throw ⟨outer, o⟩
termination_by n => (bytes.size, 0, n)

end

/-! ## Faults of files -/

/-- How a file ended too early: before an item or inside it. -/
inductive Ended where
  | before
  | inside
deriving DecidableEq, Repr

def Ended.message : Ended → Text
  | .before => "EOF"
  | .inside => "unexpected EOF"

inductive AttributeFault where
  | ended (e : Ended)
  | truncated (t : Truncated)
deriving DecidableEq

def AttributeFault.message : AttributeFault → Text
  | .ended e => e.message
  | .truncated t =>
    "decode " ++ t.name ++ " attribute: attribute truncated at offset " ++ Text.ofNat t.offset

/-- Why bytes are not a class file. -/
inductive ReadFault where
  | noMagic (e : Ended)
  | badMagic (n : UInt32)
  | noHeader (e : Ended)
  | emptyPool
  | entryEnded (index : Nat) (e : Ended)
  /-- There is no such place in the pool. This is no answer: reading breaks down. -/
  | outside (place size : Nat)
  | unknownTag (index : Nat) (tag : UInt8)
  | classInfo (e : Ended)
  | notClass (index : UInt16)
  | field (index : Nat) (f : AttributeFault)
  | method (index : Nat) (f : AttributeFault)
  | classAttributes (f : AttributeFault)
deriving DecidableEq

/-- The hexadecimal digits of a number, upper case and without leading zeros. -/
def upperHex (n : Nat) : Text := String.toUpper (String.ofList (Nat.toDigits 16 n))

def ReadFault.message : ReadFault → Text
  | .noMagic e => "read magic: " ++ e.message
  | .badMagic n => "invalid magic number: 0x" ++ upperHex n.toNat ++ " (expected 0xCAFEBABE)"
  | .noHeader e => "read header: " ++ e.message
  | .emptyPool => "invalid constant pool count 0"
  | .entryEnded i e => "read constant pool entry " ++ Text.ofNat i ++ ": " ++ e.message
  | .outside i n =>
    "index out of range [" ++ Text.ofNat i ++ "] with length " ++ Text.ofNat n
  | .unknownTag i t =>
    "read constant pool entry " ++ Text.ofNat i ++ ": unknown constant pool tag: " ++
      Text.ofNat t.toNat
  | .classInfo e => "read class info: " ++ e.message
  | .notClass i => "this_class index " ++ Text.ofNat i.toNat ++ " is not a class entry"
  | .field i f => "read field " ++ Text.ofNat i ++ ": " ++ f.message
  | .method i f => "read method " ++ Text.ofNat i ++ ": " ++ f.message
  | .classAttributes f => "read class attributes: " ++ f.message

/-! ## Files -/

/-- A place in a file and the mark that a read past the end leaves. -/
structure Cursor where
  data : Text
  pos : Nat := 0
  ended : Option Ended := none

abbrev FileReader := StateT Cursor (Except ReadFault)

/-- The next `n` bytes; zeros stand for bytes that are missing, and after that nothing is read. -/
def take (n : Nat) : FileReader Text := do
  let c ← get
  if c.ended.isSome then return {}
  let left := c.data.size - c.pos
  if n ≤ left then
    set { c with pos := c.pos + n }
    return c.data.slice c.pos (c.pos + n)
  else
    set { c with pos := c.data.size, ended := some (if left == 0 then .before else .inside) }
    return c.data.slice c.pos c.data.size

def u1 : FileReader UInt8 := return (← take 1).at0 0

def u2 : FileReader UInt16 := do
  let t ← take 2
  return (t.at0 0).toUInt16 <<< 8 ||| (t.at0 1).toUInt16

def u4 : FileReader UInt32 := do
  let t ← take 4
  return (t.at0 0).toUInt32 <<< 24 ||| (t.at0 1).toUInt32 <<< 16 |||
    (t.at0 2).toUInt32 <<< 8 ||| (t.at0 3).toUInt32

/-- Fails if the file ended too early. -/
def checkEnd (fault : Ended → ReadFault) : FileReader Unit := do
  match (← get).ended with
  | some e => throw (fault e)
  | none => pure ()

/-- `n` items in a row. -/
def items {α : Type} (item : FileReader α) : Nat → FileReader (List α)
  | 0 => return []
  | n + 1 => do
    let a ← item
    return a :: (← items item n)

/-- `n` items in a row, each of which knows its index. -/
def itemsFrom {α : Type} (item : Nat → FileReader α) (i : Nat) : Nat → FileReader (List α)
  | 0 => return []
  | n + 1 => do
    let a ← item i
    return a :: (← itemsFrom item (i + 1) n)

def refKind? (tag : UInt8) : Option RefKind :=
  [RefKind.field, .method, .interfaceMethod].find? fun k => k.tag == tag

/-- The entry with the given index. -/
def entry (i : Nat) : FileReader Entry := do
  let tag ← u1
  let e ← match tag with
    | 1 => do pure (Entry.utf8 (Text.ofStored (← take (← u2).toNat)))
    | 3 => do pure (Entry.integer (← u4).toInt32)
    | 4 => do pure (Entry.float (← u4))
    | 5 => do
      let hi ← u4
      let lo ← u4
      pure (Entry.long (hi.toUInt64 <<< 32 ||| lo.toUInt64).toInt64)
    | 6 => do
      let hi ← u4
      let lo ← u4
      pure (Entry.double (hi.toUInt64 <<< 32 ||| lo.toUInt64))
    | 7 => do pure (Entry.cls (← u2))
    | 8 => do pure (Entry.string (← u2))
    | 12 => do pure (Entry.nameAndType (← u2) (← u2))
    | 15 => do pure (Entry.methodHandle (← u1) (← u2))
    | 16 => do pure (Entry.methodType (← u2))
    | 17 => do pure (Entry.dynamic false (← u2) (← u2))
    | 18 => do pure (Entry.dynamic true (← u2) (← u2))
    | 19 => do pure (Entry.module (← u2))
    | 20 => do pure (Entry.package (← u2))
    | _ =>
      match refKind? tag with
      | some k => do pure (Entry.ref k (← u2) (← u2))
      | none => do
        checkEnd (.entryEnded i)
        throw (.unknownTag i tag)
  checkEnd (.entryEnded i)
  return e

theorem slots_bounds (e : Entry) : 0 < e.slots ∧ e.slots ≤ 2 := by
  cases e <;> simp [Entry.slots]

/-- The index behind an entry. -/
theorem toNat_add_slots {i count : UInt16} (h : i < count) (e : Entry) :
    (i + e.slots.toUInt16).toNat = if i.toNat + e.slots = 65536 then 0 else i.toNat + e.slots := by
  have hs := slots_bounds e
  have hi := UInt16.lt_iff_toNat_lt.1 h
  have hc := count.toNat_lt
  have hn : e.slots.toUInt16.toNat = e.slots := by
    rw [Nat.toUInt16_eq, UInt16.toNat_ofNat']
    omega
  rw [UInt16.toNat_add, hn]
  split <;> omega

/-- The entries from index `i` on, for a pool of all indices below `count`. The index after a long
or double holds nothing. Indices have 16 bits: behind a long or double at the last of them, zero is
next, and the pool has no place for it. -/
def entriesFrom {count : UInt16} (i : UInt16) (es : Vector (Option Entry) (count.toNat - 1)) :
    FileReader Pool :=
  if h : i < count then do
    let e ← entry i.toNat
    let place := (i - 1).toNat
    if hp : place < count.toNat - 1 then
      entriesFrom (i + e.slots.toUInt16) (es.set place (some e))
    else throw (.outside place (count.toNat - 1))
  else return ⟨es.toArray⟩
termination_by if i = 0 then 0 else 65536 - i.toNat
decreasing_by
  have hs := slots_bounds e
  have hi := UInt16.lt_iff_toNat_lt.1 h
  have hc := count.toNat_lt
  have hi0 : i ≠ 0 := by
    rintro rfl
    have : ((0 : UInt16) - 1).toNat = 65535 := rfl
    omega
  simp only [← UInt16.toNat_inj, UInt16.toNat_zero, ne_eq] at hi0 ⊢
  rw [toNat_add_slots h, if_neg hi0]
  split <;> split <;> omega

def fileAttribute (p : Pool) (fault : AttributeFault → ReadFault) : FileReader Attribute := do
  let name ← u2
  let bytes ← take (← u4).toNat
  checkEnd (fault ∘ .ended)
  match decode p name bytes with
  | .ok body => return ⟨name, bytes, body⟩
  | .error t => throw (fault (.truncated t))

def fileAttributes (p : Pool) (fault : AttributeFault → ReadFault) :
    FileReader (List Attribute) := do
  let n ← u2
  checkEnd (fault ∘ .ended)
  items (fileAttribute p fault) n.toNat

def member (p : Pool) (fault : Nat → AttributeFault → ReadFault) (i : Nat) :
    FileReader Member := do
  let flags ← u2
  let name ← u2
  let descriptor ← u2
  return ⟨⟨flags⟩, name, descriptor, ← fileAttributes p (fault i)⟩

def magic : UInt32 := 0xCAFEBABE

/-- What stands in front of the pool: the two numbers of the version and the end of the indices. -/
def header : FileReader (UInt16 × UInt16 × UInt16) := do
  let m ← u4
  checkEnd .noMagic
  if m != magic then throw (.badMagic m)
  let minor ← u2
  let major ← u2
  let count ← u2
  checkEnd .noHeader
  if count == 0 then throw .emptyPool
  return (minor, major, count)

/-- What stands behind the pool. -/
def classBody (minor major : UInt16) (pool : Pool) : FileReader ClassFile := do
  let flags ← u2
  let thisClass ← u2
  let superClass ← u2
  let interfaces ← items u2 (← u2).toNat
  checkEnd .classInfo
  match pool.get? thisClass with
  | some (.cls _) => pure ()
  | _ => throw (.notClass thisClass)
  let fields ← itemsFrom (member pool .field) 0 (← u2).toNat
  let methods ← itemsFrom (member pool .method) 0 (← u2).toNat
  let attributes ← fileAttributes pool .classAttributes
  return { minor, major, pool, flags := ⟨flags⟩, thisClass, superClass, interfaces, fields,
           methods, attributes }

def file : FileReader ClassFile := do
  let (minor, major, count) ← header
  classBody minor major (← entriesFrom 1 (Vector.replicate (count.toNat - 1) none))

/-- The class file that a string of bytes starts with. -/
def ofBytes (data : Text) : Except ReadFault ClassFile := (file.run { data }).map Prod.fst

end Javelin.ClassFile
