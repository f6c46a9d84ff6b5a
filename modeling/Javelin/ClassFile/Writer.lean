import Javelin.ClassFile.Basic
import Javelin.ClassFile.Pool

/-!
# Writing class files

Numbers are written with the high byte first. `ClassFile.toBytes` is read back by
`ClassFile.ofBytes`.
-/

namespace Javelin

namespace Text

/-- Appends two bytes. -/
def pushU2 (t : Text) (v : UInt16) : Text := (t.push (v >>> 8).toUInt8).push v.toUInt8

/-- Appends four bytes. -/
def pushU4 (t : Text) (v : UInt32) : Text :=
  (t.pushU2 (v >>> 16).toUInt16).pushU2 v.toUInt16

/-- Appends eight bytes. -/
def pushU8 (t : Text) (v : UInt64) : Text := (t.pushU4 (v >>> 32).toUInt32).pushU4 v.toUInt32

end Text

namespace ClassFile

/-- Why a class cannot be written. -/
inductive WriteFault where
  | poolTooLarge (name : Text) (entries : Nat)
  | stringTooLong (index bytes : Nat)
deriving DecidableEq

def WriteFault.message : WriteFault → Text
  | .poolTooLarge name n =>
    "marshal " ++ name ++ ": constant pool has " ++ Text.ofNat n ++ " entries"
  | .stringTooLong i n =>
    "marshal constant pool entry " ++ Text.ofNat i ++ ": string of " ++ Text.ofNat n ++
      " bytes is too long"

/-- The body of an entry, behind its tag. -/
def Entry.append (out : Text) : Entry → Text
  | .utf8 t =>
    let b := t.toStored
    out.pushU2 b.size.toUInt16 ++ b
  | .integer v => out.pushU4 v.toUInt32
  | .float b => out.pushU4 b
  | .long v => out.pushU8 v.toUInt64
  | .double b => out.pushU8 b
  | .cls i => out.pushU2 i
  | .string i => out.pushU2 i
  | .ref _ c nt => (out.pushU2 c).pushU2 nt
  | .nameAndType n d => (out.pushU2 n).pushU2 d
  | .methodHandle k i => (out.push k).pushU2 i
  | .methodType i => out.pushU2 i
  | .dynamic _ b nt => (out.pushU2 b).pushU2 nt
  | .module i => out.pushU2 i
  | .package i => out.pushU2 i

/-- The entries from an index on. -/
def appendEntries (out : Text) (i : Nat) : List (Option Entry) → Except WriteFault Text
  | [] => return out
  | none :: es => appendEntries out (i + 1) es
  | some e :: es => do
    if let .utf8 t := e then
      let n := t.toStored.size
      if 65535 < n then throw (.stringTooLong i n)
    appendEntries (e.append (out.push e.tag)) (i + 1) es

/-- Attributes behind their number. -/
def appendAttributes (out : Text) (as : List Attribute) : Text :=
  as.foldl (fun out a => (out.pushU2 a.name).pushU4 a.bytes.size.toUInt32 ++ a.bytes)
    (out.pushU2 as.length.toUInt16)

/-- Fields or methods behind their number. -/
def appendMembers (out : Text) (ms : List Member) : Text :=
  ms.foldl
    (fun out m =>
      appendAttributes (((out.pushU2 m.flags.bits).pushU2 m.name).pushU2 m.descriptor) m.attributes)
    (out.pushU2 ms.length.toUInt16)

/-- The bytes of a class file. -/
def toBytes (c : ClassFile) : Except WriteFault Text := do
  let n := c.pool.entries.size
  if 65535 < n + 1 then throw (.poolTooLarge c.name n)
  let out := (((Text.empty.pushU4 0xCAFEBABE).pushU2 c.minor).pushU2 c.major).pushU2
    (n + 1).toUInt16
  let out ← appendEntries out 1 c.pool.entries.toList
  let out := ((out.pushU2 c.flags.bits).pushU2 c.thisClass).pushU2 c.superClass
  let out := c.interfaces.foldl Text.pushU2 (out.pushU2 c.interfaces.length.toUInt16)
  return appendAttributes (appendMembers (appendMembers out c.fields) c.methods) c.attributes

end ClassFile

end Javelin
