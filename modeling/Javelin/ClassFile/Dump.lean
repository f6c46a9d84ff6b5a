import Javelin.ClassFile.Builder
import Javelin.Constant.Fold

/-!
# Dumps of class files

Everything that a class file holds, as a document. References into the constant pool are left as the
indices that they are.
-/

namespace Javelin.ClassFile

open JsonValue

def indexValue (i : UInt16) : JsonValue := .nat i.toNat

def indices (is : List UInt16) : JsonValue := .array (is.map indexValue)

/-- A list that starts with a word. -/
def tagged (tag : Text) (rest : List JsonValue) : JsonValue := .array (.string tag :: rest)

def dumpEntry : Entry → JsonValue
  | .utf8 t => .strings ["Utf8", t]
  | .integer v => tagged "Integer" [.int v.toInt]
  | .float b => .strings ["Float", Constant.singleBits b]
  | .long v => .strings ["Long", Text.ofInt v.toInt]
  | .double b => .strings ["Double", Constant.doubleBits b]
  | .cls i => tagged "Class" [indexValue i]
  | .string i => tagged "String" [indexValue i]
  | .ref k c nt => tagged ("Ref" ++ Text.ofNat k.tag.toNat) [indexValue c, indexValue nt]
  | .nameAndType n d => tagged "NameAndType" [indexValue n, indexValue d]
  | .methodHandle k i => tagged "MethodHandle" [.nat k.toNat, indexValue i]
  | .methodType i => tagged "MethodType" [indexValue i]
  | .dynamic isCall b nt =>
    tagged (if isCall then "Dynamic18" else "Dynamic17") [indexValue b, indexValue nt]
  | .module i => tagged "Module" [indexValue i]
  | .package i => tagged "Package" [indexValue i]

def dumpHandler (h : Handler) : JsonValue := indices [h.start, h.stop, h.target, h.catchType]

mutual

/-- An attribute; one that is not understood is given by its bytes. -/
def dumpAttribute (p : Pool) : Attribute → JsonValue
  | ⟨name, bytes, body⟩ =>
    .array [.string (p.utf8 name), match body with
      | .code c => dumpCode p c
      | .index i => indexValue i
      | .exceptions is => indices is
      | .innerClasses es =>
        .array (es.map fun e => indices [e.inner, e.outer, e.name, e.flags.bits])
      | .lines es => .array (es.map fun e => indices [e.pc, e.line])
      | .enclosingMethod c m => indices [c, m]
      | .marker => .bool true
      | .other => .string bytes.toHex]

def dumpCode (p : Pool) : Code → JsonValue
  | ⟨maxStack, maxLocals, bytes, handlers, attributes⟩ =>
    record [("stack", indexValue maxStack), ("locals", indexValue maxLocals),
      ("code", .string bytes.toHex), ("handlers", .array (handlers.map dumpHandler)),
      ("attrs", .array (dumpAttributes p attributes))]

def dumpAttributes (p : Pool) : List Attribute → List JsonValue
  | [] => []
  | a :: rest => dumpAttribute p a :: dumpAttributes p rest

end

def dumpMember (p : Pool) (m : Member) : JsonValue :=
  .array [indexValue m.flags.bits, .string (m.nameText p), .string (m.descriptorText p),
    .array (dumpAttributes p m.attributes)]

def dump (c : ClassFile) : JsonValue :=
  record [("version", indices [c.major, c.minor]), ("flags", indexValue c.flags.bits),
    ("name", .string c.name), ("super", .string c.superName),
    ("interfaces", .strings c.interfaceNames),
    ("pool", .array (c.pool.entries.toList.map (optional dumpEntry))),
    ("fields", .array (c.fields.map (dumpMember c.pool))),
    ("methods", .array (c.methods.map (dumpMember c.pool))),
    ("attrs", .array (dumpAttributes c.pool c.attributes))]

end Javelin.ClassFile
