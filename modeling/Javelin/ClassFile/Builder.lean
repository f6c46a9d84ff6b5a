import Std.Data.HashMap
import Javelin.ClassFile.Reader
import Javelin.ClassFile.Writer

/-!
# Building class files

A builder grows a class file. Asking twice for the same constant gives the same index. The pool can
overflow and code can be too long; the first such fault is kept, and building goes on.
-/

namespace Javelin.ClassFile

/-- Why a class that was built cannot be used. -/
inductive BuildFault where
  | poolOverflow (name : Text)
  | codeLength (n : Nat)
  | truncated (t : Truncated)
deriving DecidableEq

def BuildFault.message : BuildFault → Text
  | .poolOverflow name => "constant pool of " ++ name ++ " overflows"
  | .codeLength n => "code length " ++ Text.ofNat n ++ " out of range"
  | .truncated t => AttributeFault.message (.truncated t)

structure Builder where
  file : ClassFile
  index : Std.HashMap Entry UInt16 := {}
  fault : Option BuildFault := none
deriving Inhabited

/-- The first version of the format that needs no stack maps is the one written. -/
def writtenMajor : UInt16 := 49

/-- An action that grows a class file. -/
abbrev Build := StateM Builder

namespace Builder

def fail (f : BuildFault) : Build Unit :=
  modify fun b => { b with fault := some (b.fault.getD f) }

/-- The index of an entry, which is added if it is new. -/
def add (e : Entry) : Build UInt16 := do
  let b ← get
  match b.index.get? e with
  | some i => return i
  | none =>
    let entries := b.file.pool.entries
    if 65535 ≤ entries.size + e.slots then
      fail (.poolOverflow b.file.name)
      return 0
    let i := (entries.size + 1).toUInt16
    modify fun b =>
      let es := b.file.pool.entries
      let b := { b with file := { b.file with pool := {} } }
      let es := es.push (some e)
      let es := if e.slots == 2 then es.push none else es
      { b with file := { b.file with pool := ⟨es⟩ }, index := b.index.insert e i }
    return i

def utf8 (t : Text) : Build UInt16 := add (.utf8 t)

def cls (name : Text) : Build UInt16 := do add (.cls (← utf8 name))

def string (t : Text) : Build UInt16 := do add (.string (← utf8 t))

def integer (v : Int32) : Build UInt16 := add (.integer v)

def float (bits : UInt32) : Build UInt16 := add (.float bits)

def long (v : Int64) : Build UInt16 := add (.long v)

def double (bits : UInt64) : Build UInt16 := add (.double bits)

def nameAndType (name descriptor : Text) : Build UInt16 := do
  let n ← utf8 name
  let d ← utf8 descriptor
  add (.nameAndType n d)

def ref (kind : RefKind) (owner name descriptor : Text) : Build UInt16 := do
  let c ← cls owner
  let nt ← nameAndType name descriptor
  add (.ref kind c nt)

/-- Changes the class file. -/
def modifyFile (f : ClassFile → ClassFile) : Build Unit :=
  modify fun b => { b with file := f b.file }

/-- A class with the given internal names; only the root of all classes has no superclass. -/
def new (flags : AccessFlags) (name super : Text) (interfaces : List Text) : Builder :=
  let start : Builder := { file := { major := writtenMajor, flags } }
  let build : Build Unit := do
    let this ← cls name
    modifyFile fun f => { f with thisClass := this }
    if !super.isEmpty then
      let s ← cls super
      modifyFile fun f => { f with superClass := s }
    let is ← interfaces.mapM cls
    modifyFile fun f => { f with interfaces := is }
  (build.run start).2

/-! ## Members -/

def memberOf (flags : AccessFlags) (name descriptor : Text) (attributes : List Attribute) :
    Build Member := do
  let n ← utf8 name
  let d ← utf8 descriptor
  return ⟨flags, n, d, attributes⟩

def addField (flags : AccessFlags) (name descriptor : Text) (attributes : List Attribute) :
    Build Unit := do
  let m ← memberOf flags name descriptor attributes
  modifyFile fun f => { f with fields := f.fields ++ [m] }

def addMethod (flags : AccessFlags) (name descriptor : Text) (attributes : List Attribute) :
    Build Unit := do
  let m ← memberOf flags name descriptor attributes
  modifyFile fun f => { f with methods := f.methods ++ [m] }

def addAttribute (a : Attribute) : Build Unit :=
  modifyFile fun f => { f with attributes := f.attributes ++ [a] }

/-! ## Attributes -/

/-- An attribute with its decoded form. -/
def attributeOf (name bytes : Text) : Build Attribute := do
  let n ← utf8 name
  match decode (← get).file.pool n bytes with
  | .ok body => return ⟨n, bytes, body⟩
  | .error t =>
    fail (.truncated t)
    return ⟨n, bytes, .other⟩

def indexBytes (i : UInt16) : Text := Text.empty.pushU2 i

def constantValue (i : UInt16) : Build Attribute := attributeOf "ConstantValue" (indexBytes i)

def signature (t : Text) : Build Attribute := do
  attributeOf "Signature" (indexBytes (← utf8 t))

def sourceFile (t : Text) : Build Attribute := do
  attributeOf "SourceFile" (indexBytes (← utf8 t))

def deprecated : Build Attribute := attributeOf "Deprecated" {}

/-- The exceptions that a method declares. -/
def exceptions (names : List Text) : Build Attribute := do
  let is ← names.mapM cls
  attributeOf "Exceptions" (is.foldl Text.pushU2 (indexBytes names.length.toUInt16))

def innerClassBytes (out : Text) (c : InnerClass) : Build Text := do
  let inner ← cls c.name
  let outer ← if c.outer.isEmpty then pure 0 else cls c.outer
  let simple ← if c.simpleName.isEmpty then pure 0 else utf8 c.simpleName
  return (((out.pushU2 inner).pushU2 outer).pushU2 simple).pushU2 c.flags.bits

def innerClasses (cs : List InnerClass) : Build Attribute := do
  attributeOf "InnerClasses" (← cs.foldlM innerClassBytes (indexBytes cs.length.toUInt16))

def lineNumbers (es : List LineEntry) : Build Attribute :=
  attributeOf "LineNumberTable"
    (es.foldl (fun out e => (out.pushU2 e.pc).pushU2 e.line) (indexBytes es.length.toUInt16))

def appendHandler (out : Text) (h : Handler) : Text :=
  (((out.pushU2 h.start).pushU2 h.stop).pushU2 h.target).pushU2 h.catchType

def codeBytes (c : Code) : Text :=
  let out := ((Text.empty.pushU2 c.maxStack).pushU2 c.maxLocals).pushU4 c.bytes.size.toUInt32
  let out := (out ++ c.bytes).pushU2 c.handlers.length.toUInt16
  appendAttributes (c.handlers.foldl appendHandler out) c.attributes

def code (c : Code) : Build Attribute := do
  if c.bytes.size == 0 || 65536 ≤ c.bytes.size then fail (.codeLength c.bytes.size)
  attributeOf "Code" (codeBytes c)

end Builder

end Javelin.ClassFile
