import Javelin.ClassFile.Pool

/-!
# Class files

A class file holds a pool of constants, the class and its supertypes, fields, methods and
attributes. An attribute is a named string of bytes; those that matter here are also held decoded.

1. Access flags.
2. Attributes, members and whole class files.
-/

namespace Javelin

/-! ## Access flags -/

/-- Sixteen bits beside every class, field and method. Some bits mean one thing on a class and
another on a member. -/
structure AccessFlags where
  bits : UInt16 := 0
deriving DecidableEq, Inhabited, Hashable, Repr

namespace AccessFlags

def «public» : AccessFlags := ⟨0x0001⟩

def «private» : AccessFlags := ⟨0x0002⟩

def «protected» : AccessFlags := ⟨0x0004⟩

def static : AccessFlags := ⟨0x0008⟩

def final : AccessFlags := ⟨0x0010⟩

/-- On a class. -/
def super : AccessFlags := ⟨0x0020⟩

/-- On a method. -/
def synchronized : AccessFlags := ⟨0x0020⟩

/-- On a field. -/
def volatile : AccessFlags := ⟨0x0040⟩

/-- On a method. -/
def bridge : AccessFlags := ⟨0x0040⟩

/-- On a field. -/
def transient : AccessFlags := ⟨0x0080⟩

/-- On a method. -/
def varargs : AccessFlags := ⟨0x0080⟩

def native : AccessFlags := ⟨0x0100⟩

def interface : AccessFlags := ⟨0x0200⟩

def «abstract» : AccessFlags := ⟨0x0400⟩

def strict : AccessFlags := ⟨0x0800⟩

def synthetic : AccessFlags := ⟨0x1000⟩

def annot : AccessFlags := ⟨0x2000⟩

def enum : AccessFlags := ⟨0x4000⟩

def module : AccessFlags := ⟨0x8000⟩

def union (a b : AccessFlags) : AccessFlags := ⟨a.bits ||| b.bits⟩

/-- Whether any of the given flags is set. -/
def has (a b : AccessFlags) : Bool := a.bits &&& b.bits != 0

def without (a b : AccessFlags) : AccessFlags := ⟨a.bits &&& ~~~b.bits⟩

/-- All flags of a list. -/
def ofList (fs : List AccessFlags) : AccessFlags := fs.foldl union {}

end AccessFlags

/-! ## Attributes, members and whole class files -/

namespace ClassFile

/-- A range of code, where it is handled, and the class handled there or zero for any. -/
structure Handler where
  start : UInt16
  stop : UInt16
  target : UInt16
  catchType : UInt16
deriving DecidableEq, Inhabited

/-- The line of the code from an offset on. -/
structure LineEntry where
  pc : UInt16
  line : UInt16
deriving DecidableEq, Inhabited

/-- A class that this one mentions and that is nested in another. -/
structure InnerEntry where
  inner : UInt16
  outer : UInt16
  name : UInt16
  flags : AccessFlags
deriving DecidableEq, Inhabited

mutual

/-- A decoded attribute. -/
inductive Attribute.Body where
  | code (code : Code)
  /-- The attributes that are one index: a constant value, a signature, the source file. -/
  | index (i : UInt16)
  | exceptions (classes : List UInt16)
  | innerClasses (entries : List InnerEntry)
  | lines (entries : List LineEntry)
  | enclosingMethod (cls method : UInt16)
  /-- The attributes whose presence is all: deprecated, synthetic. -/
  | marker
  /-- An attribute that is only kept. -/
  | other

/-- A named string of bytes. -/
structure Attribute where
  name : UInt16
  bytes : Text
  body : Attribute.Body

/-- The code of a method. -/
structure Code where
  maxStack : UInt16
  maxLocals : UInt16
  bytes : Text
  handlers : List Handler
  attributes : List Attribute

end

instance : Inhabited Attribute := ⟨⟨0, {}, .other⟩⟩

instance : Inhabited Code := ⟨⟨0, 0, {}, [], []⟩⟩

/-- A field or a method. -/
structure Member where
  flags : AccessFlags
  name : UInt16
  descriptor : UInt16
  attributes : List Attribute
deriving Inhabited

end ClassFile

structure ClassFile where
  minor : UInt16 := 0
  major : UInt16 := 0
  pool : ClassFile.Pool := {}
  flags : AccessFlags := {}
  thisClass : UInt16 := 0
  superClass : UInt16 := 0
  interfaces : List UInt16 := []
  fields : List ClassFile.Member := []
  methods : List ClassFile.Member := []
  attributes : List ClassFile.Attribute := []
deriving Inhabited

namespace ClassFile

/-! ## Attributes by name -/

/-- The first attribute of a name. -/
def findAttribute? (as : List Attribute) (p : Pool) (name : Text) : Option Attribute :=
  as.find? fun a => p.utf8 a.name == name

/-- The index that an attribute consists of. -/
def indexOf? (as : List Attribute) (p : Pool) (name : Text) : Option UInt16 :=
  match findAttribute? as p name with
  | some ⟨_, _, .index i⟩ => some i
  | _ => none

/-- The generic signature, or nothing. -/
def signatureOf (as : List Attribute) (p : Pool) : Text :=
  ((indexOf? as p "Signature").map p.utf8).getD {}

def isDeprecatedIn (as : List Attribute) (p : Pool) : Bool :=
  (findAttribute? as p "Deprecated").isSome

/-! ## Members -/

namespace Member

def nameText (m : Member) (p : Pool) : Text := p.utf8 m.name

def descriptorText (m : Member) (p : Pool) : Text := p.utf8 m.descriptor

def signature (m : Member) (p : Pool) : Text := signatureOf m.attributes p

def isDeprecated (m : Member) (p : Pool) : Bool := isDeprecatedIn m.attributes p

/-- The constant that a field is initialized with. -/
def constantValue? (m : Member) (p : Pool) : Option Constant :=
  (indexOf? m.attributes p "ConstantValue").bind fun i => (p.loadable i).toOption

def code? (m : Member) (p : Pool) : Option Code :=
  match findAttribute? m.attributes p "Code" with
  | some ⟨_, _, .code c⟩ => some c
  | _ => none

/-- The internal names of the exceptions that a method declares. -/
def exceptionNames (m : Member) (p : Pool) : List Text :=
  match findAttribute? m.attributes p "Exceptions" with
  | some ⟨_, _, .exceptions is⟩ => is.map p.className
  | _ => []

def isConstructor (m : Member) (p : Pool) : Bool := m.nameText p == "<init>"

def lineNumbers (m : Member) (p : Pool) : List LineEntry :=
  match m.code? p with
  | none => []
  | some c =>
    match findAttribute? c.attributes p "LineNumberTable" with
    | some ⟨_, _, .lines es⟩ => es
    | _ => []

end Member

/-! ## Classes -/

def name (c : ClassFile) : Text := c.pool.className c.thisClass

/-- The internal name of the superclass, empty for the root of all classes. -/
def superName (c : ClassFile) : Text :=
  if c.superClass == 0 then {} else c.pool.className c.superClass

def interfaceNames (c : ClassFile) : List Text := c.interfaces.map c.pool.className

def isInterface (c : ClassFile) : Bool := c.flags.has .interface && !c.flags.has .annot

def signature (c : ClassFile) : Text := signatureOf c.attributes c.pool

def sourceFile (c : ClassFile) : Text :=
  ((indexOf? c.attributes c.pool "SourceFile").map c.pool.utf8).getD {}

def isDeprecated (c : ClassFile) : Bool := isDeprecatedIn c.attributes c.pool

def field? (c : ClassFile) (name : Text) : Option Member :=
  c.fields.find? fun f => f.nameText c.pool == name

/-- A method by name and, unless it is empty, by descriptor. -/
def method? (c : ClassFile) (name descriptor : Text) : Option Member :=
  c.methods.find? fun m =>
    m.nameText c.pool == name &&
      (descriptor.isEmpty || m.descriptorText c.pool == descriptor)

/-- A nested class with its names; local classes have no outer class, anonymous ones no simple name
either. -/
structure InnerClass where
  name : Text
  outer : Text := {}
  simpleName : Text := {}
  flags : AccessFlags := {}
deriving DecidableEq, Inhabited

def innerClasses (c : ClassFile) : List InnerClass :=
  match findAttribute? c.attributes c.pool "InnerClasses" with
  | some ⟨_, _, .innerClasses es⟩ =>
    es.map fun e =>
      ⟨c.pool.className e.inner, c.pool.className e.outer, c.pool.utf8 e.name, e.flags⟩
  | _ => []

/-- The entry of a nested class about itself. -/
def ownInnerClass? (c : ClassFile) : Option InnerClass :=
  c.innerClasses.find? fun i => i.name == c.name

end ClassFile

end Javelin
