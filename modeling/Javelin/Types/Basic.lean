import Javelin.ClassFile.Basic
import Javelin.ClassFile.Signature
import Javelin.Syntax.Tree

/-!
# Types, methods, fields and variables

Types refer to each other in circles, so they live in tables and are named by numbers. Number zero
is the absence of a type, which is what an expression has after an error in it was reported.

1. Numbers.
2. `Traits`, the access and property flags of types and members.
3. `Shape`, what a type is. A composite type is determined by its components.
4. Methods, fields, local variables and the symbols that names denote.
-/

namespace Javelin

/-! ## Numbers -/

/-- The number of a type. -/
structure TypeId where
  index : Nat := 0
deriving DecidableEq, Hashable, Inhabited, Repr

/-- The number of a method or constructor. -/
structure MethodId where
  index : Nat := 0
deriving DecidableEq, Hashable, Inhabited, Repr

/-- The number of a field. -/
structure FieldId where
  index : Nat := 0
deriving DecidableEq, Hashable, Inhabited, Repr

/-- The number of a local variable. -/
structure LocalId where
  index : Nat := 0
deriving DecidableEq, Hashable, Inhabited, Repr

/-- The number of a source file. -/
structure UnitId where
  index : Nat := 0
deriving DecidableEq, Hashable, Inhabited, Repr

/-- No type. -/
def TypeId.none : TypeId := ⟨0⟩

def TypeId.isNone (t : TypeId) : Bool := t.index == 0

def TypeId.isSome (t : TypeId) : Bool := t.index != 0

/-- No method. -/
def MethodId.none : MethodId := ⟨0⟩

def MethodId.isSome (m : MethodId) : Bool := m.index != 0

/-- No field. -/
def FieldId.none : FieldId := ⟨0⟩

def FieldId.isSome (f : FieldId) : Bool := f.index != 0

/-- No local variable. -/
def LocalId.none : LocalId := ⟨0⟩

def LocalId.isSome (l : LocalId) : Bool := l.index != 0

/-! ## Traits -/

/-- Access and property flags of types and members, one bit each. -/
structure Traits where
  bits : UInt32 := 0
deriving DecidableEq, Hashable, Inhabited, Repr

namespace Traits

def «public» : Traits := ⟨1⟩

def «protected» : Traits := ⟨2⟩

def «private» : Traits := ⟨4⟩

def static : Traits := ⟨8⟩

def final : Traits := ⟨16⟩

def «abstract» : Traits := ⟨32⟩

def native : Traits := ⟨64⟩

def synchronized : Traits := ⟨128⟩

def transient : Traits := ⟨256⟩

def volatile : Traits := ⟨512⟩

def strictfp : Traits := ⟨1024⟩

def default : Traits := ⟨2048⟩

def interface : Traits := ⟨4096⟩

def enum : Traits := ⟨8192⟩

def annot : Traits := ⟨16384⟩

def record : Traits := ⟨32768⟩

def deprecated : Traits := ⟨65536⟩

def varargs : Traits := ⟨131072⟩

/-- Supplied by the compiler. -/
def synthetic : Traits := ⟨262144⟩

def «sealed» : Traits := ⟨524288⟩

def union (a b : Traits) : Traits := ⟨a.bits ||| b.bits⟩

/-- Whether the two have a trait in common. -/
def has (a b : Traits) : Bool := a.bits &&& b.bits != 0

/-- The traits in both. -/
def inter (a b : Traits) : Traits := ⟨a.bits &&& b.bits⟩

def ofList (ts : List Traits) : Traits := ts.foldl union {}

/-- Adds traits if a condition holds. -/
def addIf (a : Traits) (c : Bool) (b : Traits) : Traits := if c then a.union b else a

/-- The traits that modifiers of a declaration stand for. -/
def ofModifier : Modifier → Traits
  | .public => «public»
  | .protected => «protected»
  | .private => «private»
  | .static => static
  | .final => final
  | .abstract => «abstract»
  | .native => native
  | .synchronized => synchronized
  | .transient => transient
  | .volatile => volatile
  | .strictfp => strictfp
  | .default => default
  | .sealed => «sealed»
  | .nonSealed => {}

/-- The traits that are written before a declaration. -/
def ofModifiers : Option Modifiers → Traits
  | none => {}
  | some m =>
    (ofList (m.flags.members.map ofModifier)).addIf (hasAnnot (some m) "Deprecated") deprecated

/-- The traits that access flags of a class file stand for. -/
def ofAccess (f : AccessFlags) : Traits :=
  ofList <| ([(.public, «public»), (.private, «private»), (.protected, «protected»),
    (.static, static), (.final, final), (.abstract, «abstract»), (.native, native),
    (.interface, interface), (.annot, annot), (.enum, enum), (.synthetic, synthetic)] :
    List (AccessFlags × Traits)).filterMap fun (a, t) => if f.has a then some t else none

end Traits

/-! ## Shapes -/

/-- How a wildcard is bounded. -/
inductive WildcardKind where
  | unbounded
  | upper
  | lower
deriving DecidableEq, Hashable, Inhabited, Repr

/-- A type made of other types. The element of an array is no array. An argument list of the wrong
length makes a parameterized type degraded. -/
inductive Composite where
  | array (elem : TypeId) (dims : Nat)
  | parameterized (generic : TypeId) (args : List TypeId) (outer : TypeId) (isDegraded : Bool)
  | raw (generic : TypeId)
  | wildcard (bound : TypeId) (kind : WildcardKind)
  | intersection (bounds : List TypeId)
deriving DecidableEq, Hashable, Inhabited

namespace Composite

def components : Composite → List TypeId
  | array e _ => [e]
  | parameterized g as o _ => g :: o :: as
  | raw g => [g]
  | wildcard b _ => [b]
  | intersection bs => bs

def map (f : TypeId → TypeId) : Composite → Composite
  | array e n => array (f e) n
  | parameterized g as o d => parameterized (f g) (as.map f) (f o) d
  | raw g => raw (f g)
  | wildcard b k => wildcard (f b) k
  | intersection bs => intersection (bs.map f)

end Composite

/-- Where a class or interface comes from. A missing one was named and not found; it behaves as a
class without members. -/
inductive Origin where
  | source (unit : UnitId) (decl : TypeDecl)
  | binary (file : ClassFile) (signature : Option Signature.OfClass)
  | missing

/-- How far a declared type is known. -/
structure Progress where
  hasSupertypes : Bool := false
  inSupertypes : Bool := false
  hasMembers : Bool := false
deriving DecidableEq, Inhabited

/-- A class, interface, enum, record or annotation type. -/
structure Declared where
  origin : Origin
  /-- The simple name; empty for anonymous classes. -/
  name : Text := {}
  /-- The dotted package name. -/
  package : Text := {}
  /-- The dotted name in source. -/
  qualified : Text := {}
  /-- The name in class files. -/
  binaryName : Text := {}
  traits : Traits := {}
  kind : TypeKind := .cls
  enclosing : TypeId := .none
  superclass : TypeId := .none
  interfaces : List TypeId := []
  typeVars : List TypeId := []
  fields : List FieldId := []
  methods : List MethodId := []
  memberTypes : List TypeId := []
  isLocal : Bool := false
  isAnonymous : Bool := false
  progress : Progress := {}

namespace Declared

def decl? (d : Declared) : Option TypeDecl :=
  match d.origin with
  | .source _ td => some td
  | _ => none

def isMissing (d : Declared) : Bool :=
  match d.origin with
  | .missing => true
  | _ => false

def isSource (d : Declared) : Bool := d.decl?.isSome

end Declared

/-- A type variable of a type or method, or one that stands for a captured wildcard. -/
structure Variable where
  name : Text
  rank : Nat
  declaringType : TypeId := .none
  declaringMethod : MethodId := .none
  bounds : List TypeId := []
  /-- The lower bound of a captured wildcard. -/
  lower : TypeId := .none
deriving Inhabited

/-- What a type is. -/
inductive Shape where
  | absent
  | base (type : BasicType)
  | null
  | declared (d : Declared)
  | composite (c : Composite)
  | variable (v : Variable)
  | captured (v : Variable)
  /-- A type that a class file names and that was not looked up yet. -/
  | unresolved (name : List Text) (isResolved : Bool)

instance : Inhabited Shape := ⟨.absent⟩

namespace Shape

/-- The name of the kind of type. -/
def kindName : Shape → String
  | absent => "invalid"
  | base _ => "base"
  | null => "null"
  | declared d =>
    match d.origin with
    | .source .. => "source"
    | .binary .. => "binary"
    | .missing => "missing"
  | composite c =>
    match c with
    | .array .. => "array"
    | .parameterized .. => "parameterized"
    | .raw _ => "raw"
    | .wildcard .. => "wildcard"
    | .intersection _ => "intersection"
  | .variable _ => "type variable"
  | captured _ => "captured"
  | unresolved .. => "unresolved"

def declared? : Shape → Option Declared
  | declared d => some d
  | _ => none

def composite? : Shape → Option Composite
  | composite c => some c
  | _ => none

/-- The declaration, or one without anything in it. -/
def declaredD (s : Shape) : Declared := s.declared?.getD { origin := .missing }

def isAbsent : Shape → Bool
  | absent => true
  | _ => false

def isNull : Shape → Bool
  | null => true
  | _ => false

def isDeclared (s : Shape) : Bool := s.declared?.isSome

def isMissing : Shape → Bool
  | declared d => d.isMissing
  | _ => false

def isArray : Shape → Bool
  | composite (.array ..) => true
  | _ => false

def isWildcard : Shape → Bool
  | composite (.wildcard ..) => true
  | _ => false

def isParameterized : Shape → Bool
  | composite (.parameterized ..) => true
  | _ => false

def isRaw : Shape → Bool
  | composite (.raw _) => true
  | _ => false

def isVariable : Shape → Bool
  | .variable _ => true
  | _ => false

def isCaptured : Shape → Bool
  | captured _ => true
  | _ => false

def isBase : Shape → Bool
  | base _ => true
  | _ => false

/-- The primitive type, or `undefined` for all other types. -/
def basicType : Shape → BasicType
  | base t => t
  | _ => .undefined

/-- The traits of a declared type; none for other types. -/
def traits (s : Shape) : Traits :=
  match s with
  | declared d => d.traits
  | _ => {}

def isInterface (s : Shape) : Bool := s.traits.has .interface

def typeVars : Shape → List TypeId
  | declared d => d.typeVars
  | _ => []

/-- The upper bounds of a variable, captured variable or intersection; nothing for other types. -/
def bounds? : Shape → Option (List TypeId)
  | .variable v => some v.bounds
  | captured v => some v.bounds
  | composite (.intersection bs) => some bs
  | _ => none

/-- The simple name, as far as the type has one. -/
def name : Shape → Text
  | base t => t.name
  | null => "null"
  | declared d => d.name
  | .variable v => v.name
  | captured v => v.name
  | unresolved n _ => n.getLast?.getD {}
  | _ => {}

/-- Replaces the types that a type mentions as supertypes, bounds or components. -/
def map (f : TypeId → TypeId) : Shape → Shape
  | composite c => composite (c.map f)
  | declared d => declared { d with superclass := f d.superclass, interfaces := d.interfaces.map f }
  | .variable v => .variable { v with bounds := v.bounds.map f, lower := f v.lower }
  | captured v => captured { v with bounds := v.bounds.map f, lower := f v.lower }
  | s => s

end Shape

/-- Something that mentions a type that was not looked up yet, to be updated when it is. -/
inductive Mention where
  | type (id : TypeId)
  | field (id : FieldId)
  | method (id : MethodId)
deriving DecidableEq, Inhabited

/-- One row of the table of types. -/
structure TypeEntry where
  shape : Shape := .absent
  mentions : List Mention := []
  /-- Whether the type mentions one that was not looked up. -/
  isPending : Bool := false
deriving Inhabited

/-! ## Members and variables -/

/-- A method or constructor. -/
structure MethodEntry where
  name : Text := {}
  declaring : TypeId := .none
  traits : Traits := {}
  typeVars : List TypeId := []
  params : List TypeId := []
  paramNames : List Text := []
  result : TypeId := .none
  throws : List TypeId := []
  isConstructor : Bool := false
  decl : Option MethodDecl := none
  /-- The declaration that an instantiated copy comes from; a declaration is its own. -/
  root : MethodId := .none
deriving Inhabited

namespace MethodEntry

def isVarargs (m : MethodEntry) : Bool := m.traits.has .varargs

def isStatic (m : MethodEntry) : Bool := m.traits.has .static

def isAbstract (m : MethodEntry) : Bool := m.traits.has .abstract

end MethodEntry

/-- What is known about the constant value of a field. -/
inductive FieldConstant where
  | unknown
  | evaluating
  | known (value : Option Constant)
deriving Inhabited

structure FieldEntry where
  name : Text := {}
  declaring : TypeId := .none
  traits : Traits := {}
  type : TypeId := .none
  decl : Option VarDeclarator := none
  /-- The declaration that an instantiated copy comes from; a declaration is its own. -/
  root : FieldId := .none
  constant : FieldConstant := .unknown
deriving Inhabited

namespace FieldEntry

def isStatic (f : FieldEntry) : Bool := f.traits.has .static

def isFinal (f : FieldEntry) : Bool := f.traits.has .final

end FieldEntry

/-- A local variable, parameter, resource or pattern variable. The variables of one body, with the
lambdas inside it, are counted from zero. -/
structure LocalEntry where
  name : Text := {}
  type : TypeId := .none
  isFinal : Bool := false
  isParam : Bool := false
  index : Nat := 0
  isPattern : Bool := false
  constant : Option Constant := none
  /-- How many assignments to it were seen. -/
  assignments : Nat := 0
  /-- Whether it has a value from its declaration on. -/
  isInitialized : Bool := false
deriving Inhabited

/-- A variable is effectively final if it never gets a second value. -/
def LocalEntry.isEffectivelyFinal (l : LocalEntry) : Bool :=
  !(l.assignments > 1 || l.assignments == 1 && l.isInitialized)

/-- What a name denotes. -/
inductive Symbol where
  | type (id : TypeId)
  | method (id : MethodId)
  | field (id : FieldId)
  | var (id : LocalId)
deriving DecidableEq, Hashable, Inhabited

end Javelin
