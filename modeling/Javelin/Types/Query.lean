import Javelin.Types.World

/-!
# The questions that refer to each other

Looking up a type may load a class, which completes its supertypes and members, which looks up more
types; a constant field needs the type of its initializer, which needs the constants of other
fields. A question that may come back to itself is a `Query`. The rule that answers it is written
over `Answers`, the means to ask further questions; the circle is closed in one place, by recursion
on a number of steps.
-/

namespace Javelin

/-- The type arguments found so far, by type variable. -/
abbrev Inference := List (TypeId × TypeId)

/-- What stands to the left of a dot. -/
inductive Qualifier where
  /-- A problem was reported. -/
  | error
  | value (type : TypeId)
  | type (type : TypeId)
  /-- Not a variable or type, so taken for a package. -/
  | package (name : Text)
deriving Inhabited

/-- The circular questions, by the type of their answers. -/
inductive Query : Type → Type where
  /-- The type of the given name in class files, loaded if need be. -/
  | binaryType (name : Text) : Query (Option TypeId)
  /-- Makes the supertypes of a declared type known. -/
  | supertypes (t : TypeId) : Query Unit
  /-- Makes the members of a declared type known. -/
  | members (t : TypeId) : Query Unit
  /-- The member type of a name, declared or inherited. -/
  | memberType (t : TypeId) (name : Text) : Query TypeId
  | erasure (t : TypeId) : Query TypeId
  /-- Whether two types are the same. -/
  | same (a b : TypeId) : Query Bool
  | subtype (a b : TypeId) : Query Bool
  /-- Whether a cast from one reference type to another is legal. -/
  | castable (a b : TypeId) : Query Bool
  /-- The primitive type that a class wraps. -/
  | unboxed (t : TypeId) : Query TypeId
  /-- The name of a type in messages, with or without packages. -/
  | spelling (qualified : Bool) (t : TypeId) : Query Text
  /-- The generic signature of a type. -/
  | signature (t : TypeId) : Query Text
  /-- What a formal and an actual type tell about type variables. -/
  | inference (formal actual : TypeId) (vars : List TypeId) (found : Inference) : Query Inference
  /-- The value of a constant field. -/
  | constant (f : FieldId) : Query (Option Constant)
  /-- The type that is written at a place. -/
  | typeNode (c : Context) (s : Scope) (n : TypeNode) : Query TypeId
  /-- The type of an expression where the given type is expected. -/
  | expr (c : Context) (s : Scope) (x : Expr) (target : TypeId) : Query TypeId
  | qualifier (c : Context) (s : Scope) (x : Expr) : Query Qualifier
  /-- The type that a pattern tests for. -/
  | pattern (c : Context) (s : Scope) (x : Expr) (matched : TypeId) : Query TypeId
  /-- Resolves the initializer of a variable. -/
  | initializer (c : Context) (s : Scope) (x : Expr) (type : TypeId) : Query Unit
  | stmt (c : Context) (s : Scope) (st : Stmt) : Query Unit
  /-- Resolves the bodies of a type declaration. -/
  | typeDecl (c : Context) (d : TypeDecl) : Query Unit

/-- The means to ask questions. -/
class Answers where
  ask : {α : Type} → Query α → Lookup α

export Answers (ask)

namespace Lookup

variable [Answers]

def binaryType (name : Text) : Lookup (Option TypeId) := ask (.binaryType name)

def ensureSupertypes (t : TypeId) : Lookup Unit := ask (.supertypes t)

def ensureMembers (t : TypeId) : Lookup Unit := ask (.members t)

def memberType (t : TypeId) (name : Text) : Lookup TypeId := ask (.memberType t name)

def erasure (t : TypeId) : Lookup TypeId := ask (.erasure t)

def isSame (a b : TypeId) : Lookup Bool := ask (.same a b)

def isSubtype (a b : TypeId) : Lookup Bool := ask (.subtype a b)

def unboxed (t : TypeId) : Lookup TypeId := ask (.unboxed t)

def fieldConstant (f : FieldId) : Lookup (Option Constant) := ask (.constant f)

/-- The name of a type in messages. -/
def typeName (t : TypeId) : Lookup Text := ask (.spelling false t)

/-- The name of a type with packages. -/
def qualifiedName (t : TypeId) : Lookup Text := ask (.spelling true t)

end Lookup

end Javelin
