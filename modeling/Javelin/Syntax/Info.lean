import Javelin.Token.Lexer

/-!
# What all nodes of a syntax tree have

A node has a number that no other node of its environment has, a span, and flags. Names and
modifiers are the leaves that most nodes share.
-/

namespace Javelin

/-- Marks on a node, as bits: malformed, recovered, holding syntax errors, unreachable. -/
structure NodeFlags where
  bits : UInt8 := 0
deriving DecidableEq, Inhabited, Repr

namespace NodeFlags

/-- A node that recovery could not complete. -/
def malformed : NodeFlags := ⟨1⟩

/-- A node built after a syntax error. -/
def recovered : NodeFlags := ⟨2⟩

/-- A declaration with a syntax error inside. -/
def hasErrors : NodeFlags := ⟨4⟩

/-- A statement that is never run. -/
def unreachable : NodeFlags := ⟨8⟩

def union (a b : NodeFlags) : NodeFlags := ⟨a.bits ||| b.bits⟩

def has (a b : NodeFlags) : Bool := a.bits &&& b.bits != 0

/-- The marks by name, in the order of their bits. -/
def names (f : NodeFlags) : List String :=
  [(malformed, "malformed"), (recovered, "recovered"), (hasErrors, "syntax-errors"),
    (unreachable, "unreachable")].filterMap fun (g, n) => if f.has g then some n else none

end NodeFlags

/-- The number, place and marks of a node. -/
structure Info where
  id : Nat := 0
  span : Span := {}
  flags : NodeFlags := {}
deriving DecidableEq, Inhabited, Repr

namespace Info

def withFlags (i : Info) (f : NodeFlags) : Info := { i with flags := i.flags.union f }

def withStop (i : Info) (p : Position) : Info := { i with span := { i.span with stop := p } }

def withSpan (i : Info) (s : Span) : Info := { i with span := s }

def start (i : Info) : Position := i.span.start

end Info

/-- A simple name. -/
structure Ident where
  info : Info := {}
  name : Text
deriving DecidableEq, Inhabited

/-- A name of one or more parts. -/
structure QName where
  info : Info := {}
  parts : List Ident
deriving DecidableEq, Inhabited

namespace QName

def names (q : QName) : List Text := q.parts.map Ident.name

def dotted (q : QName) : Text := Text.join "." q.names

def last (q : QName) : Text := (q.names.getLast?).getD {}

end QName

/-- The modifiers of declarations. -/
inductive Modifier where
  | «public»
  | «protected»
  | «private»
  | «static»
  | final
  | «abstract»
  | «native»
  | synchronized
  | transient
  | volatile
  | strictfp
  | default
  | «sealed»
  | nonSealed
deriving DecidableEq, Inhabited, Repr

namespace Modifier

/-- In the order in which a set of modifiers is written. -/
def all : List Modifier :=
  [.public, .protected, .private, .abstract, .static, .final, .sealed, .nonSealed, .transient,
    .volatile, .synchronized, .native, .strictfp, .default]

def name : Modifier → String
  | .public => "public"
  | .protected => "protected"
  | .private => "private"
  | .static => "static"
  | .final => "final"
  | .abstract => "abstract"
  | .native => "native"
  | .synchronized => "synchronized"
  | .transient => "transient"
  | .volatile => "volatile"
  | .strictfp => "strictfp"
  | .default => "default"
  | .sealed => "sealed"
  | .nonSealed => "non-sealed"

def ofName? (t : Text) : Option Modifier := all.find? fun m => t == m.name

end Modifier

/-- A set of modifiers. -/
structure ModifierSet where
  members : List Modifier := []
deriving DecidableEq, Inhabited

namespace ModifierSet

def has (s : ModifierSet) (m : Modifier) : Bool := s.members.contains m

def insert (s : ModifierSet) (m : Modifier) : ModifierSet :=
  if s.has m then s else ⟨m :: s.members⟩

/-- The words of the set in writing order. -/
def words (s : ModifierSet) : String :=
  String.intercalate " " ((Modifier.all.filter s.has).map Modifier.name)

end ModifierSet

end Javelin
