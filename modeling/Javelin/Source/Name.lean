import Javelin.Token.Basic

/-!
# Names

Checks of names that come from outside a source file. An identifier starts with a letter, goes on
with letters and digits, and is not a reserved word of the source level; a package or type name is
one or more identifiers joined by points.
-/

namespace Javelin.Name

/-- What is wrong with an identifier. -/
inductive Fault where
  | empty
  | notUtf8
  | badStart (c : Char)
  | badPart (c : Char)
  | reserved
  | underscore
  | emptyName
  | emptySegment
  | segment (text : Text) (fault : Fault)

/-- The wording of a fault. -/
def Fault.reason : Fault → Text
  | .empty => "empty identifier"
  | .notUtf8 => "invalid UTF-8"
  | .badStart c => Text.quoteChar c ++ " cannot start an identifier"
  | .badPart c => Text.quoteChar c ++ " is not allowed in an identifier"
  | .reserved => "reserved keyword"
  | .underscore => "'_' is a keyword from source level 9"
  | .emptyName => "empty package name"
  | .emptySegment => "empty segment"
  | .segment t f => "segment " ++ t.quote ++ ": " ++ f.reason

/-- The message that refuses a name. -/
def refusal (name : Text) (f : Fault) : Text := "invalid input " ++ name.quote ++ ": " ++ f.reason

/-- The first character that does not fit its place. -/
def characterFault? : List (Nat × Char) → Option Fault
  | [] => none
  | (i, c) :: rest =>
    if c == Text.replacement then some .notUtf8
    else if i == 0 && !Text.isLetter c then some (.badStart c)
    else if i > 0 && !Text.isLetterOrDigit c then some (.badPart c)
    else characterFault? rest

/-- What is wrong with an identifier, if anything. -/
def identifierFault? (name : Text) (level : Level) : Option Fault :=
  if name.isEmpty then some .empty
  else
    match characterFault? name.chars with
    | some f => some f
    | none =>
      if Token.isReserved name level then some .reserved
      else if name == "_" && level.atLeast 9 then some .underscore
      else none

/-- What is wrong with one segment of a dotted name. -/
def segmentFault? (level : Level) (segment : Text) : Option Fault :=
  if segment.isEmpty then some .emptySegment
  else (identifierFault? segment level).map (.segment segment)

/-- What is wrong with a dotted name: the fault of its first bad segment. -/
def qualifiedFault? (name : Text) (level : Level) : Option Fault :=
  if name.isEmpty then some .emptyName
  else (name.split '.').findSome? (segmentFault? level)

end Javelin.Name
