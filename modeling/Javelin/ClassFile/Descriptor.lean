import Javelin.Constant.Basic
import Javelin.Text.Utf8

/-!
# Descriptors

A descriptor writes the type of a field or the types of a method without its generic parts: a letter
for a primitive type, `Lname;` for a class and a bracket for each array dimension. `ofText` reads
what `render` writes.

Names inside class files are internal: their parts are divided by slashes.
-/

namespace Javelin

-- Sums start at the number zero itself.
attribute [local instance (1100)] Zero.ofOfNat0

/-- The letters of the primitive types. -/
def BasicType.letters : List (UInt8 × BasicType) :=
  [('B', .byte), ('C', .char), ('D', .double), ('F', .float), ('I', .int), ('J', .long),
    ('S', .short), ('Z', .boolean)]

/-- The primitive type that a letter stands for. -/
def BasicType.ofLetter? (b : UInt8) : Option BasicType := BasicType.letters.lookup b

/-- The letter of a primitive type. -/
def BasicType.letter? (t : BasicType) : Option UInt8 :=
  (BasicType.letters.find? fun p => p.2 == t).map Prod.fst

/-- The source form of an internal name. -/
def Text.dotted (name : Text) : Text := name.map fun b => if b == '/' then '.' else b

/-- The internal form of a source name. -/
def Text.slashed (name : Text) : Text := name.map fun b => if b == '.' then '/' else b

namespace Descriptor

/-- What an array consists of in the end, or a type that is no array. -/
inductive Element where
  | primitive (type : BasicType)
  | cls (name : Text)
deriving DecidableEq, Inhabited

/-- The descriptor of a field. -/
structure Field where
  element : Element
  depth : Nat := 0
deriving DecidableEq, Inhabited

/-- The descriptor of a method; `result` is none for a method without a value. -/
structure Method where
  params : List Field
  result : Option Field
deriving DecidableEq, Inhabited

/-! ## Writing -/

def Element.render : Element → Text
  | .primitive t => (t.letter?.map Text.singleton).getD {}
  | .cls name => "L" ++ name ++ ";"

def Field.render (f : Field) : Text := Text.replicate f.depth '[' ++ f.element.render

/-- The number of slots that a value takes in a frame. -/
def Field.slots (f : Field) : Nat :=
  if f.depth == 0 && (f.element == .primitive .long || f.element == .primitive .double) then 2
  else 1

def Method.paramSlots (m : Method) : Nat := (m.params.map Field.slots).sum

def Method.resultSlots (m : Method) : Nat := (m.result.map Field.slots).getD 0

/-- The type in source form. -/
def Field.sourceName (f : Field) : Text :=
  let name : Text := match f.element with
    | .primitive t => t.name
    | .cls name => name.dotted
  name ++ Text.concat (List.replicate f.depth "[]")

/-! ## Reading -/

/-- Why a text is no descriptor. -/
inductive Fault where
  | unexpectedEnd
  | unterminatedName
  | unexpected (byte : UInt8) (offset : Nat)
  | fieldTail
  | methodTail
  | noOpen
  | noClose
deriving DecidableEq, Repr

/-- The message about a text that is no descriptor. -/
def Fault.message (t : Text) : Fault → Text
  | .unexpectedEnd => "parse descriptor " ++ t.quote ++ ": unexpected end"
  | .unterminatedName => "parse descriptor " ++ t.quote ++ ": unterminated class name"
  | .unexpected b o =>
    "parse descriptor " ++ t.quote ++ ": unexpected " ++ Text.quoteChar (Char.ofNat b.toNat) ++
      " at " ++ Text.ofNat o
  | .fieldTail => "parse field descriptor " ++ t.quote ++ ": trailing characters"
  | .methodTail => "parse method descriptor " ++ t.quote ++ ": trailing characters"
  | .noOpen => "parse method descriptor " ++ t.quote ++ ": missing '('"
  | .noClose => "parse method descriptor " ++ t.quote ++ ": missing ')'"

/-- The type that starts at an offset, and the offset behind it. -/
def fieldAt (t : Text) (start : Nat) : Except Fault (Field × Nat) :=
  let i := t.skipWhile (· == '[') start
  let depth := i - start
  match t.get? i with
  | none => throw .unexpectedEnd
  | some b =>
    match BasicType.ofLetter? b with
    | some p => return (⟨.primitive p, depth⟩, i + 1)
    | none =>
      if b == 'L' then
        let stop := t.skipWhile (· != ';') i
        if stop < t.size && i + 2 ≤ stop then
          return (⟨.cls (t.slice (i + 1) stop), depth⟩, stop + 1)
        else throw .unterminatedName
      else throw (.unexpected b i)

/-- Types up to a closing parenthesis or the end, at most `fuel` of them. -/
def fieldsFrom (t : Text) (i : Nat) : Nat → Except Fault (List Field × Nat)
  | 0 => return ([], i)
  | fuel + 1 => do
    match t.get? i with
    | none => return ([], i)
    | some b =>
      if b == ')' then return ([], i)
      let (f, j) ← fieldAt t i
      let (fs, k) ← fieldsFrom t j fuel
      return (f :: fs, k)

def Field.ofText (t : Text) : Except Fault Field := do
  let (f, i) ← fieldAt t 0
  if i != t.size then throw .fieldTail
  return f

def Method.ofText (t : Text) : Except Fault Method := do
  if t.get? 0 != some (40 : UInt8) then throw .noOpen
  let (params, i) ← fieldsFrom t 1 t.size
  if t.size ≤ i then throw .noClose
  if t.at0 (i + 1) == 'V' && i + 2 == t.size then return ⟨params, none⟩
  let (result, j) ← fieldAt t (i + 1)
  if j != t.size then throw .methodTail
  return ⟨params, some result⟩

end Descriptor

end Javelin
