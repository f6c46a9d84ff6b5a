import Javelin.Text.Utf8

/-!
# JSON documents

Trees and class files can be written as JSON, indented by two blanks a level. Objects keep the order
of their fields. Angle brackets and ampersands are written by number, so that a document can stand
inside a page of markup, and bytes that are not UTF-8 become the replacement character.
-/

namespace Javelin

mutual

/-- A JSON document; numbers are held as they are written. -/
inductive JsonValue where
  | null
  | bool (b : Bool)
  | number (digits : Text)
  | string (t : Text)
  | array (items : List JsonValue)
  | object (fields : List JsonField)

structure JsonField where
  key : Text
  value : JsonValue

end

instance : Inhabited JsonValue := ⟨.null⟩

namespace JsonValue

/-! ## Building -/

def nat (n : Nat) : JsonValue := .number (.ofNat n)

def int (n : Int) : JsonValue := .number (.ofInt n)

def strings (ts : List Text) : JsonValue := .array (ts.map string)

/-- An object with all of the given fields. -/
def record (fs : List (String × JsonValue)) : JsonValue := .object (fs.map fun (k, v) => ⟨k, v⟩)

/-- A value or null. -/
def optional {α : Type} (f : α → JsonValue) (a : Option α) : JsonValue := (a.map f).getD .null

/-- A field that is always written. -/
def field (key : String) (value : JsonValue) : List JsonField := [⟨key, value⟩]

/-- A field that is written unless the text is empty. -/
def textField (key : String) (t : Text) : List JsonField :=
  if t.isEmpty then [] else [⟨key, .string t⟩]

/-- A field that is written unless the list is empty. -/
def listField (key : String) (items : List JsonValue) : List JsonField :=
  if items.isEmpty then [] else [⟨key, .array items⟩]

/-- A field that is written unless the number is zero. -/
def countField (key : String) (n : Nat) : List JsonField := if n == 0 then [] else [⟨key, nat n⟩]

/-! ## Writing -/

/-- The spelling of a character inside quotes. -/
def escapedChar (c : Char) : Text :=
  let n := c.toNat
  if n == 0x22 then "\\\""
  else if n == 0x5c then "\\\\"
  else if n == 0x08 then "\\b"
  else if n == 0x0c then "\\f"
  else if n == 0x0a then "\\n"
  else if n == 0x0d then "\\r"
  else if n == 0x09 then "\\t"
  else if n < 0x20 || c == '<' || c == '>' || c == '&' || n == 0x2028 || n == 0x2029 then
    "\\u" ++ Text.hex 4 n
  else Text.ofChar c

def quoted (t : Text) : Text :=
  let body := t.chars.map fun (i, c) =>
    if t.malformedAt i then ("\\ufffd" : Text) else escapedChar c
  "\"" ++ Text.concat body ++ "\""

/-- A line break and the blanks of a level. -/
def lineBreak (level : Nat) : Text := "\n" ++ Text.replicate (2 * level) ' '

/-- Items on lines of their own between two brackets. -/
def enclosed (left right : Text) (level : Nat) (items : List Text) : Text :=
  if items.isEmpty then left ++ right
  else
    left ++ lineBreak (level + 1) ++ Text.join ("," ++ lineBreak (level + 1)) items ++
      lineBreak level ++ right

mutual

/-- The text of a document that stands at a level of indentation. -/
def renderAt (level : Nat) : JsonValue → Text
  | .null => "null"
  | .bool b => if b then "true" else "false"
  | .number digits => digits
  | .string t => quoted t
  | .array items => enclosed "[" "]" level (renderItems (level + 1) items)
  | .object fields => enclosed "\x7b" "\x7d" level (renderFields (level + 1) fields)

def renderItems (level : Nat) : List JsonValue → List Text
  | [] => []
  | v :: vs => renderAt level v :: renderItems level vs

def renderFields (level : Nat) : List JsonField → List Text
  | [] => []
  | ⟨key, value⟩ :: fs => (quoted key ++ ": " ++ renderAt level value) :: renderFields level fs

end

/-- The text of a document. -/
def render (v : JsonValue) : Text := renderAt 0 v

end JsonValue

end Javelin
