import Javelin.Text.Letter

/-!
# Characters in byte texts

Decoding reads one character at an offset; a byte that starts no well-formed sequence reads as the
replacement character and is one byte long. Encoding writes the replacement character for numbers
that are no characters.

1. `decodeAt`, `ofCodePoint`, `chars`.
2. The UTF-16 view: `units` and `utf16Size`.
3. `trimSpace`, by the white space of Unicode.
-/

namespace Javelin.Text

/-- The replacement character. -/
def replacement : Char := Char.ofNat 0xFFFD

/-- The character at offset `i` and its size in bytes; size zero at the end. -/
def decodeAt (t : Text) (i : Nat) : Char × Nat :=
  if i < t.size then
    if t.at0 i < 0x80 then (Char.ofNat (t.at0 i).toNat, 1)
    else
      match t.bytes.utf8DecodeChar? i with
      | some c => (c, c.utf8Size)
      | none => (replacement, 1)
  else (Char.ofNat 0, 0)

/-- Whether the byte at offset `i` starts no well-formed sequence. -/
def malformedAt (t : Text) (i : Nat) : Bool :=
  match t.decodeAt i with
  | (c, n) => n == 1 && c == replacement

/-- The character with code point `n`, or the replacement character. -/
def charOf (n : Nat) : Char := if n.isValidChar then Char.ofNat n else replacement

def ofChar (c : Char) : Text := ofString (String.singleton c)

def ofCodePoint (n : Nat) : Text := ofChar (charOf n)

/-- The characters from offset `i` on with their offsets, at most `fuel` of them. -/
def charsFrom (t : Text) (i : Nat) : Nat → List (Nat × Char)
  | 0 => []
  | fuel + 1 =>
    if i < t.size then
      let (c, n) := t.decodeAt i
      (i, c) :: charsFrom t (i + n) fuel
    else []

/-- The characters of a text with their offsets. -/
def chars (t : Text) : List (Nat × Char) := t.charsFrom 0 t.size

/-! ## UTF-16 -/

def isSurrogate (n : Nat) : Bool := 0xD800 ≤ n && n < 0xE000

/-- The code point of a surrogate pair, if the two numbers form one. -/
def joinSurrogates? (hi lo : Nat) : Option Nat :=
  if 0xD800 ≤ hi && hi < 0xDC00 && 0xDC00 ≤ lo && lo < 0xE000 then
    some ((hi - 0xD800) * 0x400 + (lo - 0xDC00) + 0x10000)
  else none

/-- The UTF-16 code units of a character. -/
def unitsOf (c : Char) : List Nat :=
  let n := c.toNat
  if n < 0x10000 then [n] else [0xD800 + (n - 0x10000) / 0x400, 0xDC00 + (n - 0x10000) % 0x400]

def units (t : Text) : List Nat := t.chars.flatMap fun p => unitsOf p.2

/-! ## White space -/

/-- Drops the characters of Unicode white space at both ends. -/
def trimSpace (t : Text) : Text :=
  let kept := t.chars.filter fun p => !isSpace p.2
  match kept.head?, kept.getLast? with
  | some (i, _), some (j, _) => t.slice i (j + (t.decodeAt j).2)
  | _, _ => empty

/-- Whether nothing but white space is left. -/
def isBlank (t : Text) : Bool := t.chars.all fun p => isSpace p.2

end Javelin.Text

/-!
## Quoted texts

Messages show a piece of source between quotes. Quotes and backslashes get a backslash, characters
without a glyph are written by a letter escape or by number, and bytes that are not UTF-8 as `\xhh`.
-/

namespace Javelin.Text

/-- The spelling of one character between quotes of the given kind. -/
def quotedChar (quote : Char) (c : Char) : Text :=
  let n := c.toNat
  if c == quote || n == 0x5c then "\\" ++ ofChar c
  else if isPrintable c then ofChar c
  else if n == 7 then "\\a"
  else if n == 8 then "\\b"
  else if n == 12 then "\\f"
  else if n == 10 then "\\n"
  else if n == 13 then "\\r"
  else if n == 9 then "\\t"
  else if n == 11 then "\\v"
  else if n < 0x20 || n == 0x7f then "\\x" ++ hex 2 n
  else if n < 0x10000 then "\\u" ++ hex 4 n
  else "\\U" ++ hex 8 n

/-- The text between double quotes. -/
def quote (t : Text) : Text :=
  let body := t.chars.map fun (i, c) =>
    if t.malformedAt i then ("\\x" ++ hex 2 (t.at0 i).toNat : Text)
    else quotedChar (Char.ofNat 0x22) c
  "\"" ++ concat body ++ "\""

/-- One character between single quotes. -/
def quoteChar (c : Char) : Text := "'" ++ quotedChar (Char.ofNat 0x27) c ++ "'"

end Javelin.Text
