import Javelin.Token.Scan
import Javelin.Number.Decimal

/-!
# Values of literals

The value that a literal token denotes, computed from its text.

1. Integers. A decimal literal has to fit the positive numbers, except that the operand of a minus
   may be one larger; the other radices write the bits of the number.
2. Floating point numbers. A number that rounds to infinity, or to zero from other digits than
   zero, is out of range.
3. Characters, strings and text blocks with their escape sequences.
-/

namespace Javelin.Literal

/-- Why a literal has no value. -/
inductive Cause where
  | outOfRange
  | malformed
  | invalidEscape
  | unknownKind
deriving DecidableEq, Repr

/-- A literal without a value, with the message for it. -/
structure Failure where
  cause : Cause
  message : Text

def Cause.reason : Cause → Text
  | .outOfRange => "literal out of range"
  | .malformed => "malformed literal"
  | .invalidEscape => "invalid escape sequence"
  | .unknownKind => "unknown kind"

/-- The failure to read a number. -/
def numberFailure (raw : Text) (c : Cause) : Failure :=
  ⟨c, "parse " ++ raw.quote ++ ": " ++ c.reason⟩

/-- The failure to read a quoted literal. -/
def quotedFailure (raw : Text) (c : Cause) : Failure := ⟨c, "unquote " ++ raw ++ ": " ++ c.reason⟩

/-- The failure to read a text block. -/
def blockFailure (c : Cause) : Failure := ⟨c, "text block: " ++ c.reason⟩

/-! ## Integers -/

def hasLongSuffix (raw : Text) : Bool := raw.endsWith "l" || raw.endsWith "L"

def hasFloatSuffix (raw : Text) : Bool := raw.endsWith "f" || raw.endsWith "F"

def withoutUnderscores (raw : Text) : Text := raw.filter (· != '_')

/-- The digits of an integer literal, without underscores and suffix, and their radix. -/
def digitsAndRadix (raw : Text) : Text × Nat :=
  let s := withoutUnderscores raw
  let s := if hasLongSuffix s then s.dropRight 1 else s
  if s.size > 2 && (s.startsWith "0x" || s.startsWith "0X") then (s.drop 2, 16)
  else if s.size > 2 && (s.startsWith "0b" || s.startsWith "0B") then (s.drop 2, 2)
  else if s.size > 1 && s.at0 0 == '0' then (s.drop 1, 8)
  else (s, 10)

/-- The value of a digit in radices up to 36, or a number that is no digit of any. -/
def digitValue (b : UInt8) : Nat :=
  if Text.isDigit b then b.toNat - 48
  else if 'a' ≤ b && b ≤ 'z' then b.toNat - 87
  else if 'A' ≤ b && b ≤ 'Z' then b.toNat - 55
  else 99

/-- The number written by digits of a radix. -/
def natural? (digits : Text) (radix : Nat) : Option Nat :=
  if digits.isEmpty || !digits.all (digitValue · < radix) then none
  else some (digits.bytes.foldl (fun n b => n * radix + digitValue b) 0)

/-- The number written by an optional sign and digits. -/
def integer? (digits : Text) (radix : Nat) : Option Int :=
  if digits.at0 0 == '-' then (natural? (digits.drop 1) radix).map fun n => -(n : Int)
  else if digits.at0 0 == '+' then (natural? (digits.drop 1) radix).map Int.ofNat
  else (natural? digits radix).map Int.ofNat

/-- The value of an integer literal of the given width in bits. -/
def integer (bits : Nat) (raw : Text) (negated : Bool) : Except Failure Int :=
  let (digits, radix) := digitsAndRadix raw
  match integer? digits radix with
  | none => .error (numberFailure raw .malformed)
  | some v =>
    if radix == 10 then
      let limit : Int := 2 ^ (bits - 1)
      if v > limit || (v == limit && !negated) then .error (numberFailure raw .outOfRange)
      else if v == limit then .ok (-limit)
      else .ok v
    else if v ≥ 2 ^ bits then .error (numberFailure raw .outOfRange)
    else .ok (Int.bmod v.natAbs (2 ^ bits))

def int32 (raw : Text) (negated : Bool) : Except Failure Int32 :=
  (integer 32 raw negated).map Int32.ofInt

def int64 (raw : Text) (negated : Bool) : Except Failure Int64 :=
  (integer 64 raw negated).map Int64.ofInt

/-! ## Floating point numbers -/

def isHexText (s : Text) : Bool := s.startsWith "0x" || s.startsWith "0X"

/-- The text of a floating point literal without underscores and suffix. A last `f` or `d` of
hexadecimal digits without an exponent is a digit. -/
def floatDigits (raw : Text) : Text :=
  let s := withoutUnderscores raw
  if s.size > 0 && Token.isFloatSuffix (s.at0 (s.size - 1)) &&
      (!isHexText s || s.any fun b => b == 'p' || b == 'P') then s.dropRight 1
  else s

/-- Whether a digit other than zero stands before the exponent. -/
def hasNonZeroDigit (s : Text) : Bool :=
  let isExponent (b : UInt8) : Bool :=
    if isHexText s then b == 'p' || b == 'P' else b == 'e' || b == 'E'
  let body := if isHexText s then s.drop 2 else s
  let mantissa :=
    match body.findIdx? isExponent with
    | some i => body.take i
    | none => body
  mantissa.any fun b => Text.isHexDigit b && b != '0'

/-- The bits of a floating point literal of the given format. -/
def floating (f : Number.Format) (raw : Text) : Except Failure Nat :=
  let s := floatDigits raw
  match Number.read f s with
  | .error .range => .error (numberFailure raw .outOfRange)
  | .error .syntactic => .error (numberFailure raw .malformed)
  | .ok bits =>
    if bits % f.signBit == 0 && hasNonZeroDigit s then .error (numberFailure raw .outOfRange)
    else .ok bits

def float32 (raw : Text) : Except Failure UInt32 :=
  match floating Number.single raw with
  | .error e => .error e
  | .ok bits =>
    if bits % Number.single.signBit == Number.single.infinity then
      .error (numberFailure raw .outOfRange)
    else .ok bits.toUInt32

def float64 (raw : Text) : Except Failure UInt64 := (floating Number.double raw).map Nat.toUInt64

/-! ## Characters and strings -/

/-- The byte a one-letter escape stands for. -/
def simpleEscape? (b : UInt8) : Option UInt8 :=
  if b == 'b' then some 8
  else if b == 't' then some 9
  else if b == 'n' then some 10
  else if b == 'f' then some 12
  else if b == 'r' then some 13
  else if b == 's' then some 32
  else if b == 0x22 || b == 0x27 || b == '\\' then some b
  else none

/-- The value of octal digits. -/
def octalValue (t : Text) : Nat := t.bytes.foldl (fun n b => n * 8 + (b.toNat - 48)) 0

/-- The text of the escape sequence whose backslash stands before offset `i`, and the offset behind
it. Only a text block may escape a line end, which then vanishes. -/
def unescapeAt? (t : Text) (inBlock : Bool) (i : Nat) : Option (Text × Nat) :=
  match t.get? i with
  | none => none
  | some b =>
    match simpleEscape? b with
    | some c => some (Text.singleton c, i + 1)
    | none =>
      if b == '\n' then if inBlock then some ({}, i + 1) else none
      else if b == 'u' then
        let j := t.skipWhile (· == 'u') i
        if j + 4 ≤ t.size && (t.slice j (j + 4)).all Text.isHexDigit then
          (natural? (t.slice j (j + 4)) 16).map fun n => (Text.ofCodePoint n, j + 4)
        else none
      else if Token.isOctalDigit b then
        let j := Token.skipAtMost t Token.isOctalDigit i (if b ≤ '3' then 3 else 2)
        some (Text.ofCodePoint (octalValue (t.slice i j)), j)
      else none

/-- The loop of `unescape?`. -/
def unescapeFrom (t : Text) (inBlock : Bool) (i : Nat) (out : Text) : Nat → Option Text
  | 0 => some out
  | fuel + 1 =>
    if i < t.size then
      if t.at0 i == '\\' then
        match unescapeAt? t inBlock (i + 1) with
        | some (piece, j) => unescapeFrom t inBlock j (out ++ piece) fuel
        | none => none
      else unescapeFrom t inBlock (i + 1) (out.push (t.at0 i)) fuel
    else some out

/-- Replaces the escape sequences of a literal's body. -/
def unescape? (body : Text) (inBlock : Bool) : Option Text :=
  unescapeFrom body inBlock 0 {} (body.size + 1)

/-- The body of a literal between two quotes. -/
def unquoted? (raw : Text) (quote : UInt8) (least : Nat) : Option Text :=
  if raw.size < least || raw.at0 0 != quote || raw.at0 (raw.size - 1) != quote then none
  else some (raw.slice 1 (raw.size - 1))

/-- The character of a character literal; it has to be a single UTF-16 unit. -/
def char (raw : Text) : Except Failure Nat :=
  match unquoted? raw 0x27 3 with
  | none => .error (quotedFailure raw .malformed)
  | some body =>
    match unescape? body false with
    | none => .error (quotedFailure raw .invalidEscape)
    | some s =>
      let (c, n) := s.decodeAt 0
      let c := if n == 0 then Text.replacement else c
      if n != s.size || c.toNat > 0xFFFF then .error (quotedFailure raw .malformed)
      else .ok c.toNat

def string (raw : Text) : Except Failure Text :=
  match unquoted? raw 0x22 2 with
  | none => .error (quotedFailure raw .malformed)
  | some body =>
    match unescape? body false with
    | none => .error (quotedFailure raw .invalidEscape)
    | some s => .ok s

/-! ## Text blocks -/

/-- The blanks that count as indentation. -/
def isIndent (b : UInt8) : Bool := b == ' ' || b == '\t' || b == 0x0c

def indentOf (line : Text) : Nat := line.skipWhile isIndent 0

/-- The indentation common to the lines that are not blank and to the last line, which holds the
closing delimiter. -/
def commonIndent (lines : List Text) : Nat :=
  let counted := lines.dropLast.filter (fun l => !l.isBlank) ++ lines.drop (lines.length - 1)
  match counted.map indentOf with
  | [] => 0
  | n :: ns => ns.foldl min n

/-- The lines behind the opening delimiter, which has to end its line. -/
def blockLines? (raw : Text) : Option (List Text) :=
  let delimiter : Text := "\"\"\""
  if raw.startsWith delimiter && raw.endsWith delimiter && raw.size ≥ 6 then
    let body := raw.slice 3 (raw.size - 3)
    match body.findIdx? Token.isLineEnd with
    | none => none
    | some i =>
      if (body.take i).all isIndent then
        let rest := ((body.drop i).replace "\r\n" "\n").replace "\r" "\n"
        some ((rest.drop 1).split '\n')
      else none
  else none

/-- Each line without the common indentation and without blanks at its end. -/
def stripLines (lines : List Text) : List Text :=
  let n := commonIndent lines
  lines.map fun l => (l.drop n).trimRight isIndent

/-- The value of a text block. Blanks are stripped before escape sequences are replaced. -/
def textBlock (raw : Text) : Except Failure Text :=
  match blockLines? raw with
  | none => .error (blockFailure .malformed)
  | some lines =>
    match unescape? (Text.join "\n" (stripLines lines)) true with
    | none => .error (blockFailure .invalidEscape)
    | some s => .ok s

end Javelin.Literal
