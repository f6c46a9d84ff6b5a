import Javelin.Source.Position

/-!
# Unicode escapes

Before a source is cut into tokens, every escape `\uXXXX` is replaced by the character it denotes.
A backslash starts an escape only when an even number of backslashes stands before it. Two escapes
that form a surrogate pair denote one character; a surrogate alone reads as the replacement
character.
-/

namespace Javelin.Source

/-- A source after the replacement of its escapes. `offsets` maps every byte of the text, and its
end, to the place in the source it came from; it is absent when there was nothing to replace. -/
structure Translated where
  text : Text
  offsets : Option (Array Nat) := none
deriving Inhabited

/-- The number written by four hexadecimal digits at offset `i`. -/
def fourDigits? (t : Text) (i : Nat) : Option Nat :=
  if i + 4 ≤ t.size && Text.isHexDigit (t.at0 i) && Text.isHexDigit (t.at0 (i + 1)) &&
      Text.isHexDigit (t.at0 (i + 2)) && Text.isHexDigit (t.at0 (i + 3)) then
    some (((Text.hexValue (t.at0 i) * 16 + Text.hexValue (t.at0 (i + 1))) * 16 +
      Text.hexValue (t.at0 (i + 2))) * 16 + Text.hexValue (t.at0 (i + 3)))
  else none

/-- The code unit of the escape at offset `i` and the offset behind it: a backslash, one or more
`u` and four hexadecimal digits. -/
def escapeAt? (t : Text) (i : Nat) : Option (Nat × Nat) :=
  if t.at0 i == '\\' && t.at0 (i + 1) == 'u' then
    let j := t.skipWhile (· == 'u') (i + 1)
    (fourDigits? t j).map fun n => (n, j + 4)
  else none

/-- The code point denoted by the escape at offset `i`, joined with a following escape if the two
are a surrogate pair, and the offset behind. -/
def codePointAt? (t : Text) (i : Nat) : Option (Nat × Nat) :=
  match escapeAt? t i with
  | none => none
  | some (unit, j) =>
    match escapeAt? t j with
    | some (low, k) =>
      match Text.joinSurrogates? unit low with
      | some pair => some (pair, k)
      | none => some (unit, j)
    | none => some (unit, j)

/-- The loop of `translate`: `odd` tells whether an odd number of backslashes ends before `i`. -/
def translateFrom (t : Text) (i : Nat) (odd : Bool) (out : Text) (offsets : Array Nat)
    (changed : Bool) : Nat → Text × Array Nat × Bool
  | 0 => (out, offsets, changed)
  | fuel + 1 =>
    if i < t.size then
      let escape := if odd then none else codePointAt? t i
      match escape with
      | some (n, j) =>
        let piece := Text.ofCodePoint n
        translateFrom t j false (out ++ piece)
          ((List.range piece.size).foldl (fun acc _ => acc.push i) offsets) true fuel
      | none =>
        let b := t.at0 i
        translateFrom t (i + 1) (b == '\\' && !odd) (out.push b) (offsets.push i) changed fuel
    else (out, offsets, changed)

/-- Replaces every escape of a source. -/
def translate (t : Text) : Translated :=
  if t.contains "\\u" then
    match translateFrom t 0 false {} #[] false t.size with
    | (out, offsets, true) => { text := out, offsets := some (offsets.push t.size) }
    | _ => { text := t }
  else { text := t }

end Javelin.Source
