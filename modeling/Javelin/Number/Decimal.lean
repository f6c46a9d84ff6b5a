import Javelin.Number.Binary
import Javelin.Text.Letter

/-!
# Decimal texts of binary numbers

Printing takes the fewest digits that read back as the same number, of several the nearest to it.
Reading rounds the exact value of a decimal or hexadecimal text to the nearest number.

1. `shortest`, the digits and the exponent of a finite number.
2. `render`: positional from one thousandth up to ten million, with an exponent elsewhere.
3. `read`, the reader for both radices.
-/

namespace Javelin.Number

/-! ## The fewest digits -/

/-- The least `j ≥ start` with `num · 10 ^ j ≥ den`. -/
def leadingZeros (num den : Nat) (start : Nat) : Nat → Nat
  | 0 => start
  | fuel + 1 => if num ≥ den then start else leadingZeros (num * 10) den (start + 1) fuel

/-- The exponent `k` with `10 ^ k ≤ num / den < 10 ^ (k + 1)`. -/
def decimalExponent (num den : Nat) : Int :=
  if num ≥ den then (Nat.toDigits 10 (num / den)).length - 1
  else -(leadingZeros num den 0 400 : Int)

/-- `num / den` divided by `10 ^ k`, as a fraction. -/
def unscale10 (num den : Nat) (k : Int) : Nat × Nat :=
  match k with
  | .ofNat n => (num, den * 10 ^ n)
  | .negSucc n => (num * 10 ^ (n + 1), den)

/-- The interval of the reals that round to `m · 2 ^ e`, over the common denominator `4`: lower end,
value and upper end in quarters of `2 ^ e`. -/
def interval (f : Format) (m : Nat) (e : Int) : Nat × Nat × Nat :=
  let lower := if m == f.unit && e > f.leastExponent then 4 * m - 1 else 4 * m - 2
  (lower, 4 * m, 4 * m + 2)

/-- A decimal on the grid `10 ^ k` that rounds to `m · 2 ^ e`: the nearer neighbour of the value, of
two equally near ones the even one. -/
def onGrid? (f : Format) (m : Nat) (e k : Int) : Option Nat :=
  let (lo, v, hi) := interval f m e
  let (num, den) := scale 1 4 e
  -- one quarter unit is `num / den`; all three are compared on the grid
  let (qn, qd) := unscale10 num den k
  let closed := m % 2 == 0
  let inside (d : Nat) : Bool :=
    if closed then lo * qn ≤ d * qd && d * qd ≤ hi * qn else lo * qn < d * qd && d * qd < hi * qn
  let d := v * qn / qd
  let r := v * qn % qd
  let nearer := if 2 * r > qd || (2 * r == qd && d % 2 == 1) then d + 1 else d
  let other := if nearer == d then d + 1 else d
  if inside nearer then some nearer else if inside other then some other else none

/-- Tries the grids for `n`, `n + 1`, … digits. -/
def shortestFrom (f : Format) (m : Nat) (e top : Int) (n : Nat) : Nat → Nat × Int
  | 0 => (0, 0)
  | fuel + 1 =>
    let k := top - n + 1
    match onGrid? f m e k with
    | some d => (d, k)
    | none => shortestFrom f m e top (n + 1) fuel

/-- The digits of the decimal text of a positive number and the power of ten of the first one. -/
def shortest (f : Format) (m : Nat) (e : Int) : List Char × Int :=
  let (num, den) := scale m 1 e
  let top := decimalExponent num den
  let (d, k) := shortestFrom f m e top 1 20
  let digits := Nat.toDigits 10 d
  (digits, k + digits.length - 1)

/-- Drops the zeros at the end, but for a first digit. -/
def trimZeros (digits : List Char) : List Char :=
  match (digits.reverse.dropWhile (· == '0')).reverse with
  | [] => ['0']
  | ds => ds

/-! ## Rendering -/

/-- Whether a positive number is written without an exponent: from one thousandth up to ten
million. -/
def isPositional (f : Format) (m : Nat) (e : Int) : Bool :=
  let v := convert f double (encode f m e)
  compare double v (round double false 1 1000) != some .lt &&
    compare double v (ofInt double 10000000) == some .lt

/-- The text of a number with its digits and the exponent of the first of them. -/
def layout (positional : Bool) (digits : List Char) (exponent : Int) : String :=
  if positional then
    let point := exponent + 1
    if point ≤ 0 then "0." ++ String.ofList (List.replicate (-point).toNat '0' ++ digits)
    else if point ≥ digits.length then
      String.ofList (digits ++ List.replicate (point - digits.length).toNat '0') ++ ".0"
    else
      String.ofList (digits.take point.toNat) ++ "." ++ String.ofList (digits.drop point.toNat)
  else
    let fraction := if digits.length ≤ 1 then ['0'] else digits.drop 1
    String.ofList (digits.take 1) ++ "." ++ String.ofList fraction ++ "E" ++ toString exponent

/-- The text of a number. -/
def render (f : Format) (bits : Nat) : String :=
  match decode f bits with
  | .nan => "NaN"
  | .infinite s => if s then "-Infinity" else "Infinity"
  | .finite s m e =>
    let body :=
      if m == 0 then "0.0"
      else
        let (digits, exponent) := shortest f m e
        layout (isPositional f m e) (trimZeros digits) exponent
    if s then "-" ++ body else body

/-! ## Reading -/

/-- Why a text is not read as a number. -/
inductive ReadError where
  | syntactic
  | range
deriving DecidableEq, Repr

def lowerByte (b : UInt8) : UInt8 := if 'A' ≤ b && b ≤ 'Z' then b + 32 else b

/-- A run of digits, at most one point among them: the number they write without the point, how
many digits follow the point, and the offset behind. -/
structure Mantissa where
  value : Nat := 0
  fractionDigits : Nat := 0
  digits : Nat := 0
  point : Bool := false
  stop : Nat

def mantissa (t : Text) (radix : Nat) (m : Mantissa) : Nat → Mantissa
  | 0 => m
  | fuel + 1 =>
    let b := t.at0 m.stop
    if m.stop < t.size && b == '.' && !m.point then
      mantissa t radix { m with point := true, stop := m.stop + 1 } fuel
    else if Text.isDigit b || (radix == 16 && Text.isHexDigit b) then
      mantissa t radix
        { m with
          value := m.value * radix + Text.hexValue b
          fractionDigits := if m.point then m.fractionDigits + 1 else m.fractionDigits
          digits := m.digits + 1, stop := m.stop + 1 } fuel
    else m

/-- Digits of an exponent; digits beyond the fifth are read and ignored. -/
def exponentDigits (t : Text) (i acc : Nat) : Nat → Nat × Nat
  | 0 => (i, acc)
  | fuel + 1 =>
    let b := t.at0 i
    if Text.isDigit b then
      exponentDigits t (i + 1) (if acc < 10000 then acc * 10 + (b.toNat - 48) else acc) fuel
    else (i, acc)

/-- The exponent at offset `i`, after its letter, up to the end of the text. -/
def exponent? (t : Text) (i : Nat) : Option Int :=
  let negative := t.at0 i == '-'
  let i := if negative || t.at0 i == '+' then i + 1 else i
  if Text.isDigit (t.at0 i) then
    let (stop, e) := exponentDigits t i 0 t.size
    if stop == t.size then some (if negative then -(e : Int) else e) else none
  else none

/-- Rounds `value · base ^ e`; refuses what is too large. -/
def roundPower (f : Format) (negative : Bool) (value base : Nat) (e : Int) : Except ReadError Nat :=
  let bits :=
    match e with
    | .ofNat n => round f negative (value * base ^ n) 1
    | .negSucc n => round f negative value (base ^ (n + 1))
  if bits % f.signBit == f.infinity then .error .range else .ok bits

/-- The words for infinity and for no number. -/
def readWord? (f : Format) (t : Text) : Option Nat :=
  let t := t.map lowerByte
  if t == "infinity" || t == "+infinity" || t == "inf" || t == "+inf" then some f.infinity
  else if t == "-infinity" || t == "-inf" then some (f.withSign true f.infinity)
  else if t == "nan" then some (noRemainder f)
  else none

/-- Reads a decimal number, or a hexadecimal one with a binary exponent. -/
def read (f : Format) (t : Text) : Except ReadError Nat :=
  match readWord? f t with
  | some bits => .ok bits
  | none =>
    let negative := t.at0 0 == '-'
    let i := if negative || t.at0 0 == '+' then 1 else 0
    let isHex := i + 2 < t.size && t.at0 i == '0' && lowerByte (t.at0 (i + 1)) == 'x'
    let m := mantissa t (if isHex then 16 else 10) { stop := if isHex then i + 2 else i } (t.size + 1)
    if m.digits == 0 then .error .syntactic
    else if m.stop == t.size then
      if isHex then .error .syntactic
      else roundPower f negative m.value 10 (-(m.fractionDigits : Int))
    else if lowerByte (t.at0 m.stop) == (if isHex then 'p' else 'e' : Char) then
      match exponent? t (m.stop + 1) with
      | none => .error .syntactic
      | some e =>
        if isHex then roundPower f negative m.value 2 (e - 4 * m.fractionDigits)
        else roundPower f negative m.value 10 (e - m.fractionDigits)
    else .error .syntactic

end Javelin.Number
