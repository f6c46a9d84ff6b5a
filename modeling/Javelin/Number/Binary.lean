import Javelin.Text.Basic

/-!
# Binary floating point numbers

The numbers of the two IEEE formats, computed exactly: a bit pattern decodes to a sign, a
significand and an exponent, an operation is carried out on exact fractions, and its result is
rounded to the nearest number of the format, a tie going to the even significand.

1. Formats, decoding and rounding.
2. Arithmetic. The result of an operation on a NaN is that NaN, the first of two; an operation
   without a meaning gives the NaN with the sign bit set.
3. Comparison and conversion.
-/

namespace Javelin.Number

/-- A binary format: the number of bits of the significand and of the exponent. -/
structure Format where
  precision : Nat
  exponentBits : Nat
deriving DecidableEq, Repr

def single : Format := ⟨24, 8⟩

def double : Format := ⟨53, 11⟩

namespace Format

def bias (f : Format) : Nat := 2 ^ (f.exponentBits - 1) - 1

/-- The weight of the lowest exponent bit: one more than the largest fraction. -/
def unit (f : Format) : Nat := 2 ^ (f.precision - 1)

/-- The exponent field of infinities and NaNs. -/
def topField (f : Format) : Nat := 2 ^ f.exponentBits - 1

def signBit (f : Format) : Nat := f.unit * 2 ^ f.exponentBits

/-- The exponent of the smallest numbers. -/
def leastExponent (f : Format) : Int := 2 - (f.bias : Int) - f.precision

def infinity (f : Format) : Nat := f.topField * f.unit

/-- The bit that tells a quiet NaN. -/
def quietBit (f : Format) : Nat := f.unit / 2

/-- The result of an operation without a meaning. -/
def invalid (f : Format) : Nat := f.signBit + f.infinity + f.quietBit

def withSign (f : Format) (negative : Bool) (magnitude : Nat) : Nat :=
  if negative then f.signBit + magnitude else magnitude

end Format

/-- What a bit pattern stands for; a finite value is `significand · 2 ^ exponent`. -/
inductive Value where
  | nan
  | infinite (negative : Bool)
  | finite (negative : Bool) (significand : Nat) (exponent : Int)
deriving DecidableEq, Repr

namespace Value

def negative : Value → Bool
  | nan => false
  | infinite n => n
  | finite n _ _ => n

end Value

/-! ## Decoding and rounding -/

def isNegative (f : Format) (bits : Nat) : Bool := bits / f.signBit % 2 == 1

def decode (f : Format) (bits : Nat) : Value :=
  let fraction := bits % f.unit
  let field := bits / f.unit % 2 ^ f.exponentBits
  let negative := isNegative f bits
  if field == f.topField then
    if fraction == 0 then .infinite negative else .nan
  else if field == 0 then .finite negative fraction f.leastExponent
  else .finite negative (f.unit + fraction) (f.leastExponent + field - 1)

def isNaN (f : Format) (bits : Nat) : Bool := decode f bits == .nan

/-- The fraction `num / den` times `2 ^ e`, as a fraction. -/
def scale (num den : Nat) (e : Int) : Nat × Nat :=
  match e with
  | .ofNat n => (num * 2 ^ n, den)
  | .negSucc n => (num, den * 2 ^ (n + 1))

/-- The quotient rounded to the nearest natural number, a tie to the even one. -/
def roundDiv (num den : Nat) : Nat :=
  let q := num / den
  let r := num % den
  if 2 * r > den || (2 * r == den && q % 2 == 1) then q + 1 else q

/-- The exponent at which the significand of `num / den` has the full number of bits, but at least
the least exponent of the format. -/
def roundingExponent (f : Format) (num den : Nat) : Int :=
  let e : Int := (num.log2 : Int) - den.log2 - f.precision + 1
  let (n, d) := scale num den (-e)
  let e := if n / d < f.unit then e - 1 else e
  max e f.leastExponent

/-- The pattern of `significand · 2 ^ exponent` for a significand of at most the full number of
bits and an exponent not below the least. -/
def encode (f : Format) (significand : Nat) (exponent : Int) : Nat :=
  if significand < f.unit then significand
  else
    let field := (exponent - f.leastExponent + 1).toNat
    if field ≥ f.topField then f.infinity else field * f.unit + (significand - f.unit)

/-- The pattern nearest to a positive fraction; too large a fraction gives infinity. -/
def round (f : Format) (negative : Bool) (num den : Nat) : Nat :=
  if num == 0 then f.withSign negative 0
  else
    let e := roundingExponent f num den
    let (n, d) := scale num den (-e)
    let q := roundDiv n d
    f.withSign negative
      (if q == 2 * f.unit then encode f f.unit (e + 1) else encode f q e)

/-- The pattern of an integer. -/
def ofInt (f : Format) (n : Int) : Nat := round f (n < 0) n.natAbs 1

/-! ## Arithmetic -/

/-- A NaN made quiet. -/
def quiet (f : Format) (bits : Nat) : Nat :=
  if bits / f.quietBit % 2 == 1 then bits else bits + f.quietBit

/-- Handles NaN operands, the first one first, before `k`. -/
def propagating (f : Format) (a b : Nat) (k : Value → Value → Nat) : Nat :=
  match decode f a, decode f b with
  | .nan, _ => quiet f a
  | _, .nan => quiet f b
  | x, y => k x y

/-- The pattern of `n · 2 ^ e`; an exact zero gets the given sign. -/
def ofScaled (f : Format) (n : Int) (e : Int) (zeroNegative : Bool) : Nat :=
  if n == 0 then f.withSign zeroNegative 0
  else
    let (num, den) := scale n.natAbs 1 e
    round f (n < 0) num den

def signed (negative : Bool) (m : Nat) : Int := if negative then -(m : Int) else m

/-- A significand moved to a lower exponent. -/
def lowered (m : Nat) (e target : Int) : Nat := m * 2 ^ (e - target).toNat

def add (f : Format) (a b : Nat) : Nat :=
  propagating f a b fun x y =>
    match x, y with
    | .infinite s, .infinite t => if s == t then f.withSign s f.infinity else f.invalid
    | .infinite s, _ => f.withSign s f.infinity
    | _, .infinite t => f.withSign t f.infinity
    | .finite s m d, .finite t n e =>
      let low := min d e
      ofScaled f (signed s (lowered m d low) + signed t (lowered n e low)) low (s && t)
    | _, _ => f.invalid

/-- The sign bit turned over, of NaNs too. -/
def negate (f : Format) (bits : Nat) : Nat :=
  if isNegative f bits then bits - f.signBit else bits + f.signBit

def sub (f : Format) (a b : Nat) : Nat :=
  propagating f a b fun _ _ => add f a (negate f b)

def mul (f : Format) (a b : Nat) : Nat :=
  propagating f a b fun x y =>
    let negative := x.negative != y.negative
    match x, y with
    | .finite _ m d, .finite _ n e =>
      let (num, den) := scale (m * n) 1 (d + e)
      round f negative num den
    | .finite _ 0 _, _ => f.invalid
    | _, .finite _ 0 _ => f.invalid
    | _, _ => f.withSign negative f.infinity

def div (f : Format) (a b : Nat) : Nat :=
  propagating f a b fun x y =>
    let negative := x.negative != y.negative
    match x, y with
    | .finite _ m d, .finite _ n e =>
      if n == 0 then
        if m == 0 then f.invalid else f.withSign negative f.infinity
      else
        let (num, den) := scale m n (d - e)
        round f negative num den
    | .finite .., _ => f.withSign negative 0
    | _, .finite .. => f.withSign negative f.infinity
    | _, _ => f.invalid

/-- The NaN that stands for a remainder without a meaning. -/
def noRemainder (f : Format) : Nat :=
  f.infinity + f.quietBit + (if f.precision > 24 then 1 else 0)

/-- The remainder of the division rounded toward zero; it has the sign of the dividend. -/
def rem (f : Format) (a b : Nat) : Nat :=
  match decode f a, decode f b with
  | .finite s m d, .finite _ n e =>
    if n == 0 then noRemainder f
    else
      let low := min d e
      let r := lowered m d low % lowered n e low
      let (num, den) := scale r 1 low
      round f s num den
  | .finite .., .infinite _ => a
  | _, _ => noRemainder f

/-! ## Comparison and conversion -/

/-- The order of two numbers; none if one of them is a NaN. -/
def compare (f : Format) (a b : Nat) : Option Ordering :=
  match decode f a, decode f b with
  | .nan, _ => none
  | _, .nan => none
  | .infinite s, .infinite t => some (if s == t then .eq else if s then .lt else .gt)
  | .infinite s, _ => some (if s then .lt else .gt)
  | _, .infinite t => some (if t then .gt else .lt)
  | .finite s m d, .finite t n e =>
    let low := min d e
    some (Ord.compare (signed s (lowered m d low)) (signed t (lowered n e low)))

/-- The number as a pattern of another format. -/
def convert (f g : Format) (bits : Nat) : Nat :=
  match decode f bits with
  | .nan =>
    let fraction := quiet f bits % f.unit
    g.withSign (isNegative f bits) (g.infinity +
      (if f.precision ≤ g.precision then fraction * 2 ^ (g.precision - f.precision)
       else fraction / 2 ^ (f.precision - g.precision)))
  | .infinite s => g.withSign s g.infinity
  | .finite s m e =>
    let (num, den) := scale m 1 e
    round g s num den

/-- The integer part, cut to the given bounds; a NaN gives zero. -/
def truncate (f : Format) (lo hi : Int) (bits : Nat) : Int :=
  match decode f bits with
  | .nan => 0
  | .infinite s => if s then lo else hi
  | .finite s m e =>
    let (num, den) := scale m 1 e
    max lo (min hi (signed s (num / den)))

end Javelin.Number
