import Javelin.Constant.Basic
import Javelin.Source.Literal
import Javelin.Syntax.Operator
import Javelin.Text.JsonValue

/-!
# Folding

Operators applied to constants, with the arithmetic of the virtual machine: `+`, `-`, `*` and unary
minus wrap around, `/` and `%` cut toward zero and have no value for the divisor zero, and shift
distances are taken modulo the width.
-/

namespace Javelin.Constant

/-- The value of a relational operator, given the order of its operands; two numbers without an
order are only unequal. -/
def foldOrder (op : Operator) (o : Option Ordering) : Option Constant :=
  match op with
  | .eq => some (.boolean (o == some .eq))
  | .ne => some (.boolean (o != some .eq))
  | .lt => some (.boolean (o == some .lt))
  | .gt => some (.boolean (o == some .gt))
  | .le => some (.boolean (o == some .lt || o == some .eq))
  | .ge => some (.boolean (o == some .gt || o == some .eq))
  | _ => none

def foldBoolean (op : Operator) (l r : Bool) : Option Constant :=
  match op with
  | .and | .condAnd => some (.boolean (l && r))
  | .or | .condOr => some (.boolean (l || r))
  | .xor | .ne => some (.boolean (l != r))
  | .eq => some (.boolean (l == r))
  | _ => none

/-- Arithmetic on `int`, whose numbers are compared as doubles. -/
def foldInt (op : Operator) (l r : Int32) : Option Constant :=
  match op with
  | .add => some (.int (l + r))
  | .sub => some (.int (l - r))
  | .mul => some (.int (l * r))
  | .div => if r == 0 then none else some (.int (l / r))
  | .rem => if r == 0 then none else some (.int (l % r))
  | .and => some (.int (l &&& r))
  | .or => some (.int (l ||| r))
  | .xor => some (.int (l ^^^ r))
  | op =>
    let ofInt (v : Int32) := Number.ofInt Number.double v.toInt
    foldOrder op (Number.compare Number.double (ofInt l) (ofInt r))

def foldLong (op : Operator) (l r : Int64) : Option Constant :=
  match op with
  | .add => some (.long (l + r))
  | .sub => some (.long (l - r))
  | .mul => some (.long (l * r))
  | .div => if r == 0 then none else some (.long (l / r))
  | .rem => if r == 0 then none else some (.long (l % r))
  | .and => some (.long (l &&& r))
  | .or => some (.long (l ||| r))
  | .xor => some (.long (l ^^^ r))
  | op => foldOrder op (some (Ord.compare l.toInt r.toInt))

/-- Arithmetic in a binary format; `wrap` makes a constant of the resulting pattern. -/
def foldFloating (f : Number.Format) (wrap : Nat → Constant) (op : Operator) (l r : Nat) :
    Option Constant :=
  match op with
  | .add => some (wrap (Number.add f l r))
  | .sub => some (wrap (Number.sub f l r))
  | .mul => some (wrap (Number.mul f l r))
  | .div => some (wrap (Number.div f l r))
  | .rem => some (wrap (Number.rem f l r))
  | op => foldOrder op (Number.compare f l r)

def shiftInt (op : Operator) (v : Int32) (distance : Int) : Option Constant :=
  let n := (distance % 32).toNat
  match op with
  | .shl => some (.int (Int32.ofInt (v.toInt * 2 ^ n)))
  | .shr => some (.int (Int32.ofInt (v.toInt / 2 ^ n)))
  | .ushr => some (.int (Int32.ofInt (v.toInt % 2 ^ (32 : Nat) / 2 ^ n)))
  | _ => none

def shiftLong (op : Operator) (v : Int64) (distance : Int) : Option Constant :=
  let n := (distance % 64).toNat
  match op with
  | .shl => some (.long (Int64.ofInt (v.toInt * 2 ^ n)))
  | .shr => some (.long (Int64.ofInt (v.toInt / 2 ^ n)))
  | .ushr => some (.long (Int64.ofInt (v.toInt % 2 ^ (64 : Nat) / 2 ^ n)))
  | _ => none

/-- A shift of the left operand, promoted to `t`, by an integral distance. -/
def foldShift (op : Operator) (l r : Constant) (t : BasicType) : Option Constant :=
  match r.integer? with
  | none => none
  | some distance =>
    match t, l.castTo t with
    | .int, some (.int v) => shiftInt op v distance
    | .long, some (.long v) => shiftLong op v distance
    | _, _ => none

/-- The value of `l op r`, where `t` is the type both operands are promoted to, `boolean` for
logical operators and `string` for concatenation. For shifts it is the type of the left one. -/
def binary (op : Operator) (l r : Constant) (t : BasicType) : Option Constant :=
  match t with
  | .string => if op == .add then some (.string (l.render ++ r.render)) else none
  | .boolean =>
    match l, r with
    | .boolean a, .boolean b => foldBoolean op a b
    | _, _ => none
  | t =>
    if op.isShift then foldShift op l r t
    else
      match l.castTo t, r.castTo t with
      | some (.int a), some (.int b) => foldInt op a b
      | some (.long a), some (.long b) => foldLong op a b
      | some (.float a), some (.float b) =>
        foldFloating Number.single (fun n => .float n.toUInt32) op a.toNat b.toNat
      | some (.double a), some (.double b) =>
        foldFloating Number.double (fun n => .double n.toUInt64) op a.toNat b.toNat
      | _, _ => none

def negate? : Constant → Option Constant
  | .int v => some (.int (-v))
  | .long v => some (.long (-v))
  | .float b => some (.float (Number.negate Number.single b.toNat).toUInt32)
  | .double b => some (.double (Number.negate Number.double b.toNat).toUInt64)
  | _ => none

def complement? : Constant → Option Constant
  | .int v => some (.int (~~~v))
  | .long v => some (.long (~~~v))
  | _ => none

/-- The value of a prefix operator on an operand promoted to `t`. -/
def unary (op : Operator) (c : Constant) (t : BasicType) : Option Constant :=
  if op == .not then
    match c with
    | .boolean b => some (.boolean (!b))
    | _ => none
  else
    match c.castTo t, op with
    | some v, .pos => some v
    | some v, .neg => negate? v
    | some v, .bitNot => complement? v
    | _, _ => none

end Javelin.Constant

namespace Javelin.Literal

/-- The kinds of literals. -/
inductive Kind where
  | int
  | long
  | float
  | double
  | char
  | string
  | textBlock
  | boolean
  | null
deriving DecidableEq, Inhabited, Repr

def Kind.all : List Kind := [.int, .long, .float, .double, .char, .string, .textBlock, .boolean, .null]

def Kind.name : Kind → String
  | .int => "int"
  | .long => "long"
  | .float => "float"
  | .double => "double"
  | .char => "char"
  | .string => "string"
  | .textBlock => "text"
  | .boolean => "bool"
  | .null => "null"

/-- The constant a literal denotes; `null` denotes none. -/
def constant (kind : Kind) (raw : Text) (negated : Bool) : Except Failure (Option Constant) :=
  match kind with
  | .int => (int32 raw negated).map fun v => some (.int v)
  | .long => (int64 raw negated).map fun v => some (.long v)
  | .float => (float32 raw).map fun b => some (Constant.ofFloatBits b)
  | .double => (float64 raw).map fun b => some (.double b)
  | .char => (char raw).map fun n => some (.char n.toUInt16)
  | .string => (string raw).map fun s => some (.string s)
  | .textBlock => (textBlock raw).map fun s => some (.string s)
  | .boolean => .ok (some (.boolean (raw == "true")))
  | .null => .ok none

end Javelin.Literal

/-!
## Descriptions of constants

A constant as a document: its type and its value. Floating point numbers are described by their
bits, because their decimal digits do not tell all of them apart. -/

namespace Javelin.Constant

/-- The bits of a number in hexadecimal; all bit patterns that are no number are described alike. -/
def bitsText (f : Number.Format) (width bits : Nat) : Text :=
  if Number.isNaN f bits then "nan" else Text.hex width bits

def singleBits (b : UInt32) : Text := bitsText Number.single 8 b.toNat

def doubleBits (b : UInt64) : Text := bitsText Number.double 16 b.toNat

/-- The type and value of a constant; the rendering of floating point numbers follows their bits. -/
def describe : Option Constant → JsonValue
  | none => .strings ["none"]
  | some c =>
    .strings <| match c with
      | .float b => ["float", singleBits b, c.render]
      | .double b => ["double", doubleBits b, c.render]
      | .char u => ["char", Text.ofNat u.toNat]
      | .string t => ["string", t]
      | c => [c.type.name, c.render]

end Javelin.Constant
