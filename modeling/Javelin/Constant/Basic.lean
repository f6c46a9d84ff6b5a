import Javelin.Number.Decimal
import Javelin.Text.Utf8

/-!
# Constants

The values that expressions can have at compile time. Integers have the width of their type and
floating point numbers are bit patterns, so two constants are equal exactly when type and bits are.
-/

namespace Javelin

/-- The types that matter for constants, and stand-ins for all others. -/
inductive BasicType where
  | undefined
  | boolean
  | byte
  | char
  | short
  | int
  | long
  | float
  | double
  | string
  | null
  | void
  | object
deriving DecidableEq, Inhabited, Hashable, Repr

namespace BasicType

def all : List BasicType :=
  [undefined, boolean, byte, char, short, int, long, float, double, string, null, void, object]

def name : BasicType → String
  | undefined => "<undefined>"
  | boolean => "boolean"
  | byte => "byte"
  | char => "char"
  | short => "short"
  | int => "int"
  | long => "long"
  | float => "float"
  | double => "double"
  | string => "java.lang.String"
  | null => "null"
  | void => "void"
  | object => "java.lang.Object"

/-- The type with a given name; `String` and `Object` need no package. -/
def ofName (n : Text) : BasicType :=
  if n == "String" then string
  else if n == "Object" then object
  else (all.find? fun t => n == t.name).getD undefined

def isIntegral : BasicType → Bool
  | byte | char | short | int | long => true
  | _ => false

def isFloating : BasicType → Bool
  | float | double => true
  | _ => false

def isNumeric (t : BasicType) : Bool := t.isIntegral || t.isFloating

/-- Boolean or numeric. -/
def isPrimitive (t : BasicType) : Bool := t == boolean || t.isNumeric

/-- The type an operand of a unary operator is promoted to. -/
def promoted : BasicType → BasicType
  | byte | short | char | int => int
  | long => long
  | float => float
  | double => double
  | _ => undefined

/-- The type two operands are promoted to. -/
def promotedWith (a b : BasicType) : BasicType :=
  if !a.isNumeric || !b.isNumeric then undefined
  else if a == double || b == double then double
  else if a == float || b == float then float
  else if a == long || b == long then long
  else int

end BasicType

/-- A compile-time value. -/
inductive Constant where
  | boolean (value : Bool)
  | byte (value : Int8)
  | char (unit : UInt16)
  | short (value : Int16)
  | int (value : Int32)
  | long (value : Int64)
  | float (bits : UInt32)
  | double (bits : UInt64)
  | string (value : Text)
deriving DecidableEq, Inhabited, Hashable

namespace Constant

def type : Constant → BasicType
  | boolean _ => .boolean
  | byte _ => .byte
  | char _ => .char
  | short _ => .short
  | int _ => .int
  | long _ => .long
  | float _ => .float
  | double _ => .double
  | string _ => .string

/-- A float constant; NaNs are made quiet. -/
def ofFloatBits (bits : UInt32) : Constant :=
  if Number.isNaN Number.single bits.toNat then
    .float (Number.quiet Number.single bits.toNat).toUInt32
  else .float bits

/-- The value of an integral constant. -/
def integer? : Constant → Option Int
  | byte v => some v.toInt
  | char u => some u.toNat
  | short v => some v.toInt
  | int v => some v.toInt
  | long v => some v.toInt
  | _ => none

def isTrue : Constant → Bool
  | boolean b => b
  | _ => false

/-- The text of a constant in a string concatenation. A surrogate alone is no character and reads
as the replacement character. -/
def render : Constant → Text
  | boolean b => if b then "true" else "false"
  | byte v => Text.ofInt v.toInt
  | char u => Text.ofCodePoint u.toNat
  | short v => Text.ofInt v.toInt
  | int v => Text.ofInt v.toInt
  | long v => Text.ofInt v.toInt
  | float b => Number.render Number.single b.toNat
  | double b => Number.render Number.double b.toNat
  | string t => t

/-! ## Conversions

A cast between numeric types goes by the rules of the virtual machine: integers wrap around,
floating point numbers are cut toward zero and to the bounds of `int` or `long`, and a NaN becomes
zero. Strings and booleans convert to nothing but themselves. -/

/-- An `int` narrowed to an integral type of at most its width. -/
def narrow (v : Int32) : BasicType → Constant
  | .byte => .byte v.toInt8
  | .short => .short v.toInt16
  | .char => .char v.toInt16.toUInt16
  | _ => .int v

/-- A floating point pattern cast to a numeric type. -/
def castFloating (f : Number.Format) (bits : Nat) : BasicType → Constant
  | .float => .float (Number.convert f Number.single bits).toUInt32
  | .double => .double (Number.convert f Number.double bits).toUInt64
  | .long => .long (Int64.ofInt (Number.truncate f (-(2 ^ (63 : Nat))) (2 ^ (63 : Nat) - 1) bits))
  | t => narrow (Int32.ofInt (Number.truncate f (-(2 ^ (31 : Nat))) (2 ^ (31 : Nat) - 1) bits)) t

/-- An integer cast to a numeric type. -/
def castInteger (v : Int) : BasicType → Constant
  | .float => .float (Number.ofInt Number.single v).toUInt32
  | .double => .double (Number.ofInt Number.double v).toUInt64
  | .long => .long (Int64.ofInt v)
  | t => narrow (Int32.ofInt v) t

/-- The constant cast to a type, where constants can be cast so. -/
def castTo (c : Constant) (t : BasicType) : Option Constant :=
  if c.type == t then some c
  else if !t.isNumeric then none
  else
    match c with
    | .float b => some (castFloating Number.single b.toNat t)
    | .double b => some (castFloating Number.double b.toNat t)
    | c => c.integer?.map (castInteger · t)

/-! ## Views -/

/-- The value as an `int`; zero if it has none. -/
def asInt (c : Constant) : Int32 :=
  match c.castTo .int with
  | some (.int v) => v
  | _ => 0

def asLong (c : Constant) : Int64 :=
  match c.castTo .long with
  | some (.long v) => v
  | _ => 0

def asFloat (c : Constant) : UInt32 :=
  match c.castTo .float with
  | some (.float b) => b
  | _ => 0

def asDouble (c : Constant) : UInt64 :=
  match c.castTo .double with
  | some (.double b) => b
  | _ => 0

def asChar (c : Constant) : UInt16 :=
  match c.castTo .char with
  | some (.char u) => u
  | _ => 0

/-! ## Implicit narrowing -/

/-- Whether a constant of at most the width of `int` may be assigned to a variable of type `t`
without a cast. -/
def fitsIn (c : Constant) (t : BasicType) : Bool :=
  match c with
  | .byte _ | .short _ | .char _ | .int _ =>
    match c.integer?, t with
    | some v, .byte => -128 ≤ v && v ≤ 127
    | some v, .short => -32768 ≤ v && v ≤ 32767
    | some v, .char => 0 ≤ v && v ≤ 65535
    | some _, .int => true
    | _, _ => false
  | _ => false

end Constant

end Javelin
