import Javelin.Text.Basic

/-!
# Instructions

The opcodes of the virtual machine that are emitted. Instructions for the five kinds of values stand
side by side in the order of `ValueKind.rank`, so one of a family is found by adding the rank to the
opcode for `int`.
-/

namespace Javelin.Bytecode

/-- The kinds of values on the operand stack. -/
inductive ValueKind where
  | int
  | long
  | float
  | double
  | ref
  | void
deriving DecidableEq, Inhabited, Repr

namespace ValueKind

/-- The place in a family of instructions. -/
def rank : ValueKind → UInt8
  | int => 0
  | long => 1
  | float => 2
  | double => 3
  | ref => 4
  | void => 5

/-- How many words a value takes. -/
def size : ValueKind → Nat
  | long | double => 2
  | void => 0
  | _ => 1

end ValueKind

/-- The first byte of an instruction. -/
abbrev Opcode := UInt8

namespace Opcode

def aconstNull : Opcode := 0x01
def iconstM1 : Opcode := 0x02
def iconst0 : Opcode := 0x03
def lconst0 : Opcode := 0x09
def fconst0 : Opcode := 0x0b
def dconst0 : Opcode := 0x0e
def bipush : Opcode := 0x10
def sipush : Opcode := 0x11
def ldc : Opcode := 0x12
def ldcW : Opcode := 0x13
def ldc2W : Opcode := 0x14

def iload : Opcode := 0x15
def iload0 : Opcode := 0x1a
def iaload : Opcode := 0x2e
def istore : Opcode := 0x36
def istore0 : Opcode := 0x3b
def iastore : Opcode := 0x4f

def pop : Opcode := 0x57
def pop2 : Opcode := 0x58
def dup : Opcode := 0x59
def dupX1 : Opcode := 0x5a
def dupX2 : Opcode := 0x5b
def dup2 : Opcode := 0x5c
def dup2X1 : Opcode := 0x5d
def dup2X2 : Opcode := 0x5e
def swap : Opcode := 0x5f

def iadd : Opcode := 0x60
def isub : Opcode := 0x64
def imul : Opcode := 0x68
def idiv : Opcode := 0x6c
def irem : Opcode := 0x70
def ineg : Opcode := 0x74
def ishl : Opcode := 0x78
def ishr : Opcode := 0x7a
def iushr : Opcode := 0x7c
def iand : Opcode := 0x7e
def ior : Opcode := 0x80
def ixor : Opcode := 0x82
def iinc : Opcode := 0x84

def l2i : Opcode := 0x88
def i2b : Opcode := 0x91
def i2c : Opcode := 0x92
def i2s : Opcode := 0x93

def lcmp : Opcode := 0x94
def fcmpl : Opcode := 0x95
def fcmpg : Opcode := 0x96
def dcmpl : Opcode := 0x97
def dcmpg : Opcode := 0x98

def ifeq : Opcode := 0x99
def ifne : Opcode := 0x9a
def iflt : Opcode := 0x9b
def ifge : Opcode := 0x9c
def ifgt : Opcode := 0x9d
def ifle : Opcode := 0x9e
def ifIcmpeq : Opcode := 0x9f
def ifIcmpge : Opcode := 0xa2
def ifAcmpeq : Opcode := 0xa5
def goto : Opcode := 0xa7

def tableswitch : Opcode := 0xaa
def lookupswitch : Opcode := 0xab
def ireturn : Opcode := 0xac
def returnVoid : Opcode := 0xb1

def getstatic : Opcode := 0xb2
def putstatic : Opcode := 0xb3
def getfield : Opcode := 0xb4
def putfield : Opcode := 0xb5
def invokevirtual : Opcode := 0xb6
def invokespecial : Opcode := 0xb7
def invokestatic : Opcode := 0xb8
def invokeinterface : Opcode := 0xb9
def newObject : Opcode := 0xbb
def newarray : Opcode := 0xbc
def anewarray : Opcode := 0xbd
def arraylength : Opcode := 0xbe
def athrow : Opcode := 0xbf
def checkcast : Opcode := 0xc0
def instanceof : Opcode := 0xc1
def monitorenter : Opcode := 0xc2
def monitorexit : Opcode := 0xc3
def wide : Opcode := 0xc4
def multianewarray : Opcode := 0xc5
def ifnull : Opcode := 0xc6
def ifnonnull : Opcode := 0xc7

/-- The instruction of a family for a kind of value. -/
def forKind (first : Opcode) (k : ValueKind) : Opcode := first + k.rank

/-- Whether control never goes on to the next instruction. -/
def endsFlow (o : Opcode) : Bool :=
  o == goto || o == athrow || o == tableswitch || o == lookupswitch ||
    (ireturn ≤ o && o ≤ returnVoid)

/-- The branch on the opposite condition. The two of a pair differ in the lowest bit. -/
def negate (o : Opcode) : Opcode :=
  if o == ifnull then ifnonnull
  else if o == ifnonnull then ifnull
  else if (o - ifeq) % 2 == 0 then o + 1
  else o - 1

/-- How many words a branch takes off the stack. -/
def branchPops (o : Opcode) : Nat :=
  if o == goto then 0
  else if (ifeq ≤ o && o ≤ ifle) || o == ifnull || o == ifnonnull then 1
  else 2

/-- The instruction that converts between kinds of numbers; nothing between a kind and itself. -/
def conversion? : ValueKind → ValueKind → Option Opcode
  | .int, .long => some 0x85
  | .int, .float => some 0x86
  | .int, .double => some 0x87
  | .long, .int => some 0x88
  | .long, .float => some 0x89
  | .long, .double => some 0x8a
  | .float, .int => some 0x8b
  | .float, .long => some 0x8c
  | .float, .double => some 0x8d
  | .double, .int => some 0x8e
  | .double, .long => some 0x8f
  | .double, .float => some 0x90
  | _, _ => none

end Opcode

end Javelin.Bytecode

/-!
## The words of a call

How many words of the operand stack the arguments and the result of a method take, read off its
descriptor in one pass.
-/

namespace Javelin.Bytecode

/-- Where the pass over a descriptor stands: before a type, behind the brackets of an array or in
the name of a class. -/
inductive DescriptorPlace where
  | type
  | element
  | name
deriving DecidableEq, Repr

/-- The words of the parameters, and what is left from the closing parenthesis on; none if the pass
runs over the end. -/
def argumentWords? : DescriptorPlace → List UInt8 → Option (Nat × List UInt8)
  | .type, [] => some (0, [])
  | .type, b :: bs =>
    if b == ')' then some (0, b :: bs)
    else if b == '[' then argumentWords? .element bs
    else if b == 'L' then argumentWords? .name bs
    else (argumentWords? .type bs).map fun (n, rest) =>
      (n + if b == 'J' || b == 'D' then 2 else 1, rest)
  | .element, b :: bs =>
    if b == '[' then argumentWords? .element bs
    else if b == 'L' then argumentWords? .name bs
    else (argumentWords? .type bs).map fun (n, rest) => (n + 1, rest)
  | .name, b :: bs =>
    if b == ';' then (argumentWords? .type bs).map fun (n, rest) => (n + 1, rest)
    else argumentWords? .name bs
  | _, [] => none

/-- The words of a result whose type starts with the given byte. -/
def resultWords : Option UInt8 → Nat
  | none => 0
  | some b => if b == 'V' then 0 else if b == 'J' || b == 'D' then 2 else 1

/-- The words of the arguments and of the result of a method with the given descriptor; none if the
descriptor ends in the middle of a type. -/
def callWords? (descriptor : Text) : Option (Nat × Nat) :=
  (argumentWords? .type descriptor.toList.tail).map fun (n, rest) =>
    (n, resultWords rest.tail.head?)

/-- The words of the arguments and of the result of a method. Its descriptor was written or read as
a descriptor, so that the pass stays inside. -/
def callWords (descriptor : Text) : Nat × Nat := (callWords? descriptor).getD (0, 0)

end Javelin.Bytecode
