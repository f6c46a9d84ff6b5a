import Javelin.Token.Basic

/-!
# Operators

The operators of expressions: assignments, simple and compound, binary operators with their
precedence, and unary operators.
-/

namespace Javelin

inductive Operator where
  | invalid
  | assign
  | addAssign
  | subAssign
  | mulAssign
  | divAssign
  | remAssign
  | andAssign
  | orAssign
  | xorAssign
  | shlAssign
  | shrAssign
  | ushrAssign
  | condOr
  | condAnd
  | or
  | xor
  | and
  | eq
  | ne
  | lt
  | gt
  | le
  | ge
  | shl
  | shr
  | ushr
  | add
  | sub
  | mul
  | div
  | rem
  | not
  | bitNot
  | neg
  | pos
  | inc
  | dec
deriving DecidableEq, Inhabited, Hashable, Repr

namespace Operator

def text : Operator → String
  | .invalid => "?"
  | .assign => "="
  | .addAssign => "+="
  | .subAssign => "-="
  | .mulAssign => "*="
  | .divAssign => "/="
  | .remAssign => "%="
  | .andAssign => "&="
  | .orAssign => "|="
  | .xorAssign => "^="
  | .shlAssign => "<<="
  | .shrAssign => ">>="
  | .ushrAssign => ">>>="
  | .condOr => "||"
  | .condAnd => "&&"
  | .or => "|"
  | .xor => "^"
  | .and => "&"
  | .eq => "=="
  | .ne => "!="
  | .lt => "<"
  | .gt => ">"
  | .le => "<="
  | .ge => ">="
  | .shl => "<<"
  | .shr => ">>"
  | .ushr => ">>>"
  | .add => "+"
  | .sub => "-"
  | .mul => "*"
  | .div => "/"
  | .rem => "%"
  | .not => "!"
  | .bitNot => "~"
  | .neg => "-"
  | .pos => "+"
  | .inc => "++"
  | .dec => "--"

/-- The operators whose text is theirs alone or, of two with one text, the binary one. -/
def named : List Operator :=
  [.invalid, .assign, .addAssign, .subAssign, .mulAssign, .divAssign, .remAssign, .andAssign,
    .orAssign, .xorAssign, .shlAssign, .shrAssign, .ushrAssign, .condOr, .condAnd, .or, .xor, .and,
    .eq, .ne, .lt, .gt, .le, .ge, .shl, .shr, .ushr, .add, .sub, .mul, .div, .rem, .not, .bitNot,
    .inc, .dec]

/-- The operator with the given text. -/
def ofText? (t : String) : Option Operator := named.find? (·.text == t)

/-- The operator that a compound assignment applies; other operators are their own. -/
def binary : Operator → Operator
  | addAssign => add
  | subAssign => sub
  | mulAssign => mul
  | divAssign => div
  | remAssign => rem
  | andAssign => and
  | orAssign => or
  | xorAssign => xor
  | shlAssign => shl
  | shrAssign => shr
  | ushrAssign => ushr
  | op => op

def isCompound (op : Operator) : Bool := op.binary != op

def isComparison : Operator → Bool
  | eq | ne | lt | gt | le | ge => true
  | _ => false

def isShift : Operator → Bool
  | shl | shr | ushr => true
  | _ => false

/-- How tightly a binary operator binds; zero for the others. -/
def precedence : Operator → Nat
  | condOr => 1
  | condAnd => 2
  | or => 3
  | xor => 4
  | and => 5
  | eq | ne => 6
  | lt | gt | le | ge => 7
  | shl | shr | ushr => 8
  | add | sub => 9
  | mul | div | rem => 10
  | _ => 0

/-- The binary operator a token stands for. -/
def ofBinaryToken? : Token.Kind → Option Operator
  | .orOr => some condOr
  | .andAnd => some condAnd
  | .bar => some or
  | .caret => some xor
  | .amp => some and
  | .eqEq => some eq
  | .notEq => some ne
  | .less => some lt
  | .greater => some gt
  | .lessEq => some le
  | .greaterEq => some ge
  | .shiftLeft => some shl
  | .shiftRight => some shr
  | .shiftRightZero => some ushr
  | .plus => some add
  | .minus => some sub
  | .star => some mul
  | .slash => some div
  | .percent => some rem
  | _ => none

/-- The assignment a token stands for. -/
def ofAssignToken? : Token.Kind → Option Operator
  | .assign => some assign
  | .plusAssign => some addAssign
  | .minusAssign => some subAssign
  | .starAssign => some mulAssign
  | .slashAssign => some divAssign
  | .percentAssign => some remAssign
  | .ampAssign => some andAssign
  | .barAssign => some orAssign
  | .caretAssign => some xorAssign
  | .shiftLeftAssign => some shlAssign
  | .shiftRightAssign => some shrAssign
  | .shiftRightZeroAssign => some ushrAssign
  | _ => none

end Operator

end Javelin
