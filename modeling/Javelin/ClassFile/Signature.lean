import Javelin.ClassFile.Descriptor

/-!
# Generic signatures

A signature is a descriptor with its type variables and type arguments. Plain descriptors are
signatures too.
-/

namespace Javelin.Signature

mutual

/-- A type in a signature. -/
inductive TypeSig where
  | primitive (type : BasicType)
  | variable (name : Text)
  | array (elem : TypeSig)
  | cls (type : ClassSig)

/-- A class type; the parts of a nested name are joined by a dollar sign, and an enclosing type is
kept if it has arguments. -/
inductive ClassSig where
  | mk (name : Text) (args : List ArgSig) (outer : Option ClassSig)

/-- A type argument. -/
inductive ArgSig where
  | exact (type : TypeSig)
  | unbounded
  | upper (bound : TypeSig)
  | lower (bound : TypeSig)

end

instance : Inhabited TypeSig := ⟨.variable {}⟩

instance : Inhabited ClassSig := ⟨.mk {} [] none⟩

namespace ClassSig

def name : ClassSig → Text
  | mk n _ _ => n

def args : ClassSig → List ArgSig
  | mk _ as _ => as

def outer : ClassSig → Option ClassSig
  | mk _ _ o => o

end ClassSig

/-- A declared type variable. -/
structure ParamSig where
  name : Text
  classBound : Option TypeSig
  interfaceBounds : List TypeSig
deriving Inhabited

structure OfClass where
  params : List ParamSig
  superclass : ClassSig
  interfaces : List ClassSig
deriving Inhabited

/-- The signature of a method; `result` is none for a method without a value. -/
structure OfMethod where
  typeParams : List ParamSig
  params : List TypeSig
  result : Option TypeSig
  throws : List TypeSig
deriving Inhabited

/-! ## Reading -/

inductive Cause where
  | expected (byte : UInt8)
  | unexpected (byte : UInt8)
  | noIdentifier
  | noClassName
  | trailing
deriving DecidableEq, Repr

/-- Why and where a text is no signature. -/
structure Fault where
  offset : Nat
  cause : Cause
deriving DecidableEq, Repr

def Cause.message : Cause → Text
  | .expected b => "expected " ++ Text.quoteChar (Char.ofNat b.toNat)
  | .unexpected b => "unexpected " ++ Text.quoteChar (Char.ofNat b.toNat)
  | .noIdentifier => "expected identifier"
  | .noClassName => "expected class name"
  | .trailing => "trailing characters"

def Fault.message (t : Text) (f : Fault) : Text :=
  "signature " ++ t.quote ++ " at " ++ Text.ofNat f.offset ++ ": " ++ f.cause.message

/-- A reader of signatures: the text, and the offset reached. -/
abbrev Reader := ReaderT Text (StateT Nat (Except Fault))

/-- The byte reached, or zero at the end. -/
def peek : Reader UInt8 := return (← read).at0 (← get)

def fail {α : Type} (c : Cause) : Reader α := do throw ⟨← get, c⟩

def skip : Reader Unit := modify (· + 1)

def expect (b : UInt8) : Reader Unit := do
  if (← peek) != b then fail (.expected b)
  skip

/-- The longest run of bytes outside a set, which must not be empty. -/
def word (stop : List UInt8) (c : Cause) : Reader Text := do
  let t ← read
  let start ← get
  let i := t.skipWhile (fun b => !stop.contains b) start
  if i == start then fail c
  set i
  return t.slice start i

def identifier : Reader Text := word ['.', ';', '[', '/', '<', '>', ':'] .noIdentifier

/-- Items up to, and the byte that ends them. -/
def itemsUntil {α : Type} (stop : UInt8) (item : Reader α) : Nat → Reader (List α)
  | 0 => return []
  | fuel + 1 => do
    if (← peek) == stop then
      skip
      return []
    let a ← item
    return a :: (← itemsUntil stop item fuel)

/-- Items, each behind a mark. -/
def itemsAfter {α : Type} (mark : UInt8) (item : Reader α) : Nat → Reader (List α)
  | 0 => return []
  | fuel + 1 => do
    if (← peek) != mark then return []
    skip
    let a ← item
    return a :: (← itemsAfter mark item fuel)

/-- A type argument, for a given reader of types. -/
def argOf (type : Reader TypeSig) : Reader ArgSig := do
  let c ← peek
  if c == '*' then
    skip
    return .unbounded
  else if c == '+' then
    skip
    return .upper (← type)
  else if c == '-' then
    skip
    return .lower (← type)
  else return .exact (← type)

def argsOf (type : Reader TypeSig) : Reader (List ArgSig) := do
  if (← peek) != '<' then return []
  skip
  itemsUntil '>' (argOf type) ((← read).size + 1)

/-- The nested names behind a class type. -/
def nestedOf (type : Reader TypeSig) (c : ClassSig) : Nat → Reader ClassSig
  | 0 => return c
  | fuel + 1 => do
    if (← peek) != '.' then return c
    skip
    let name ← identifier
    let outer := if c.args.isEmpty && c.outer.isNone then none else some c
    let args ← argsOf type
    nestedOf type (.mk (c.name ++ "$" ++ name) args outer) fuel

def classOf (type : Reader TypeSig) : Reader ClassSig := do
  expect 'L'
  let name ← word ['.', ';', '<'] .noClassName
  let c := .mk name (← argsOf type) none
  let c ← nestedOf type c ((← read).size + 1)
  expect ';'
  return c

/-- A type nested at most `depth` deep. -/
def typeAt : Nat → Reader TypeSig
  | 0 => fail .trailing
  | depth + 1 => do
    let c ← peek
    match BasicType.ofLetter? c with
    | some p =>
      skip
      return .primitive p
    | none =>
      if c == 'L' then return .cls (← classOf (typeAt depth))
      else if c == 'T' then
        skip
        let name ← identifier
        expect ';'
        return .variable name
      else if c == '[' then
        skip
        return .array (← typeAt depth)
      else fail (.unexpected c)

/-- Every level of nesting takes at least one byte. -/
def type : Reader TypeSig := do typeAt ((← read).size + 1)

def param : Reader ParamSig := do
  let name ← identifier
  expect ':'
  let c ← peek
  let classBound ← if c == ':' || c == '>' then pure none else some <$> type
  let interfaceBounds ← itemsAfter ':' type ((← read).size + 1)
  return ⟨name, classBound, interfaceBounds⟩

def params : Reader (List ParamSig) := do
  if (← peek) != '<' then return []
  skip
  itemsUntil '>' param ((← read).size + 1)

/-- Class types up to the end. -/
def classesToEnd : Nat → Reader (List ClassSig)
  | 0 => return []
  | fuel + 1 => do
    if (← read).size ≤ (← get) then return []
    let c ← classOf type
    return c :: (← classesToEnd fuel)

def ofClassReader : Reader OfClass := do
  let params ← params
  let superclass ← classOf type
  return ⟨params, superclass, ← classesToEnd ((← read).size + 1)⟩

def ofMethodReader : Reader OfMethod := do
  let n := (← read).size + 1
  let typeParams ← params
  expect '('
  let params ← itemsUntil ')' type n
  let result ← if (← peek) == 'V' then
      skip
      pure none
    else some <$> type
  return ⟨typeParams, params, result, ← itemsAfter '^' type n⟩

/-- Reads a whole text. -/
def readAll {α : Type} (r : Reader α) (t : Text) : Except Fault α := do
  let (a, i) ← r t 0
  if i != t.size then throw ⟨i, .trailing⟩
  return a

/-- The signature of a field; a descriptor is one too. -/
def TypeSig.ofText (t : Text) : Except Fault TypeSig := readAll type t

def OfClass.ofText (t : Text) : Except Fault OfClass := readAll ofClassReader t

def OfMethod.ofText (t : Text) : Except Fault OfMethod := readAll ofMethodReader t

end Javelin.Signature
