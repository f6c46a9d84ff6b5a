import Javelin.Emit.Basic
import Javelin.Types.Members

/-!
# Values and conversions

Pushing constants and variables, and converting the value on the stack from one type to another.
Generic types are erased in class files, so a value of a generic member may need a cast.
-/

namespace Javelin.Emit

open Bytecode

/-! ## Kinds -/

/-- The kind of values of a primitive type; all other types are references. -/
def kindOfBasic : BasicType → ValueKind
  | .long => .long
  | .float => .float
  | .double => .double
  | .void => .void
  | .undefined => .ref
  | _ => .int

variable [Answers]

def kindOf (t : TypeId) : Emitting ValueKind := do return kindOfBasic (← Lookup.basicType t)

def basicType (t : TypeId) : Emitting BasicType := Lookup.basicType t

/-! ## Variables and constants -/

def load (k : ValueKind) (slot : Nat) : Emitting Unit :=
  modifyCode (·.varOp (.forKind .iload k) (.iload0 + 4 * k.rank) slot k.size)

def store (k : ValueKind) (slot : Nat) : Emitting Unit :=
  modifyCode (·.varOp (.forKind .istore k) (.istore0 + 4 * k.rank) slot (-k.size))

def loadRef (slot : Nat) : Emitting Unit := load .ref slot

/-- Drops a value. -/
def pop (k : ValueKind) : Emitting Unit :=
  match k.size with
  | 1 => op .pop (-1)
  | 2 => op .pop2 (-2)
  | _ => return

/-- Pushes an entry of the constant pool. -/
def loadEntry (i : UInt16) : Emitting Unit :=
  if i < 256 then opWith .ldc 1 [i.toUInt8] else opIndex .ldcW 1 i

def pushInt (v : Int32) : Emitting Unit := do
  if -1 ≤ v && v ≤ 5 then
    op (Opcode.iconst0 + v.toUInt32.toUInt8) 1
  else if -128 ≤ v && v ≤ 127 then
    opWith .bipush 1 [v.toUInt32.toUInt8]
  else if -32768 ≤ v && v ≤ 32767 then
    opWith .sipush 1 (Assembly.bytes2 v.toUInt32.toUInt16)
  else
    loadEntry (← build (ClassFile.Builder.integer v))

/-- Pushes a number of things. -/
def pushNat (n : Nat) : Emitting Unit := pushInt (Int32.ofNat n)

def pushString (t : Text) : Emitting Unit := do loadEntry (← build (ClassFile.Builder.string t))

/-- The floats with an instruction of their own: zero, one and two. -/
def shortFloats : List UInt32 := [0x00000000, 0x3f800000, 0x40000000]

/-- The doubles with an instruction of their own: zero and one. -/
def shortDoubles : List UInt64 := [0x0000000000000000, 0x3ff0000000000000]

def pushConstant (c : Constant) : Emitting Unit := do
  match c with
  | .boolean b => pushInt (if b then 1 else 0)
  | .long n =>
    if n == 0 || n == 1 then
      op (Opcode.lconst0 + n.toUInt64.toUInt8) 2
    else
      opIndex .ldc2W 2 (← build (ClassFile.Builder.long n))
  | .float b =>
    match shortFloats.idxOf? b with
    | some i => op (Opcode.fconst0 + i.toUInt8) 1
    | none => loadEntry (← build (ClassFile.Builder.float b))
  | .double b =>
    match shortDoubles.idxOf? b with
    | some i => op (Opcode.dconst0 + i.toUInt8) 2
    | none => opIndex .ldc2W 2 (← build (ClassFile.Builder.double b))
  | .string t => pushString t
  | c => pushInt c.asInt

/-- The entry of a constant in the constant pool. -/
def constantEntry (i : ClassId) (c : Constant) : Emitting UInt16 :=
  buildIn i <| match c with
    | .long n => ClassFile.Builder.long n
    | .float b => ClassFile.Builder.float b
    | .double b => ClassFile.Builder.double b
    | .string t => ClassFile.Builder.string t
    | c => ClassFile.Builder.integer c.asInt

/-! ## References to members -/

def callMethod (o : Opcode) (delta : Int) (owner name descriptor : Text) : Emitting Unit := do
  opIndex o delta (← build (ClassFile.Builder.ref .method owner name descriptor))

/-- Calls a method of an interface; the number of words includes the receiver. -/
def callInterface (delta : Int) (words : Nat) (owner name descriptor : Text) : Emitting Unit := do
  let i ← build (ClassFile.Builder.ref .interfaceMethod owner name descriptor)
  opWith .invokeinterface delta (Assembly.bytes2 i ++ [words.toUInt8, 0])

def accessField (o : Opcode) (delta : Int) (owner name descriptor : Text) : Emitting Unit := do
  opIndex o delta (← build (ClassFile.Builder.ref .field owner name descriptor))

/-- An instruction that names a class. -/
def opClass (o : Opcode) (delta : Int) (name : Text) : Emitting Unit := do
  opIndex o delta (← build (ClassFile.Builder.cls name))

/-! ## Conversions -/

/-- Converts between primitive types; the narrow ones take a second step. -/
def convertBasic (source target : BasicType) : Emitting Unit := do
  if source == target || source == .boolean || target == .boolean then
    return
  let a := kindOfBasic source
  let b := kindOfBasic target
  if a == .ref || a == .void || b == .ref || b == .void then
    return
  if let some o := Opcode.conversion? a b then
    op o (b.size - a.size)
  match target with
  | .byte => op .i2b 0
  | .short => if source != .byte then op .i2s 0
  | .char => op .i2c 0
  | _ => return

/-- The classes that wrap primitive types. -/
def boxName : BasicType → Text
  | .boolean => "java/lang/Boolean"
  | .byte => "java/lang/Byte"
  | .char => "java/lang/Character"
  | .short => "java/lang/Short"
  | .int => "java/lang/Integer"
  | .long => "java/lang/Long"
  | .float => "java/lang/Float"
  | .double => "java/lang/Double"
  | .void => "java/lang/Void"
  | _ => {}

/-- The descriptor of a primitive type that has values. -/
def basicDescriptor (t : BasicType) : Text :=
  if t.isPrimitive then (t.letter?.map Text.singleton).getD {} else {}

def box (t : BasicType) : Emitting Unit :=
  let owner := boxName t
  callMethod .invokestatic (1 - (kindOfBasic t).size) owner "valueOf"
    ("(" ++ basicDescriptor t ++ ")L" ++ owner ++ ";")

def unbox (t : BasicType) : Emitting Unit :=
  let name : Text := if t.isPrimitive then t.name else {}
  callMethod .invokevirtual ((kindOfBasic t).size - 1) (boxName t) (name ++ "Value")
    ("()" ++ basicDescriptor t)

/-- Whether a type inherits from the declaration of another. -/
def inherits (t target : TypeId) : Emitting Bool := do
  if t.isNone || target.isNone then
    return false
  return (← Lookup.asSuper t (← Lookup.declaration target)).isSome

/-- Whether erased values of a type are instances of the erasure of another. -/
def isErasedSubtype (source target : TypeId) : Emitting Bool := do
  if (← Lookup.shape source).isNull then
    return true
  let source ← Lookup.erasure source
  let target ← Lookup.erasure target
  if source == target || target == (← Lookup.objectType) || source.isNone || target.isNone then
    return true
  if (← Lookup.shape source).isArray || (← Lookup.shape target).isArray then
    return ← Lookup.isSubtype source target
  inherits source target

/-- Casts a reference that is not known to be an instance of the erasure of a type. -/
def castTo (source target : TypeId) : Emitting Unit := do
  unless ← Lookup.isReference target do
    return
  if ← isErasedSubtype source target then
    return
  opClass .checkcast 0 (← Lookup.binaryName (← Lookup.erasure target))

/-- Converts the value on the stack from one type to another. -/
def coerce (source target : TypeId) : Emitting Unit := do
  if source == target || source.isNone || target.isNone then
    return
  let a ← basicType source
  let b ← basicType target
  if a == .void || b == .void then
    return
  match a == .undefined, b == .undefined with
  | false, false => convertBasic a b
  | false, true =>
    let wrapped ← basicType (← Lookup.unboxed target)
    if wrapped == .undefined then
      box a
    else
      convertBasic a wrapped
      box wrapped
  | true, false =>
    let wrapped ← basicType (← Lookup.unboxed source)
    if wrapped == .undefined then
      opClass .checkcast 0 (boxName b)
      unbox b
    else
      unbox wrapped
      convertBasic wrapped b
  | true, true => castTo source target

/-- Casts the value of a generic member to the type of the expression. -/
def castResult (declared actual : TypeId) : Emitting Unit := do
  unless ← Lookup.isReference actual do
    return
  if (← Lookup.shape actual).isNull then
    return
  castTo declared actual

/-- The primitive type of a type, or the one that it wraps. -/
def unwrapped (t : TypeId) : Emitting BasicType := do
  let b ← basicType t
  if b == .undefined then basicType (← Lookup.unboxed t) else return b

def isString (t : TypeId) : Emitting Bool := do
  if t.isNone then
    return false
  return (← Lookup.resolve t) == (← Lookup.stringType)

/-! ## Arrays -/

/-- The distance from the array instruction for `int` to the one for a type of elements. -/
def elementRank (elem : TypeId) : Emitting UInt8 := do
  match ← basicType elem with
  | .boolean | .byte => return 5
  | .char => return 6
  | .short => return 7
  | b => return (kindOfBasic b).rank

def loadElement (elem : TypeId) : Emitting Unit := do
  op (Opcode.iaload + (← elementRank elem)) ((← kindOf elem).size - 2)

def storeElement (elem : TypeId) : Emitting Unit := do
  op (Opcode.iastore + (← elementRank elem)) (-2 - (← kindOf elem).size)

/-- The number of a primitive type in the instruction that makes an array. -/
def arrayCode : BasicType → UInt8
  | .boolean => 4
  | .char => 5
  | .float => 6
  | .double => 7
  | .byte => 8
  | .short => 9
  | .int => 10
  | .long => 11
  | _ => 0

/-- Makes an array whose length is on the stack. -/
def newArrayOf (elem : TypeId) : Emitting Unit := do
  let b ← basicType elem
  if b == .undefined then
    opClass .anewarray 0 (← Lookup.binaryName elem)
  else
    opWith .newarray 0 [arrayCode b]

end Javelin.Emit
