import Javelin.Constant.Basic
import Javelin.Types.Spelling

/-!
# Subtypes and conversions

1. Supertypes, with type arguments as seen from the subtype.
2. `Lookup.subtypeRule`. No type and missing types agree with everything, so that one error does not
   lead to others.
3. Boxing, assignment and casts.
4. Common supertypes.
-/

namespace Javelin

/-- Whether values of one primitive type are also values of another. -/
def BasicType.widensTo : BasicType → BasicType → Bool
  | .byte, t => [.byte, .short, .int, .long, .float, .double].contains t
  | .short, t => [.short, .int, .long, .float, .double].contains t
  | .char, t => [.char, .int, .long, .float, .double].contains t
  | .int, t => [.int, .long, .float, .double].contains t
  | .long, t => [.long, .float, .double].contains t
  | .float, t => [.float, .double].contains t
  | s, t => s == t

/-- The classes that wrap primitive types. -/
def boxNames : List (BasicType × String) :=
  [(.boolean, "java.lang.Boolean"), (.byte, "java.lang.Byte"), (.char, "java.lang.Character"),
    (.short, "java.lang.Short"), (.int, "java.lang.Integer"), (.long, "java.lang.Long"),
    (.float, "java.lang.Float"), (.double, "java.lang.Double")]

namespace Lookup

/-- How many types a walk over supertypes may go up. -/
def walkLimit : Nat := 100000

variable [Answers]

/-! ## Supertypes -/

/-- The direct superclass. Arrays and variables without a class bound have `Object`. -/
def superclass (t : TypeId) : Lookup TypeId := do
  let (id, s) ← view t
  match s with
  | .declared d =>
    if d.isMissing then
      return .none
    ensureSupertypes id
    resolve (← entry id).shape.declaredD.superclass
  | .composite (.parameterized g ..) =>
    let (gid, _) ← view g
    ensureSupertypes gid
    let up := (← shape gid).declaredD.superclass
    if up.isNone then
      return .none
    resolve (← substitute (← substitutionOf id) up)
  | .composite (.raw g) =>
    let (gid, _) ← view g
    ensureSupertypes gid
    erasure (← shape gid).declaredD.superclass
  | .composite (.array ..) => objectType
  | .variable v | .captured v =>
    ensureSupertypes v.declaringType
    firstClass ((← entry id).shape.bounds?.getD [])
  | .composite (.intersection bs) => firstClass bs
  | _ => return .none
where
  /-- The first bound if it is no interface. -/
  firstClass : List TypeId → Lookup TypeId
    | b :: _ => do if ← isInterfaceType b then objectType else resolve b
    | [] => objectType

/-- The direct superinterfaces. -/
def superInterfaces (t : TypeId) : Lookup (List TypeId) := do
  let (id, s) ← view t
  match s with
  | .declared d =>
    if d.isMissing then
      return []
    ensureSupertypes id
    return (← entry id).shape.declaredD.interfaces
  | .composite (.parameterized g ..) =>
    let (gid, _) ← view g
    ensureSupertypes gid
    let sub ← substitutionOf id
    substituteAll sub (← shape gid).declaredD.interfaces
  | .composite (.raw g) =>
    let (gid, _) ← view g
    ensureSupertypes gid
    (← shape gid).declaredD.interfaces.mapM erasure
  | .composite (.array ..) =>
    return [← wellKnown "java.lang.Cloneable", ← wellKnown "java.io.Serializable"]
  | s => (s.bounds?.getD []).filterM isInterfaceType

/-- The supertype with a given declaration among those above a type, leaving out types already
seen, and all types seen then. -/
def asSuperFrom (decl : TypeId) : Nat → List TypeId → TypeId → Lookup (TypeId × List TypeId)
  | 0, seen, _ => return (.none, seen)
  | n + 1, seen, t => do
    let t ← resolve t
    if t.isNone || seen.contains t then
      return (.none, seen)
    let seen := t :: seen
    if (← declaration t) == decl then
      return (t, seen)
    let up ← superclass t
    let (found, seen) ← if up.isSome then asSuperFrom decl n seen up else pure (.none, seen)
    if found.isSome then
      return (found, seen)
    let mut seen := seen
    for i in ← superInterfaces t do
      let (found, s) ← asSuperFrom decl n seen i
      if found.isSome then
        return (found, s)
      seen := s
    return (.none, seen)

/-- The supertype of a type with a given declaration, or none. -/
def asSuper (t decl : TypeId) : Lookup TypeId := do return (← asSuperFrom decl walkLimit [] t).1

/-! ## Identity and subtyping -/

/-- Whether two types are the same. Composite types made before and after a placeholder in them was
looked up may have different numbers, so they are compared by components. -/
def sameRule (a b : TypeId) : Lookup Bool := do
  let (a, b) := (← resolve a, ← resolve b)
  if a == b then
    return true
  match ← shape a, ← shape b with
  | .composite (.parameterized g as o _), .composite (.parameterized h bs p _) =>
    if (← resolve g) != (← resolve h) || as.length != bs.length then
      return false
    andAlso (isSame o p) (allM (fun (x, y) => isSame x y) (as.zip bs))
  | .composite (.raw g), .composite (.raw h) => return (← resolve g) == (← resolve h)
  | .composite (.array e m), .composite (.array f n) =>
    andAlso (pure (m == n)) (isSame e f)
  | .composite (.wildcard x j), .composite (.wildcard y k) =>
    andAlso (pure (j == k)) (isSame x y)
  | _, _ => return false

/-- Whether some upper bound of a variable, captured variable or intersection is a subtype. -/
def boundReaches (s : Shape) (t : TypeId) : Lookup Bool :=
  match s.bounds? with
  | some bs => anyM (isSubtype · t) bs
  | none => return false

/-- Whether a type argument contains another one. -/
def containsArg (t s : TypeId) : Lookup Bool := do
  match ← shape t with
  | .absent => return true
  | .composite (.wildcard _ .unbounded) =>
    let _ ← shape s
    return true
  | .composite (.wildcard bound .upper) =>
    match ← shape s with
    | .composite (.wildcard b .upper) => isSubtype b bound
    | .composite (.wildcard ..) => isObject bound
    | _ => isSubtype s bound
  | .composite (.wildcard bound .lower) =>
    match ← shape s with
    | .composite (.wildcard b .lower) => isSubtype bound b
    | .composite (.wildcard ..) => return false
    | _ => isSubtype bound s
  | _ => isSame t s

/-- Whether an instance of a class or interface is a subtype of another one. -/
def instanceSubtype (a b : TypeId) (sb : Shape) : Lookup Bool := do
  let up ← asSuper a (← declaration b)
  if up.isNone then
    return false
  unless sb.isParameterized do
    return true
  unless (← shape up).isParameterized do
    -- an unchecked conversion from a raw type or a declaration
    return true
  let (us, upOuter, upDegraded) ← parts up
  let (bs, outer, degraded) ← parts b
  if us.length != bs.length then
    return upDegraded || degraded
  unless ← allM (fun (t, s) => containsArg t s) (bs.zip us) do
    return false
  if outer.isSome && upOuter.isSome then isSubtype upOuter outer else return true

/-- Whether one type is a subtype of another. -/
def subtypeRule (a b : TypeId) : Lookup Bool := do
  let (a, b) := (← resolve a, ← resolve b)
  if a == b then
    return true
  let (sa, sb) := (← shape a, ← shape b)
  if sa.isAbsent || sb.isAbsent || sa.isMissing || sb.isMissing then
    return true
  match sa, sb with
  | .base s, .base t =>
    return s != .void && t != .void && s != .boolean && t != .boolean && s.widensTo t
  | .base _, _ | _, .base _ => return false
  | _, .null => return false
  | .null, _ => return true
  | _, _ =>
  if ← isObject b then
    return true
  match sb with
  | .composite (.intersection bs) => allM (isSubtype a) bs
  | .captured v =>
    orElse (andAlso (pure v.lower.isSome) (isSubtype a v.lower)) (boundReaches sa b)
  | .variable _ => boundReaches sa b
  | .composite (.array ..) =>
    unless sa.isArray do
      return ← boundReaches sa b
    let (x, y) := (← elementType a, ← elementType b)
    if (← shape x).isBase || (← shape y).isBase then isSame x y else isSubtype x y
  | .composite (.wildcard ..) => return false
  | _ =>
  match sa with
  | .composite (.array ..) =>
    let q := sb.declaredD.qualified
    return q == "java.lang.Cloneable" || q == "java.io.Serializable"
  | .variable _ | .captured _ | .composite (.intersection _) => boundReaches sa b
  | .composite (.wildcard bound .upper) => isSubtype bound b
  | .composite (.wildcard ..) => return false
  | _ => instanceSubtype a b sb

/-! ## Conversions -/

/-- The class that wraps a primitive type. -/
def boxed (t : TypeId) : Lookup TypeId := do
  match boxNames.lookup (← basicType t) with
  | some n => wellKnown n
  | none => return .none

/-- The primitive type that a type wraps, or none. -/
def unboxedRule (t : TypeId) : Lookup TypeId := do
  match ← declarationShape t with
  | .variable v | .captured v =>
    match v.bounds with
    | b :: _ => unboxed b
    | [] => return .none
  | .declared d =>
    return ((boxNames.find? fun p => d.qualified == p.2).map fun p => base p.1).getD .none
  | _ => return .none

/-- Whether an `int` constant may narrow to a type. -/
def constantNarrows (c : Option Constant) (source target : BasicType) : Bool :=
  match c with
  | some c =>
    [.byte, .short, .char, .int].contains source && [.byte, .short, .char].contains target &&
      c.fitsIn target
  | none => false

/-- Whether a value of one type, or a constant, can be assigned to a variable of another. -/
def isAssignable (source target : TypeId) (c : Option Constant) : Lookup Bool := do
  if source.isNone || target.isNone then
    return true
  let (s, t) := (← basicType source, ← basicType target)
  if s == .void || t == .void then
    return false
  if s != .undefined && t != .undefined then
    if ← isSubtype source target then
      return true
    return s == .boolean && t == .boolean || constantNarrows c s t
  if s != .undefined then
    if ← isSubtype (← boxed source) target then
      return true
    let u ← unboxed target
    if u.isSome && s != .long && s != .float && s != .double then
      let p ← basicType u
      return p != .int && constantNarrows c s p
    return false
  if t != .undefined then
    let u ← unboxed source
    if u.isNone then
      return false
    return ← orElse (do return (← basicType u) == t) (isSubtype u target)
  orElse (isSubtype source target) <|
    andAlso (do isSubtype (← erasure source) (← erasure target)) do return (← shape source).isRaw

/-- Whether a value of one type can be assigned to a variable of another. -/
def isCompatible (source target : TypeId) : Lookup Bool := isAssignable source target none

/-- Whether a reference may turn out to have another type. -/
def castableRule (source target : TypeId) : Lookup Bool := do
  if ← orElse (isSubtype source target) (isSubtype target source) then
    return true
  let (es, et) := (← erasure source, ← erasure target)
  if ← orElse (isSubtype es et) (isSubtype et es) then
    return true
  let (s, t) := (← shape source, ← shape target)
  if s.isVariable || s.isCaptured || t.isVariable || t.isCaptured then
    return true
  if s.isArray && t.isArray then
    let (x, y) := (← elementType source, ← elementType target)
    if (← shape x).isBase || (← shape y).isBase then
      return ← isSame x y
    return ← ask (.castable x y)
  if s.isArray || t.isArray then
    return false
  let (d, e) := (← shape es, ← shape et)
  match d.isInterface, e.isInterface with
  | true, true => return true
  | true, false => return !e.traits.has .final
  | false, true => return !d.traits.has .final
  | false, false => return false

/-- Whether a cast from one type to another is legal. -/
def isCastable (source target : TypeId) : Lookup Bool := do
  if source.isNone || target.isNone then
    return true
  let (s, t) := (← basicType source, ← basicType target)
  if s == .void || t == .void then
    return false
  if s != .undefined && t != .undefined then
    return (s == .boolean) == (t == .boolean)
  if s != .undefined then
    return ← isSubtype (← boxed source) target
  if t != .undefined then
    let u ← unboxed source
    if u.isSome then
      return ← isSubtype u target
    return ← orElse (isObject source) do return (← shape source).isVariable
  ask (.castable source target)

/-! ## Common supertypes -/

/-- The first of a class and its superclasses that all types extend. -/
def firstCommon (types : List TypeId) (first : TypeId) : Nat → TypeId → Lookup TypeId
  | 0, _ => objectType
  | n + 1, c => do
    if c.isNone then
      return ← objectType
    let all := fun t => allM (isSubtype · t) types
    unless ← all c do
      return ← firstCommon types first n (← superclass c)
    if ← isObject c then
      for i in ← superInterfaces (← erasure first) do
        if ← all i then
          return i
    return c

/-- A common supertype of reference types: the first type if all others extend it, else the nearest
superclass of the first type that they extend, or an interface of the first type if that is only
`Object`. -/
def lub : List TypeId → Lookup TypeId
  | [] => return .none
  | first :: rest => do
    if ← allM (isSubtype · first) (first :: rest) then
      return first
    firstCommon (first :: rest) first walkLimit (← superclass (← erasure first))

/-- A wildcard replaced by the type that its values are known to have. -/
def upperBound (t : TypeId) : Lookup TypeId := do
  match ← shape t with
  | .composite (.wildcard b .upper) => return b
  | .composite (.wildcard ..) => objectType
  | _ => return t

end Lookup

end Javelin
