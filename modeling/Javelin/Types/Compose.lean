import Javelin.Types.Query

/-!
# Composite types and placeholders

The same components always give the same composite type, so types can be compared by number. A class
file names many types that nobody asks for; such a name is a placeholder until its first use. When
it is looked up, the placeholder is redirected to the type found, and everything that mentions the
placeholder is updated. An updated composite type may turn out equal to another one and is then
redirected to it.

1. Redirections.
2. Composite types.
3. Placeholders and what mentions them.
4. `Lookup.resolve`, the type behind a number.
-/

namespace Javelin.Lookup

/-! ## Redirections -/

/-- Follows at most the given number of redirections. -/
def followIn (redirects : Std.HashMap TypeId TypeId) : Nat → TypeId → TypeId
  | 0, t => t
  | n + 1, t =>
    match redirects[t]? with
    | some u => followIn redirects n u
    | none => t

/-- The end of the redirections from a type; it looks no placeholder up. -/
def follow (t : TypeId) : Lookup TypeId := do
  let w ← get
  return followIn w.redirects w.redirects.size t

/-- What the type at the end of the redirections is. -/
def rawShape (t : TypeId) : Lookup Shape := do return (← entry (← follow t)).shape

/-- Whether a type is a placeholder or mentions one. -/
def isPending (t : TypeId) : Lookup Bool := do
  let e ← entry (← follow t)
  return e.isPending || match e.shape with
    | .unresolved _ isResolved => !isResolved
    | _ => false

/-! ## Composite types -/

/-- Notes that something mentions a type. -/
def addMention (t : TypeId) (m : Mention) : Lookup Unit := do
  modifyEntry (← follow t) fun e =>
    if e.mentions.contains m then e else { e with mentions := e.mentions ++ [m] }

/-- The composite type with the given components, made at its first use. -/
def intern (c : Composite) : Lookup TypeId := do
  if let some t := (← get).composites[c]? then
    return ← follow t
  let t ← addType (.composite c)
  modify fun w => { w with composites := w.composites.insert c t }
  for part in c.components do
    if ← isPending part then
      modifyEntry t fun e => { e with isPending := true }
      addMention part (.type t)
  return t

/-- An array type. Arrays of arrays are flattened. -/
def array (elem : TypeId) (dims : Nat) : Lookup TypeId := do
  let elem ← follow elem
  if dims == 0 || elem.isNone then
    return elem
  match ← rawShape elem with
  | .composite (.array e n) => intern (.array e (dims + n))
  | _ => intern (.array elem dims)

def parameterizeAs (generic : TypeId) (args : List TypeId) (outer : TypeId) (degraded : Bool) :
    Lookup TypeId := do
  intern (.parameterized (← follow generic) (← args.mapM follow) (← follow outer) degraded)

/-- A generic type with type arguments and possibly a parameterized enclosing type. -/
def parameterize (generic : TypeId) (args : List TypeId) (outer : TypeId) : Lookup TypeId :=
  parameterizeAs generic args outer false

/-- A generic type without arguments. -/
def rawType (generic : TypeId) : Lookup TypeId := do intern (.raw (← follow generic))

def wildcard (bound : TypeId) (kind : WildcardKind) : Lookup TypeId := do
  let bound ← follow bound
  intern (.wildcard (if kind == .unbounded then .none else bound) kind)

/-- The intersection of types; of a single type it is that type. -/
def intersection : List TypeId → Lookup TypeId
  | [t] => follow t
  | ts => do intern (.intersection (← ts.mapM follow))

def addVariable (name : Text) (rank : Nat) (ofType : TypeId) (ofMethod : MethodId) :
    Lookup TypeId :=
  addType (.variable { name, rank, declaringType := ofType, declaringMethod := ofMethod })

/-! ## Placeholders -/

/-- The internal name of a type from its parts. -/
def internalName (parts : List Text) : Text := Text.join "/" parts

/-- The type of the given name: the known one, or a placeholder. -/
def reference (parts : List Text) : Lookup TypeId := do
  let name := internalName parts
  if let some t := (← get).byBinaryName[name]? then
    return ← follow t
  if let some t := (← get).placeholders[name]? then
    return ← follow t
  let t ← addType (.unresolved parts false)
  modify fun w => { w with placeholders := w.placeholders.insert name t }
  return t

/-- Notes a member at all the placeholders that its types mention. -/
def noteMember (m : Mention) (types : List TypeId) : Lookup Unit :=
  types.forM fun t => do if ← isPending t then addMention t m

/-- The type that stands for a name that was not found. -/
def missing (parts : List Text) : Lookup TypeId := do
  let name := internalName parts
  if let some t := (← get).byBinaryName[name]? then
    return t
  let t ← addType <| .declared
    { origin := .missing, name := parts.getLast?.getD {}, package := Text.join "." parts.dropLast
      qualified := Text.join "." parts, binaryName := name, traits := .public
      progress := { hasSupertypes := true, hasMembers := true } }
  modify fun w => { w with byBinaryName := w.byBinaryName.insert name t }
  return t

/-- A composite type after one of its components was replaced: arrays are flattened again. -/
def flattened (c : Composite) : Lookup Composite := do
  match c with
  | .array elem n =>
    match ← rawShape elem with
    | .composite (.array e m) => return .array e (n + m)
    | _ => return c
  | _ => return c

/-- Replaces one type by another in everything that mentions the first one. -/
def replaceMentions (old new : TypeId) : Nat → Lookup Unit
  | 0 => return
  | n + 1 => do
    let ms := (← entry old).mentions
    modifyEntry old fun e => { e with mentions := [] }
    let swap := fun t => if t == old then new else t
    for m in ms do
      match m with
      | .field f => modifyField f fun e => { e with type := swap e.type }
      | .method f =>
        modifyMethod f fun e =>
          { e with params := e.params.map swap, throws := e.throws.map swap, result := swap e.result }
      | .type t =>
        match (← entry t).shape with
        | .composite c =>
          let c' ← flattened (c.map swap)
          modifyShape t fun _ => .composite c'
          if (← get).composites[c]? == some t then
            modify fun w => { w with composites := w.composites.erase c }
          match (← get).composites[c']? with
          | some known =>
            let known ← follow known
            if known != t then
              modify fun w => { w with redirects := w.redirects.insert t known }
              replaceMentions t known n
            else
              modify fun w => { w with composites := w.composites.insert c' t }
          | none => modify fun w => { w with composites := w.composites.insert c' t }
        | _ => modifyShape t (Shape.map swap)

variable [Answers]

/-- Looks a placeholder up and redirects it to the type found, or to a missing type. -/
def lookUp (t : TypeId) (parts : List Text) : Lookup Unit := do
  modifyShape t fun _ => .unresolved parts true
  let found ← match ← binaryType (internalName parts) with
    | some u => pure u
    | none => missing parts
  modify fun w => { w with redirects := w.redirects.insert t found }
  replaceMentions t found (← get).types.size

/-! ## The type behind a number -/

/-- Follows redirections and looks placeholders up, at most the given number of times. -/
def resolveIn : Nat → TypeId → Lookup TypeId
  | 0, t => return t
  | n + 1, t => do
    match (← get).redirects[t]? with
    | some u => resolveIn n u
    | none =>
      match (← entry t).shape with
      | .unresolved parts false => do lookUp t parts; resolveIn n t
      | _ => return t

/-- The type that a number stands for. -/
def resolve (t : TypeId) : Lookup TypeId := resolveIn 8 t

/-- What a type is. -/
def shape (t : TypeId) : Lookup Shape := do return (← entry (← resolve t)).shape

/-- A type and what it is. -/
def view (t : TypeId) : Lookup (TypeId × Shape) := do
  let t ← resolve t
  return (t, (← entry t).shape)

/-- The primitive type, or `undefined` for all other types. -/
def basicType (t : TypeId) : Lookup BasicType := do return (← shape t).basicType

def isVoid (t : TypeId) : Lookup Bool := do return (← basicType t) == .void

def isPrimitive (t : TypeId) : Lookup Bool := do return (← basicType t) != .undefined

/-- Whether a type is a reference type, null included. -/
def isReference (t : TypeId) : Lookup Bool := do
  let s ← shape t
  return !s.isBase && !s.isAbsent

def isMissing (t : TypeId) : Lookup Bool := do return (← shape t).isMissing

/-- The type of the elements of an array type. -/
def elementType (t : TypeId) : Lookup TypeId := do
  match ← shape t with
  | .composite (.array e n) => array e (n - 1)
  | _ => return .none

/-! ## Types by name -/

/-- The type of a dotted name; member types are found through the types that enclose them. -/
def typeByName (name : Text) : Lookup (Option TypeId) := do
  if let some t := (← get).byName[name]? then
    return some (← resolve t)
  let parts := name.split '.'
  for k in (List.range parts.length).reverse do
    if let some top ← binaryType (internalName (parts.take (k + 1))) then
      let mut t := top
      for member in parts.drop (k + 1) do
        t ← memberType t member
        if t.isNone then
          return none
      modify fun w => { w with byName := w.byName.insert name t }
      return some t
  return none

/-- A type of the platform library, or a missing type if the library does not have it. -/
def wellKnown (name : Text) : Lookup TypeId := do
  if let some t := (← get).wellKnown[name]? then
    return t
  let t ← match ← typeByName name with
    | some t => pure t
    | none => missing (name.split '.')
  modify fun w => { w with wellKnown := w.wellKnown.insert name t }
  return t

def objectType : Lookup TypeId := wellKnown "java.lang.Object"

def stringType : Lookup TypeId := wellKnown "java.lang.String"

def isObject (t : TypeId) : Lookup Bool := do return (← resolve t) == (← objectType)

/-- Whether the dotted name is that of a known package. -/
def isPackage (name : Text) : Lookup Bool := do
  if name.isEmpty || (← get).packages.contains name then
    return true
  let parts := name.split '.'
  if (← get).names.isPackage parts.dropLast (parts.getLast?.getD {}) then
    modify fun w => { w with packages := w.packages.insert name }
    return true
  return false

end Javelin.Lookup
