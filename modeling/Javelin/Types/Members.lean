import Javelin.Types.Subtyping

/-!
# Members

Member types, fields and methods of a type, declared or inherited, with the type arguments of the
type put in place, and which of them are visible from where.
-/

namespace Javelin.Lookup

variable [Answers]

/-! ## Member types -/

/-- A member type of a type or of a supertype that was not seen yet, and all types seen then. -/
def memberTypeFrom (name : Text) : Nat → List TypeId → TypeId → Lookup (TypeId × List TypeId)
  | 0, seen, _ => return (.none, seen)
  | n + 1, seen, t => do
    let id ← declaration t
    let .declared d ← shape id | return (.none, seen)
    if seen.contains id then
      return (.none, seen)
    let seen := id :: seen
    if !d.isSource && !d.isMissing then
      ensureMembers id
    for m in (← shape id).declaredD.memberTypes do
      let (mid, ms) ← view m
      if !ms.isAbsent && ms.name == name then
        return (mid, seen)
    if (← shape id).declaredD.progress.inSupertypes then
      return (.none, seen)
    ensureSupertypes id
    let up := (← shape id).declaredD.superclass
    let (found, seen) ← if up.isSome then memberTypeFrom name n seen up else pure (.none, seen)
    if found.isSome then
      return (found, seen)
    let mut seen := seen
    for i in (← shape id).declaredD.interfaces do
      let (found, s) ← memberTypeFrom name n seen i
      if found.isSome then
        return (found, s)
      seen := s
    return (.none, seen)

/-- The member type of a simple name, declared in a type or inherited. -/
def memberTypeRule (t : TypeId) (name : Text) : Lookup TypeId := do
  return (← memberTypeFrom name walkLimit [] t).1

/-! ## Fields -/

/-- The length of arrays, a field of no type. -/
def arrayLength : Lookup FieldId := do
  let known := (← get).arrayLength
  if known.isSome then
    return known
  let f ← addField
    { name := "length", traits := Traits.public.union .final, type := base .int
      constant := .known none }
  modify fun w => { w with arrayLength := f }
  return f

def isArrayLength (f : FieldId) : Lookup Bool := do
  let known := (← get).arrayLength
  return known.isSome && known == f

/-- A field as seen from an instance of its type. -/
def fieldOf (receiver : TypeId) (f : FieldId) : Lookup FieldId := do
  let s ← substitutionOf receiver
  let e ← fieldEntry f
  if s.isEmpty || e.isStatic then
    return f
  if let some g := (← get).fieldCopies[(receiver, f)]? then
    return g
  let type ← substitute s e.type
  let g ← if type == e.type then pure f else addField { e with type, root := f }
  modify fun w => { w with fieldCopies := w.fieldCopies.insert (receiver, f) g }
  return g

/-- A field of a type or of a supertype that was not seen yet, and all types seen then. -/
def findFieldFrom (name : Text) : Nat → List TypeId → TypeId → Lookup (FieldId × List TypeId)
  | 0, seen, _ => return (.none, seen)
  | n + 1, seen, t => do
    let (id, s) ← view t
    if s.isAbsent || seen.contains id then
      return (.none, seen)
    let seen := id :: seen
    if s.isArray then
      if name == "length" then
        return (← arrayLength, seen)
      return ← findFieldFrom name n seen (← objectType)
    if let some bounds := s.bounds? then
      let (found, seen) ← firstIn n seen bounds
      if found.isSome then
        return (found, seen)
      return ← findFieldFrom name n seen (← objectType)
    let decl ← declaration id
    ensureMembers decl
    for f in (← shape decl).declaredD.fields do
      if (← fieldEntry f).name == name then
        return (← fieldOf id f, seen)
    let up ← superclass id
    let (found, seen) ← if up.isSome then findFieldFrom name n seen up else pure (.none, seen)
    if found.isSome then
      return (found, seen)
    firstIn n seen (← superInterfaces id)
termination_by n => 2 * n
decreasing_by all_goals omega
where
  /-- The first field of the name in some of the types. -/
  firstIn (n : Nat) (seen : List TypeId) (ts : List TypeId) : Lookup (FieldId × List TypeId) := do
    let mut seen := seen
    for t in ts do
      let (found, s) ← findFieldFrom name n seen t
      if found.isSome then
        return (found, s)
      seen := s
    return (.none, seen)
  termination_by 2 * n + 1
  decreasing_by omega

/-- The field of a name, in a type or its supertypes. -/
def findField (t : TypeId) (name : Text) : Lookup FieldId := do
  return (← findFieldFrom name walkLimit [] t).1

/-! ## Methods -/

/-- A method with its types substituted. -/
def instantiate (s : Substitution) (m : MethodEntry) : Lookup MethodEntry := do
  let params ← substituteAll s m.params
  let result ← substitute s m.result
  let throws ← substituteAll s m.throws
  return { m with params, result, throws }

/-- A method as seen from an instance of its type. -/
def methodOf (receiver : TypeId) (m : MethodId) : Lookup MethodId := do
  let s ← substitutionOf receiver
  if s.isEmpty then
    return m
  if let some k := (← get).methodCopies[(receiver, m)]? then
    return k
  let k ← addMethod (← instantiate s (← methodEntry m))
  modify fun w => { w with methodCopies := w.methodCopies.insert (receiver, m) k }
  return k

/-- Whether two lists of types have the same erasures. -/
def sameErasures (as bs : List TypeId) : Lookup Bool :=
  if as.length != bs.length then return false
  else allM (fun (a, b) => do return (← erasure a) == (← erasure b)) (as.zip bs)

/-- The public copy that the method `clone` of an array makes. -/
def arrayClone (array : TypeId) : Lookup MethodId := do
  if let some m := (← get).arrayClones[array]? then
    return m
  let m ← addMethod
    { name := "clone", declaring := ← objectType, traits := .public, result := array }
  modify fun w => { w with arrayClones := w.arrayClones.insert array m }
  return m

/-- Whether a method is hidden by one of those already found. -/
def isOverridden (m : MethodId) : List MethodId → Lookup Bool
  | [] => return false
  | x :: xs => do
    let (e, f) := (← methodEntry x, ← methodEntry m)
    if ← sameErasures e.params f.params then
      return !e.isAbstract || f.isAbstract
    isOverridden m xs

/-- The methods found and the types seen by a walk. -/
structure MethodWalk where
  found : List MethodId := []
  seen : List TypeId := []

/-- Adds the methods of a type and its supertypes. -/
def methodsFrom (name : Text) : Nat → Bool → MethodWalk → TypeId → Lookup MethodWalk
  | 0, _, w, _ => return w
  | n + 1, isFirst, w, t => do
    let (id, s) ← view t
    if s.isAbsent || w.seen.contains id then
      return w
    let mut w := { w with seen := id :: w.seen }
    match s with
    | .composite (.array ..) =>
      if name == "clone" then
        return { w with found := w.found ++ [← arrayClone id] }
      methodsFrom name n false w (← objectType)
    | .base _ | .null | .composite (.wildcard ..) => return w
    | _ =>
    if let some bounds := s.bounds? then
      for b in bounds do
        w ← methodsFrom name n false w b
      return ← methodsFrom name n false w (← objectType)
    let decl ← declaration id
    ensureMembers decl
    for m in (← shape decl).declaredD.methods do
      let e ← methodEntry m
      if e.name == name && (isFirst || !e.isConstructor) then
        let m ← methodOf id m
        unless ← isOverridden m w.found do
          w := { w with found := w.found ++ [m] }
    if name == "<init>" then
      return w
    let up ← superclass id
    if up.isSome then
      w ← methodsFrom name n false w up
    for i in ← superInterfaces id do
      w ← methodsFrom name n false w i
    if (← shape decl).isInterface then
      w ← methodsFrom name n false w (← objectType)
    return w

/-- The methods of a name that are members of a type: declared, or inherited and not overridden.
Constructors are not inherited. -/
def methods (t : TypeId) (name : Text) : Lookup (List MethodId) := do
  return (← methodsFrom name walkLimit true {} t).found

def hasMethodNamed (t : TypeId) (name : Text) : Lookup Bool := do
  return !(← methods t name).isEmpty

/-- The method of a name whose parameters have the same erasures as the given types, in the nearest
superclass that has one. -/
def exactMethod (t : TypeId) (name : Text) (args : List TypeId) :
    Lookup (Except Problem.Id MethodId) := do
  go walkLimit (← resolve t)
where
  /-- Searches a class and its superclasses. -/
  go : Nat → TypeId → Lookup (Except Problem.Id MethodId)
    | 0, _ => return .error .undefinedMethod
    | n + 1, c => do
      if c.isNone then
        return .error .undefinedMethod
      let decl ← declaration c
      ensureMembers decl
      let mut found : MethodId := .none
      for m in (← shape decl).declaredD.methods do
        let e ← methodEntry m
        if ← andAlso (pure (e.name == name)) (sameErasures e.params args) then
          if found.isSome then
            return .error .ambiguousMethod
          found := m
      if found.isSome then
        return .ok (← methodOf c found)
      if name == "<init>" then
        return .error .undefinedMethod
      go n (← superclass c)

/-! ## Visibility -/

/-- The top-level type around a type; it goes outward at most `n` steps. -/
def outermostIn : Nat → TypeId → Lookup TypeId
  | 0, t => declaration t
  | n + 1, t => do
    let d := (← declarationShape t).declaredD
    if d.enclosing.isNone then declaration t else outermostIn n d.enclosing

def outermost (t : TypeId) : Lookup TypeId := do outermostIn (← get).types.size t

/-- Whether a class or one of the classes around it inherits from a type; it goes outward at most
`n` steps. -/
def inheritsAround (decl : TypeId) : Nat → TypeId → Lookup Bool
  | 0, _ => return false
  | n + 1, c => do
    if c.isNone then
      return false
    if (← asSuper c decl).isSome then
      return true
    inheritsAround decl n (← shape c).declaredD.enclosing

/-- Whether a member with the given traits, declared in a type, is visible from another type. -/
def isVisible (traits : Traits) (declaring place : TypeId) : Lookup Bool := do
  let (did, d) ← view (← declaration declaring)
  let (pid, p) ← view (← declaration place)
  if d.isAbsent || p.isAbsent || d.isMissing then
    return true
  if traits.has .public then
    return true
  if traits.has .private then
    return (← outermost declaring) == (← outermost place)
  if d.declaredD.package == p.declaredD.package then
    return true
  if traits.has .protected then
    return ← inheritsAround did (← get).types.size pid
  return false

/-- Whether a type can be named from another type. -/
def isTypeVisible (t place : TypeId) : Lookup Bool := do
  let s ← declarationShape t
  if !s.isDeclared || place.isNone then
    return true
  let d := s.declaredD
  if d.enclosing.isNone then
    let p ← shape place
    return d.traits.has .public || p.isAbsent || p.declaredD.package == d.package
  isVisible d.traits d.enclosing place

end Javelin.Lookup
