import Javelin.Resolve.Basic

/-!
# Types as written

What a type node denotes. A name that denotes nothing is reported and yields a missing type.
-/

namespace Javelin

namespace TypeNode

mutual

/-- A type as it is written, without annotations. -/
def text : TypeNode → Text
  | .primitive _ b => b.name
  | .cls _ _ qualifier name args diamond =>
    let tail : Text := if diamond then "<>"
      else if args.isEmpty then {}
      else "<" ++ Text.join "," (texts args) ++ ">"
    qualifierText qualifier ++ name.name ++ tail
  | .array _ e => e.text ++ "[]"
  | .wildcard _ bound isLower => "?" ++ boundText isLower bound
  | .union _ ts => Text.join " | " (texts ts)
  | .intersection _ ts => Text.join " & " (texts ts)
  | .inferred _ => "var"

/-- The qualifier of a class type with the point behind it. -/
def qualifierText : Option TypeNode → Text
  | none => {}
  | some q => q.text ++ "."

/-- The bound of a wildcard with the word before it. -/
def boundText (isLower : Bool) : Option TypeNode → Text
  | none => {}
  | some b => (if isLower then " super " else " extends ") ++ b.text

def texts : List TypeNode → List Text
  | [] => []
  | t :: ts => t.text :: texts ts

end

/-- The class types of a qualified one, the outermost first. -/
def segmentsIn : Nat → TypeNode → List TypeNode
  | n + 1, .cls i a (some q) name args diamond =>
    segmentsIn n q ++ [.cls i a (some q) name args diamond]
  | _, t => [t]

def segments (t : TypeNode) : List TypeNode := t.segmentsIn 100000

/-- The last part of the name of a class type. -/
def simpleName : TypeNode → Text
  | .cls _ _ _ name .. => name.name
  | _ => {}

def isDiamond : TypeNode → Bool
  | .cls _ _ _ _ _ diamond => diamond
  | _ => false

def args : TypeNode → List TypeNode
  | .cls _ _ _ _ args _ => args
  | _ => []

def isInferred : TypeNode → Bool
  | .inferred _ => true
  | _ => false

def isUnion : TypeNode → Bool
  | .union .. => true
  | _ => false

end TypeNode

namespace Lookup

variable [Answers]

/-- The type arguments that are written, as reference types. -/
def resolveArgs (c : Context) (s : Scope) (args : List TypeNode) : Lookup (List TypeId) :=
  args.mapM fun a => do
    let t ← resolveType c s a
    if ← isPrimitive t then
      report c .incompatibleTypes a.info [← typeName t, "Object"]
      boxed t
    else return t

/-- A generic type with the type arguments of a segment. A wrong number of arguments is reported
and filled up with erasures. -/
def applyArgs (c : Context) (s : Scope) (generic : TypeId) (seg : TypeNode) (outer : TypeId)
    (diamond : Bool) : Lookup TypeId := do
  let g ← shape generic
  if g.isMissing || g.isVariable || diamond || seg.isDiamond then
    return generic
  if seg.args.isEmpty then
    if outer.isSome then
      return ← parameterize generic [] outer
    return ← if g.typeVars.isEmpty then pure generic else rawType generic
  let args ← resolveArgs c s seg.args
  let written := Text.join ", " (seg.args.map TypeNode.text)
  let vars := g.typeVars
  if vars.isEmpty then
    report c .nonGenericType seg.info [← typeName generic, written]
    return generic
  if vars.length != args.length then
    report c .incorrectArityForParameterizedType seg.info [← typeName generic, written]
    ensureSupertypes generic
    let rest ← (vars.drop args.length).mapM erasure
    return ← parameterizeAs generic (args.take vars.length ++ rest) outer true
  let t ← parameterize generic args outer
  modify fun w =>
    { w with boundChecks := w.boundChecks.push { context := c, node := seg.info, type := t } }
  return t

/-- The type that the first segments of a qualified name denote, and the index of the last of
them. -/
def firstSegments (s : Scope) (names : List Text) : Lookup (TypeId × Nat) := do
  let t ← lookupType (names.headD {}) s
  if t.isSome then
    return (t, 0)
  for k in (List.range names.length).drop 1 do
    if let some t ← binaryType (internalName (names.take (k + 1))) then
      return (t, k)
  return (.none, 0)

/-- The type that a class type denotes. With `diamond` the generic declaration is the answer. -/
def resolveClassType (c : Context) (s : Scope) (n : TypeNode) (diamond : Bool) :
    Lookup TypeId := do
  let segs := n.segments
  let names := segs.map TypeNode.simpleName
  let last := segs.length - 1
  let (t, start) ← firstSegments s names
  if t.isNone then
    report c .undefinedType n.info [Text.join "." names]
    return ← missing names
  let first := segs.getD start n
  let place := s.currentType
  unless ← isTypeVisible t place do
    report c .notVisible first.info ["type", ← typeName t]
  checkDeprecated c first.info (← shape t).traits "type" (← typeName t) place t
  let mut current ← applyArgs c s t first .none (diamond && start == last)
  for (seg, k) in segs.zipIdx.drop (start + 1) do
    let member ← memberType (← declaration current) (names.getD k {})
    if member.isNone then
      unless ← isMissing current do
        report c .undefinedType seg.info [Text.join "." (names.take (k + 1))]
      return ← missing (names.take (k + 1))
    let isInner := (← shape current).isParameterized && !(← shape member).traits.has .static
    current ← applyArgs c s member seg (if isInner then current else .none) (diamond && k == last)
  return current

/-- What a type node denotes. -/
def denotation (c : Context) (s : Scope) (n : TypeNode) : Lookup TypeId := do
  match n with
  | .primitive _ t => return base t
  | .array _ elem =>
    let e ← resolveType c s elem
    if ← isVoid e then return e else array e 1
  | .wildcard _ none _ => wildcard .none .unbounded
  | .wildcard _ (some b) isLower => do
    wildcard (← resolveType c s b) (if isLower then .lower else .upper)
  | .union _ ts => do lub (← ts.mapM (resolveType c s))
  | .intersection _ ts => do intersection (← ts.mapM (resolveType c s))
  | .inferred _ => return .none
  | .cls .. => resolveClassType c s n false

/-- What a type node denotes, with a record of it. -/
def typeNodeRule (c : Context) (s : Scope) (n : TypeNode) : Lookup TypeId := do
  let t ← denotation c s n
  setTypeRef c n.info t
  return t

end Lookup

end Javelin
