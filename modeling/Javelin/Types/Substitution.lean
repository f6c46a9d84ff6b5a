import Javelin.Types.Compose

/-!
# Substitution, erasure and capture

Members of a generic type are seen from a parameterized type with the type arguments put in place of
the variables. A composite type is rebuilt only if a component changes, so a second substitution of
the same kind leaves everything as it is.
-/

namespace Javelin

/-- What is put in place of type variables; the first entry of a variable counts. -/
structure Substitution where
  vars : List TypeId := []
  args : List TypeId := []
deriving Inhabited

def Substitution.isEmpty (s : Substitution) : Bool := s.vars.isEmpty

namespace Lookup

/-- The types after a change of each, and whether any of them changed. -/
def changeAll (f : TypeId → Lookup TypeId) (ts : List TypeId) : Lookup (List TypeId × Bool) := do
  let new ← ts.mapM f
  return (new, new != (← ts.mapM follow))

/-- The argument for a variable. -/
def argFor (v : TypeId) : List TypeId → List TypeId → Lookup (Option TypeId)
  | u :: us, a :: as => do if (← follow u) == v then return some a else argFor v us as
  | _, _ => return none

/-- Applies a substitution to a type nested at most `n` deep. -/
def substituteIn (s : Substitution) : Nat → TypeId → Lookup TypeId
  | 0, t => return t
  | n + 1, t => do
    if s.isEmpty || t.isNone then
      return t
    let id ← follow t
    match (← entry id).shape with
    | .absent => return t
    | .variable _ => return (← argFor id s.vars s.args).getD id
    | .composite (.parameterized g args outer degraded) =>
      let (args, changed) ← changeAll (substituteIn s n) args
      let (outer, outerChanged) ← if outer.isSome then
          let o ← substituteIn s n outer
          pure (o, o != (← follow outer))
        else pure (outer, false)
      if changed || outerChanged then parameterizeAs g args outer degraded else return id
    | .composite (.array elem dims) =>
      let e ← substituteIn s n elem
      if e == (← follow elem) then return id else array e dims
    | .composite (.wildcard bound kind) =>
      if bound.isNone then
        return id
      let b ← substituteIn s n bound
      if b == (← follow bound) then return id else wildcard b kind
    | .composite (.intersection bounds) =>
      let (bounds, changed) ← changeAll (substituteIn s n) bounds
      if changed then intersection bounds else return id
    | _ => return id

/-- The type with the variables of a substitution replaced. -/
def substitute (s : Substitution) (t : TypeId) : Lookup TypeId := do
  substituteIn s ((← get).types.size + 1) t

def substituteAll (s : Substitution) (ts : List TypeId) : Lookup (List TypeId) :=
  if s.isEmpty then return ts else ts.mapM (substitute s)

variable [Answers]

/-! ## Erasure -/

/-- The erasure of a type: arguments are dropped and a variable becomes its first bound. -/
def erasureRule (t : TypeId) : Lookup TypeId := do
  let (id, s) ← view t
  match s with
  | .absent => return .none
  | .composite (.parameterized g ..) | .composite (.raw g) => resolve g
  | .composite (.wildcard b .upper) => erasure b
  | .composite (.wildcard ..) => objectType
  | .composite (.array e n) => do array (← erasure e) n
  | s =>
    match s.bounds? with
    | some (b :: _) => erasure b
    | some [] => objectType
    | none => return id

/-- The declaration behind a parameterized or raw type; other types are their own. -/
def declaration (t : TypeId) : Lookup TypeId := do
  let (id, s) ← view t
  match s with
  | .absent => return .none
  | .composite (.parameterized g ..) | .composite (.raw g) => resolve g
  | _ => return id

/-- What the declaration behind a type is. -/
def declarationShape (t : TypeId) : Lookup Shape := do shape (← declaration t)

/-- The arguments, the enclosing type and whether the number of arguments is wrong, as they stand
in the row of a parameterized type. -/
def parts (t : TypeId) : Lookup (List TypeId × TypeId × Bool) := do
  match (← entry t).shape with
  | .composite (.parameterized _ args outer degraded) => return (args, outer, degraded)
  | _ => return ([], .none, false)

/-- The substitution from a type and the types that enclose it, at most `n` of them. -/
def substitutionIn (s : Substitution) : Nat → TypeId → Lookup Substitution
  | 0, _ => return s
  | n + 1, t => do
    let (id, sh) ← view t
    match sh with
    | .composite (.parameterized g ..) =>
      let vars := (← shape g).typeVars
      let (args, outer, _) ← parts id
      let k := min vars.length args.length
      substitutionIn ⟨s.vars ++ vars.take k, s.args ++ args.take k⟩ n outer
    | .composite (.raw g) =>
      let vars := (← shape g).typeVars
      return ⟨s.vars ++ vars, s.args ++ (← vars.mapM erasure)⟩
    | _ => return s

/-- What a parameterized type puts in place of the variables of its declaration and of the types
that enclose it. A raw type puts their erasures there. -/
def substitutionOf (t : TypeId) : Lookup Substitution := do
  substitutionIn {} (← get).types.size t

/-! ## Capture -/

/-- A fresh variable for a wildcard argument. -/
def captureOf (generic : TypeId) (rank : Nat) (bound : TypeId) (kind : WildcardKind) :
    Lookup TypeId := do
  let n := (← get).types.size
  addType <| .captured
    { name := "capture#" ++ Text.ofNat n, rank, declaringType := generic
      bounds := if kind == .upper then [bound] else []
      lower := if kind == .lower then bound else .none }

/-- Adds the declared bounds of the variable that a captured argument stands for. -/
def addDeclaredBounds (s : Substitution) (captured declared : TypeId) : Lookup Unit := do
  for b in ((← shape declared).bounds?).getD [] do
    let b ← substitute s b
    let known := ((← entry captured).shape.bounds?).getD []
    if b != (← objectType) && !known.contains b then
      modifyVariable captured fun v => { v with bounds := v.bounds ++ [b] }

/-- Replaces wildcard arguments by fresh variables whose bounds combine the bound of the wildcard
and the declared bounds. -/
def capture (t : TypeId) : Lookup TypeId := do
  let (id, s) ← view t
  match s with
  | .composite (.parameterized g args ..) =>
    let wild ← args.mapM fun a => return (← shape a).isWildcard
    unless wild.contains true do
      return t
    let (gid, _) ← view g
    ensureSupertypes gid
    let vars := (← shape gid).typeVars
    let mut out : List TypeId := []
    let mut captured : List (TypeId × Nat) := []
    for (a, i) in args.zipIdx do
      match ← shape a with
      | .composite (.wildcard bound kind) =>
        let c ← captureOf gid i bound kind
        out := out ++ [c]
        captured := captured ++ [(c, i)]
      | _ => out := out ++ [← resolve a]
    let sub : Substitution := ⟨vars, out⟩
    for (c, i) in captured do
      if let some v := vars[i]? then
        addDeclaredBounds sub c v
    let (_, outer, degraded) ← parts id
    parameterizeAs g out outer degraded
  | _ => return t

end Lookup

end Javelin
