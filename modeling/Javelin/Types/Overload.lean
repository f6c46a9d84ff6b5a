import Javelin.Types.Members

/-!
# Overload resolution and inference

Which of several methods of one name an invocation calls. Candidates are tried in three phases:
strictly, with boxing, and with variable arity; among the applicable ones of the first phase that
has any, the most specific one is taken.

1. Arguments.
2. Inference of type arguments.
3. Functional interfaces.
4. Applicable and most specific methods.
-/

namespace Javelin

/-- An argument of an invocation. Lambdas and method references have no type of their own. -/
inductive Arg where
  | value (type : TypeId) (constant : Option Constant)
  /-- A lambda with a number of parameters; its body may yield a value, and may end without. -/
  | lambda (arity : Nat) (yields : Bool) (ends : Bool)
  | methodRef
deriving Inhabited

namespace Arg

def isFunctional : Arg → Bool
  | value .. => false
  | _ => true

/-- The type of an argument; none for lambdas and method references. -/
def type : Arg → TypeId
  | value t _ => t
  | _ => .none

end Arg

/-- The three ways to apply a method to arguments. -/
inductive Phase where
  | strict
  | loose
  | varargs
deriving DecidableEq, Inhabited, Repr

namespace Lookup

variable [Answers]

/-! ## Inference -/

/-- What a further type tells about a type variable: the first type is kept unless it does not
cover the new one. -/
def inferVariable (v actual : TypeId) (found : Inference) : Lookup Inference := do
  let actual ← if ← isPrimitive actual then boxed actual else pure actual
  match found.lookup v with
  | none => return (v, actual) :: found
  | some prev =>
    if ← isSubtype actual prev then
      return found
    if ← isSubtype prev actual then
      return (v, actual) :: found
    return (v, ← lub [prev, actual]) :: found

/-- Matches a formal type against an actual one. -/
def inferenceRule (formal actual : TypeId) (vars : List TypeId) (found : Inference) :
    Lookup Inference := do
  let (formal, actual) := (← resolve formal, ← resolve actual)
  let s ← shape formal
  if s.isAbsent || actual.isNone || (← shape actual).isNull then
    return found
  if s.isVariable && vars.contains formal then
    return ← inferVariable formal actual found
  let a ← shape actual
  match s with
  | .composite (.array ..) =>
    if a.isArray then
      ask (.inference (← elementType formal) (← elementType actual) vars found)
    else return found
  | .composite (.wildcard bound _) =>
    if bound.isNone then
      return found
    match a with
    | .composite (.wildcard b _) => ask (.inference bound b vars found)
    | _ => ask (.inference bound actual vars found)
  | .composite (.parameterized ..) =>
    let up ← asSuper actual (← declaration formal)
    if up.isNone then
      let up ← asSuper formal (← declaration actual)
      if up.isNone then
        return found
      return ← ask (.inference up actual vars found)
    unless (← shape up).isParameterized do
      return found
    let (fs, _, _) ← parts formal
    let (us, _, _) ← parts up
    let mut found := found
    for (f, u) in fs.zip us do
      found ← ask (.inference f u vars found)
    return found
  | _ => return found

def infer (formal actual : TypeId) (vars : List TypeId) (found : Inference) : Lookup Inference :=
  ask (.inference formal actual vars found)

/-- The parameter type that an argument at a position is matched against. -/
def paramFor (m : MethodEntry) (count i : Nat) (arg : TypeId) : Lookup TypeId := do
  let n := m.params.length
  let spread ← andAlso (pure (i + 1 ≥ n && m.isVarargs))
    (notM (andAlso (pure (count == n)) do return (← shape arg).isArray))
  if spread then elementType (m.params.getD (n - 1) .none)
  else return m.params.getD (min i (n - 1)) .none

/-- What the arguments tell about type variables that the parameters of a method mention. -/
def inferFromArgs (m : MethodEntry) (args : List Arg) (vars : List TypeId) (found : Inference) :
    Lookup Inference := do
  let mut found := found
  for (a, i) in args.zipIdx do
    unless a.type.isNone || a.isFunctional || m.params.isEmpty do
      found ← infer (← paramFor m args.length i a.type) a.type vars found
  return found

/-- A generic method instantiated from argument types and, for what they leave open, from the type
that the context expects. Variables that stay open become their erasures. -/
def inferMethod (m : MethodId) (args : List Arg) (target : TypeId) : Lookup MethodId := do
  let e ← methodEntry m
  if e.typeVars.isEmpty then
    return m
  let mut found ← inferFromArgs e args e.typeVars []
  if ← andAlso (pure target.isSome) (notM (isVoid e.result)) then
    found ← infer e.result target e.typeVars found
  let targs ← e.typeVars.mapM fun v =>
    match found.lookup v with
    | some a => pure a
    | none => erasure v
  if let some k := (← get).inferences[(m, targs)]? then
    return k
  let copy ← instantiate ⟨e.typeVars, targs⟩ e
  let k ← addMethod { copy with typeVars := [] }
  modify fun w => { w with inferences := w.inferences.insert (m, targs) k }
  return k

/-! ## Functional interfaces -/

/-- Methods that every object has; they do not count as abstract methods of an interface. -/
def MethodEntry.isObjectMethod (m : MethodEntry) : Bool :=
  (m.name == "equals" && m.params.length == 1) ||
    ((m.name == "hashCode" || m.name == "toString") && m.params.isEmpty)

/-- The type with wildcard arguments replaced by their bounds. -/
def withoutWildcards (t : TypeId) : Lookup TypeId := do
  let (id, s) ← view t
  match s with
  | .composite (.parameterized g ..) =>
    let vars := (← shape g).typeVars
    let (args, outer, degraded) ← parts id
    let mut changed := false
    let mut out : List TypeId := []
    for (a, i) in args.zipIdx do
      match ← shape a with
      | .composite (.wildcard b kind) =>
        changed := true
        let declared ← match vars[i]? with
          | some v => do pure ((← shape v).bounds?.getD [])
          | none => pure []
        if kind != .unbounded then
          out := out ++ [b]
        else if let some d := declared.head? then
          out := out ++ [d]
        else
          out := out ++ [← objectType]
      | _ => out := out ++ [a]
    if changed then parameterizeAs g out outer degraded else return t
  | _ => return t

/-- The method found and the types seen by a search for the one abstract method. -/
structure FunctionalWalk where
  found : MethodId := .none
  seen : List TypeId := []

/-- Adds the abstract methods of an interface and its superinterfaces; nothing if there are two. -/
def functionalFrom : Nat → FunctionalWalk → TypeId → Lookup (Option FunctionalWalk)
  | 0, w, _ => return some w
  | n + 1, w, t => do
    let id ← resolve t
    if w.seen.contains id then
      return some w
    let mut w := { w with seen := id :: w.seen }
    let decl ← declaration id
    ensureMembers decl
    for m in (← shape decl).declaredD.methods do
      let e ← methodEntry m
      if e.isAbstract && !e.isStatic && !MethodEntry.isObjectMethod e then
        let k ← methodOf id m
        if !w.found.isSome then
          w := { w with found := k }
        else
          let f ← methodEntry w.found
          let matches_ ← andAlso (pure (f.name == e.name)) do
            sameErasures f.params (← methodEntry k).params
          unless matches_ do
            return none
    for i in ← superInterfaces id do
      match ← functionalFrom n w i with
      | some v => w := v
      | none => return none
    return some w

/-- The one abstract method of a functional interface, or none. -/
def functionalMethod (t : TypeId) : Lookup MethodId := do
  if (← shape t).isAbsent then
    return .none
  let t ← withoutWildcards t
  match ← declarationShape t with
  | .declared d =>
    if !d.traits.has .interface || d.traits.has .annot then
      return .none
    match ← functionalFrom walkLimit {} t with
    | some w => return w.found
    | none => return .none
  | _ => return .none

/-! ## Applicability -/

/-- Whether a lambda or method reference fits the one method of an interface. -/
def functionFits (a : Arg) (p : TypeId) : Lookup Bool := do
  let m ← functionalMethod p
  unless m.isSome do
    return ← orElse (isMissing p) (pure p.isNone)
  let e ← methodEntry m
  let noValue ← isVoid e.result
  match a with
  | .lambda arity yields ends =>
    return e.params.length == arity && (if noValue then ends else yields)
  | _ => return true

/-- Whether an argument fits a parameter type. -/
def argFits (a : Arg) (p : TypeId) (ph : Phase) : Lookup Bool := do
  if a.isFunctional then
    return ← functionFits a p
  if a.type.isNone || p.isNone then
    return true
  unless ph == .strict do
    return ← isCompatible a.type p
  let (x, y) := (← basicType a.type, ← basicType p)
  if (x == .undefined) != (y == .undefined) then
    return false
  orElse (isSubtype a.type p) (andAlso (isAssignable a.type p none) (pure (x == .undefined)))

/-- The type of the parameter that takes the argument at a position. -/
def paramAt (m : MethodEntry) (isVarargs : Bool) (i : Nat) : Lookup TypeId :=
  let n := m.params.length
  if isVarargs && i + 1 ≥ n then elementType (m.params.getD (n - 1) .none)
  else return m.params.getD i .none

/-- The method, instantiated if it is generic, if it can be applied to the arguments. -/
def applicable (m : MethodId) (args : List Arg) (ph : Phase) (target : TypeId) :
    Lookup (Option MethodId) := do
  let e ← methodEntry m
  let n := e.params.length
  let countFits :=
    if ph == .varargs then e.isVarargs && n ≤ args.length + 1 else args.length == n
  unless countFits do
    return none
  let m ← if e.typeVars.isEmpty then pure m else inferMethod m args target
  let e ← methodEntry m
  let fits ← allM (fun (a, i) => do argFits a (← paramAt e (ph == .varargs) i) ph) args.zipIdx
  return if fits then some m else none

/-- Whether a method is at least as specific as another one for `n` arguments. -/
def isMoreSpecific (m k : MethodId) (isVarargs : Bool) (n : Nat) : Lookup Bool := do
  let (a, b) := (← methodEntry m, ← methodEntry k)
  let count := if isVarargs then max n (max a.params.length b.params.length) else a.params.length
  allM (fun i => do isSubtype (← paramAt a isVarargs i) (← paramAt b isVarargs i))
    (List.range count)

/-- The most specific of the applicable methods, or the first one with the problem that none is. -/
def mostSpecific (ms : List MethodId) (isVarargs : Bool) (n : Nat) :
    Lookup (MethodId × Option Problem.Id) := do
  let maximal ← ms.filterM fun m =>
    allM (fun k => if k == m then return true else isMoreSpecific m k isVarargs n) ms
  match maximal with
  | [] => return (ms.headD .none, some .ambiguousMethod)
  | [m] => return (m, none)
  | first :: rest =>
    for m in maximal do
      unless (← methodEntry m).isAbstract do
        return (m, none)
    let e ← methodEntry first
    for m in rest do
      unless ← sameErasures (← methodEntry m).params e.params do
        return (first, some .ambiguousMethod)
    return (first, none)

def phases : List Phase := [.strict, .loose, .varargs]

/-- The method that an invocation from a place calls, or the problem with it: there is none, it is
not visible, or there are several. -/
def findMethod (candidates : List MethodId) (args : List Arg) (place target : TypeId) :
    Lookup (MethodId × Option Problem.Id) := do
  let visible ← candidates.filterM fun m => do
    let e ← methodEntry m
    isVisible e.traits e.declaring place
  for ph in phases do
    let fitting ← visible.filterMapM fun m => applicable m args ph target
    unless fitting.isEmpty do
      return ← mostSpecific fitting (ph == .varargs) args.length
  if visible.length < candidates.length then
    for m in candidates do
      for ph in phases do
        if (← applicable m args ph target).isSome then
          return (m, some .notVisible)
  return (.none, some .undefinedMethod)

end Lookup

end Javelin
