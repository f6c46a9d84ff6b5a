import Javelin.Resolve.Names
import Javelin.Syntax.Node

/-!
# Invocations

Calls, class instance creations, lambdas and method references. Arguments are resolved first, except
for lambdas and method references, whose types depend on the method that is called.

1. Arguments.
2. The method an invocation calls.
3. Calls.
4. New objects.
5. Lambdas and method references.
-/

namespace Javelin

/-- How many return statements a body has, and how many of them have values, leaving out those of
lambdas and classes inside it; the body is nested at most `n` deep. -/
def Node.returnCounts : Nat → Node → Nat × Nat
  | 0, _ => (0, 0)
  | n + 1, node =>
    match node with
    | .expr (.lambda ..) | .typeDecl _ => (0, 0)
    | _ =>
      let own := match node with
        | .stmt (.return _ v) => (1, if v.isSome then 1 else 0)
        | _ => (0, 0)
      node.children.foldl
        (fun acc k => let r := returnCounts n k; (acc.1 + r.1, acc.2 + r.2)) own

/-- Whether the body of a lambda can produce a value, and whether it can end without one. -/
def lambdaShape (value : Option Expr) (block : Option Block) : Bool × Bool :=
  match value, block with
  | some x, _ =>
    match x.withoutParens with
    | .call .. | .assign .. | .newObject .. => (true, true)
    | .unary _ op .. => (true, op == .inc || op == .dec)
    | _ => (true, false)
  | none, some b =>
    let (returns, values) := Node.returnCounts 100000 (.stmt (.block b))
    if values > 0 then (true, false)
    else
      match returns, b.stmts.getLast? with
      | 0, some (.throw ..) => (true, true)
      | _, _ => (false, true)
  | none, none => (false, true)

namespace Lookup

variable [Answers]

def resolveExpr (c : Context) (s : Scope) (x : Expr) (target : TypeId) : Lookup TypeId :=
  ask (.expr c s x target)

/-! ## Arguments -/

/-- Whether the type of an argument depends on where it is passed to: diamonds and calls of generic
methods. -/
def isPoly (c : Context) (x : Expr) : Lookup Bool := do
  match x.withoutParens with
  | .newObject _ _ _ type _ body => return type.isDiamond && body.isNone
  | .call i .. =>
    let m := ((← findings c).methods[i.id]?).getD .none
    let root ← methodEntry (← methodEntry m).root
    andAlso (pure (m.isSome && !root.typeVars.isEmpty)) (isGenericType root.result)
  | _ => return false

/-- Resolves the arguments of an invocation, except lambdas and method references. -/
def resolveCallArgs (c : Context) (s : Scope) (xs : List Expr) : Lookup (List Arg) :=
  xs.mapM fun x =>
    match x.withoutParens with
    | .lambda _ params value block _ =>
      let (yields, ends) := lambdaShape value block
      return .lambda params.length yields ends
    | .methodRef .. => return .methodRef
    | _ => do
      let t ← resolveExpr c s x .none
      let t ← if ← isPoly c x then erasure t else pure t
      return .value t (← constantOf c x.info)

/-- Resolves the lambdas and method references among the arguments of an invocation that could not
be bound. -/
def resolveLeftovers (c : Context) (s : Scope) (xs : List Expr) (args : List Arg) :
    Lookup Unit := do
  for (x, a) in xs.zip args do
    if a.isFunctional then
      let _ ← resolveExpr c s x .none

/-- The types of arguments in messages. -/
def argNames (args : List Arg) : Lookup Text := do
  let names ← args.mapM fun a =>
    match a with
    | .methodRef => return "method reference"
    | .lambda .. => return "lambda"
    | .value t _ => typeName t
  return Text.join ", " names

/-! ## The method an invocation calls -/

/-- Whether an argument has no usable type, so that a problem with it was reported. -/
def isFaulty (a : Arg) : Lookup Bool :=
  match a with
  | .value t _ => orElse (pure t.isNone) (isMissing t)
  | _ => return false

/-- The method or constructor that an invocation calls, with a report if there is a problem. -/
def invoke (c : Context) (at_ : Info) (name : Text) (candidates : List MethodId) (args : List Arg)
    (receiver target place : TypeId) (isConstructor : Bool) : Lookup MethodId := do
  let (m, problem) ← findMethod candidates args place target
  match problem with
  | none =>
    let e ← methodEntry m
    checkDeprecated c at_ e.traits "method" (← methodName m) place e.declaring
    return m
  | some .notVisible =>
    report c .notVisible at_ [if isConstructor then "constructor" else "method", ← methodName m]
    return m
  | some .ambiguousMethod =>
    report c .ambiguousMethod at_ [name, ← argNames args, ← typeName receiver]
    return m
  | some _ =>
    if ← anyM isFaulty args then
      return .none
    if isConstructor then
      report c .undefinedConstructor at_ [name, ← argNames args]
    else
      report c .undefinedMethod at_ [name, ← argNames args, ← typeName receiver]
    return .none

/-- Whether arguments are passed through the variable arity parameter of a method. -/
def passesVarargs (m : MethodEntry) (args : List Arg) : Lookup Bool := do
  let n := m.params.length
  if !m.isVarargs || n == 0 then
    return false
  if args.length != n then
    return true
  match args.getLast? with
  | some (.value t _) =>
    andAlso (pure t.isSome) (notM (isCompatible t (m.params.getD (n - 1) .none)))
  | _ => return false

/-- Resolves the lambdas and method references among arguments against the parameter types, and
notes the conversions of the other arguments. -/
def checkArgs (c : Context) (s : Scope) (at_ : Info) (xs : List Expr) (args : List Arg)
    (m : MethodId) : Lookup Unit := do
  let varargs ← passesVarargs (← methodEntry m) args
  if varargs then
    modifyFindings c fun f => { f with varargs := f.varargs.insert at_.id }
  for ((x, a), i) in (xs.zip args).zipIdx do
    let p ← paramAt (← methodEntry m) varargs i
    if a.isFunctional then
      let _ ← resolveExpr c s x p
    else
      let adopts ← andAlso (isPoly c x) (andAlso (pure p.isSome) (andAlso (notM (isPrimitive p))
        do isSubtype (← typeOf c x.info) (← erasure p)))
      if adopts then setType c x.info p else coerce c x.info p

/-- Binds the arguments to the method an invocation calls, or resolves what is left of them. -/
def bindArgs (c : Context) (s : Scope) (at_ : Info) (xs : List Expr) (args : List Arg)
    (m : MethodId) : Lookup Unit := do
  if m.isSome then
    setMethod c at_ m
    checkArgs c s at_ xs args m
  else
    resolveLeftovers c s xs args

/-! ## Calls -/

/-- The candidates for an unqualified call. -/
structure Candidates where
  methods : List MethodId := []
  receiver : TypeId := .none
  /-- Whether a static context lies between the call and the type of the methods. -/
  static : Bool := false

/-- The statically imported methods of a name. -/
def importedMethods (name : Text) (owners : List TypeId) : Lookup Candidates := do
  let mut out : Candidates := {}
  for t in owners do
    for m in ← methods t name do
      if (← methodEntry m).isStatic then
        let receiver := if out.receiver.isNone then t else out.receiver
        out := { out with methods := out.methods ++ [m], receiver }
  return out

/-- The methods that an unqualified call may mean: those of the innermost class that has any, else
the statically imported ones. -/
def findCandidates (name : Text) (static : Bool) : Scope → Lookup Candidates
  | .block p _ => findCandidates name static p
  | .method p m => findCandidates name (static || (m.isStatic && !m.isLambda)) p
  | .type p t => do
    let ms ← methods t name
    unless ms.isEmpty do
      return ⟨ms, t, static⟩
    findCandidates name (static || (← shape t).traits.has .static) p
  | .unit u => do
    bindImports u
    let i := (← unitEntry u).imports
    importedMethods name (i.staticSingle.getD name [] ++ i.staticTypes)

/-- The type of classes whose instances are of the given type. -/
def classOf (arg : TypeId) : Lookup TypeId := do
  let cls ← wellKnown "java.lang.Class"
  if (← shape cls).typeVars.isEmpty then return cls else parameterize cls [arg] .none

/-- A call of one of some candidates. `isType` tells that a type stands before the dot. -/
def finishCall (c : Context) (s : Scope) (x : Info) (name : Ident) (xs : List Expr)
    (cands : Candidates) (isType : Bool) (target : TypeId) : Lookup TypeId := do
  let args ← resolveCallArgs c s xs
  let m ← invoke c name.info name.name cands.methods args cands.receiver target s.currentType false
  unless m.isSome do
    resolveLeftovers c s xs args
    return .none
  if ← andAlso (pure (isType || cands.static)) do return !(← methodEntry m).isStatic then
    report c .nonStaticFromStatic name.info ["method", ← methodName m]
  setUse c name.info (.method m)
  bindArgs c s x xs args m
  if name.name == "getClass" && xs.isEmpty && !isType then
    return ← classOf (← wildcard (← erasure cands.receiver) .upper)
  return (← methodEntry m).result

/-- The type of a call. -/
def callType (c : Context) (s : Scope) (x : Info) (receiver : Option Expr) (name : Ident)
    (xs : List Expr) (target : TypeId) : Lookup TypeId := do
  let giveUp : Lookup TypeId := do
    resolveLeftovers c s xs (← resolveCallArgs c s xs)
    return .none
  match receiver with
  | none =>
    let cands ← findCandidates name.name false s
    let receiver := if cands.receiver.isNone then s.currentType else cands.receiver
    finishCall c s x name xs { cands with receiver } false target
  | some (.super i q) =>
    let t ← resolveExpr c s (.super i q) .none
    let ms ← if t.isSome then methods t name.name else pure []
    finishCall c s x name xs { methods := ms, receiver := t } false target
  | some r =>
    let q ← ask (.qualifier c s r)
    let (t, isType) ← match q with
      | .package p => do
        report c .undefinedName r.info [p]
        pure (.none, false)
      | .type t => pure (t, true)
      | .value t => pure (t, false)
      | .error => pure (.none, false)
    if ← orElse (pure t.isNone) (isMissing t) then
      return ← giveUp
    if ← isPrimitive t then
      let args ← resolveCallArgs c s xs
      report c .undefinedMethod name.info [name.name, ← argNames args, ← typeName t]
      resolveLeftovers c s xs args
      return .none
    let ms ← methods (← capture t) name.name
    finishCall c s x name xs { methods := ms, receiver := t } isType target

/-! ## New objects -/

/-- The type arguments of a diamond, from the arguments of the constructor and then from the type
that is expected. -/
def inferDiamond (generic : TypeId) (args : List Arg) (target : TypeId) : Lookup TypeId := do
  let vars := (← shape generic).typeVars
  if vars.isEmpty then
    return generic
  let mut found : Inference := []
  for m in ← methods generic "<init>" do
    let e ← methodEntry m
    let n := e.params.length
    if n == args.length || (e.isVarargs && n ≤ args.length + 1) then
      found ← inferFromArgs e args vars found
      break
  if ← andAlso (pure target.isSome) (isReference target) then
    let self ← parameterize generic vars .none
    found ← infer self target vars found
  let targs ← vars.mapM fun v => do
    match found.lookup v with
    | none => erasure v
    | some a =>
      match ← shape a with
      | .composite (.wildcard _ .unbounded) => erasure v
      | .composite (.wildcard b _) => return b
      | _ => return a
  parameterize generic targs .none

/-- Declares the body of an anonymous class. -/
def declareAnonymous (c : Context) (s : Scope) (body : TypeDecl) (up : TypeId) :
    Lookup TypeId := do
  let t ← declareLocal c.unit body s
  completeAnonymous t up
  setLocalType c body.info t
  return t

def resolveBody (c : Context) (body : TypeDecl) : Lookup Unit := ask (.typeDecl c body)

/-- The type named in a class instance creation. -/
def createdType (c : Context) (s : Scope) (outer : Option Expr) (type : TypeNode) :
    Lookup TypeId := do
  let t ← match outer with
    | some o => do
      let o ← resolveExpr c s o .none
      if o.isNone then
        pure .none
      else do
        let t ← memberType (← declaration o) type.simpleName
        if t.isNone then
          report c .undefinedType type.info [type.simpleName]
        pure t
    | none => resolveClassType c s type type.isDiamond
  setTypeRef c type.info t
  return t

/-- Binds the constructor of a class instance creation; an interface has none. -/
def bindConstructor (c : Context) (s : Scope) (x : Info) (type : TypeNode) (t place : TypeId)
    (xs : List Expr) (args : List Arg) : Lookup Unit := do
  let d := (← declarationShape t).declaredD
  if d.traits.has .interface then
    unless xs.isEmpty do
      report c .undefinedConstructor type.info ["Object", ← argNames args]
    resolveLeftovers c s xs args
  else
    let m ← invoke c type.info d.name (← methods t "<init>") args t .none place true
    bindArgs c s x xs args m

/-- The type of a class instance creation. -/
def newObjectType (c : Context) (s : Scope) (x : Info) (outer : Option Expr) (type : TypeNode)
    (xs : List Expr) (body : Option TypeDecl) (target : TypeId) : Lookup TypeId := do
  let t ← createdType c s outer type
  let args ← resolveCallArgs c s xs
  let sh ← shape t
  if sh.isAbsent || sh.isMissing || sh.isVariable then
    if sh.isVariable then
      report c .abstractInstantiation type.info [← typeName t]
    resolveLeftovers c s xs args
    if let some b := body then
      let _ ← declareAnonymous c s b .none
      resolveBody c b
    return .none
  let decl ← declaration t
  let t ← if type.isDiamond then inferDiamond t args target else pure t
  if body.isNone && (← shape decl).traits.has (.ofList [.abstract, .enum]) then
    report c .abstractInstantiation type.info [← typeName decl]
  match body with
  | none =>
    bindConstructor c s x type t s.currentType xs args
    return t
  | some b =>
    let own ← declareAnonymous c s b t
    bindConstructor c s x type t own xs args
    resolveBody c b
    return own

/-! ## Lambdas and method references -/

/-- The method that a lambda or method reference implements, with a report if the expected type has
none. -/
def functionalTarget (c : Context) (x : Info) (target : TypeId) : Lookup MethodId := do
  if ← orElse (pure target.isNone) (isMissing target) then
    return .none
  let m ← functionalMethod target
  unless m.isSome do
    report c .notAFunctionalInterface x []
  return m

/-- Declares the parameters of a lambda; implicit types come from the method it implements. -/
def declareLambdaParams (c : Context) (s : Scope) (params : List Param)
    (expected : Option (List TypeId)) : Lookup Unit := do
  for (p, i) in params.zipIdx do
    let type ← match p.type with
      | some (.inferred _) | none =>
        match expected with
        | some ts => upperBound (ts.getD i .none)
        | none => pure .none
      | some _ => paramType c s p
    let _ ← declareInitialized c s p.name type (hasModifier p.modifiers .final) true

/-- The type of a lambda. -/
def lambdaType (c : Context) (s : Scope) (x : Info) (params : List Param) (value : Option Expr)
    (block : Option Block) (target : TypeId) : Lookup TypeId := do
  let m ← functionalTarget c x target
  let e ← methodEntry m
  let fits := m.isSome && e.params.length == params.length
  if m.isSome && !fits then
    report c .incompatibleTypes x ["lambda", ← typeName target]
  let inner ← lambdaIn s e.result
  declareLambdaParams c inner params (if fits then some e.params else none)
  let c := { c with yieldTarget := none }
  if let some b := block then
    ask (.stmt c inner (.block b))
  else if let some v := value then
    if ← orElse (pure !fits) (isVoid e.result) then
      let _ ← resolveExpr c inner v .none
    else
      let _ ← resolveExpr c inner v e.result
      coerce c v.info e.result
  unless m.isSome do
    return .none
  setMethod c x m
  return target

/-- What a method reference refers to: a type or a value of it. -/
def referenceReceiver (c : Context) (s : Scope) (x : Expr) : Lookup (TypeId × Bool) := do
  match x with
  | .typeExpr i type =>
    let t ← resolveType c s type
    setType c i t
    return (t, true)
  | .super .. => return (← resolveExpr c s x .none, false)
  | _ =>
    match ← ask (.qualifier c s x) with
    | .package p =>
      report c .undefinedName x.info [p]
      return (.none, false)
    | .type t => return (t, true)
    | .value t => return (t, false)
    | .error => return (.none, false)

/-- The method that a method reference stands for. After a type it is a static method, or an
instance method of the first argument. -/
def referencedMethod (t : TypeId) (isType : Bool) (name : Text) (args : List Arg)
    (place : TypeId) : Lookup (MethodId × Option Problem.Id) := do
  if name == "new" then
    return ← findMethod (← methods t "<init>") args place .none
  let all ← methods t name
  unless isType do
    return ← findMethod all args place .none
  let statics ← all.filterM fun m => do return (← methodEntry m).isStatic
  let instances ← all.filterM fun m => do return !(← methodEntry m).isStatic
  let (m, problem) ← findMethod statics args place .none
  if problem.isSome then
    if let first :: rest := args then
      if ← isCompatible first.type t then
        let (k, none) ← findMethod instances rest place .none | return (m, problem)
        return (k, none)
  return (m, problem)

/-- The type of a method reference. -/
def methodRefType (c : Context) (s : Scope) (x : Info) (receiver : Expr) (name : Ident)
    (target : TypeId) : Lookup TypeId := do
  let fm ← functionalTarget c x target
  let (t, isType) ← referenceReceiver c s receiver
  unless fm.isSome do
    return .none
  if ← orElse (pure t.isNone) (isMissing t) then
    return target
  if name.name == "new" && (← shape t).isArray then
    return target
  let args ← (← methodEntry fm).params.mapM fun p => do return Arg.value (← upperBound p) none
  let (m, problem) ← referencedMethod t isType name.name args s.currentType
  match problem with
  | none => pure ()
  | some .notVisible => report c .notVisible name.info ["method", ← methodName m]
  | some .ambiguousMethod =>
    report c .ambiguousMethod name.info [name.name, ← argNames args, ← typeName t]
  | some _ =>
    if name.name == "new" then
      report c .undefinedConstructor name.info [← typeName t, ← argNames args]
    else
      report c .undefinedMethod name.info [name.name, ← argNames args, ← typeName t]
    return target
  setMethod c x m
  setUse c name.info (.method m)
  return target

end Lookup

end Javelin
