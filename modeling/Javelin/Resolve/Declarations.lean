import Javelin.Resolve.Statements

/-!
# Bodies of types

The bodies of a type are resolved member by member. An abort inside a member gives up that member
only. The value of a constant field is found ahead of time, by quiet work that leaves no other
trace.
-/

namespace Javelin

/-- Whether a body starts with a call of another constructor. -/
def Block.startsWithConstructorCall (b : Block) : Bool :=
  match b.stmts with
  | .constructorCall .. :: _ => true
  | _ => false

/-- Whether an expression has only forms that a constant expression may have, for expressions nested
at most `n` deep. -/
def Expr.isConstantFormIn : Nat → Expr → Bool
  | 0, _ => false
  | n + 1, x =>
    match x with
    | .literal _ kind _ => kind != .null
    | .name .. => true
    | .field _ target _ =>
      match target with
      | .name .. | .field .. => target.isConstantFormIn n
      | _ => false
    | .paren _ y => y.isConstantFormIn n
    | .unary _ op y _ => op != .inc && op != .dec && y.isConstantFormIn n
    | .binary _ _ y z => y.isConstantFormIn n && z.isConstantFormIn n
    | .conditional _ y z w => y.isConstantFormIn n && z.isConstantFormIn n && w.isConstantFormIn n
    | .cast _ _ y => y.isConstantFormIn n
    | _ => false

def Expr.isConstantForm (x : Expr) : Bool := x.isConstantFormIn 1000000

namespace Lookup

/-! ## Aborts -/

/-- Does some work and stops aborts of at most a level; the abort that was stopped. -/
def catching (level : AbortLevel) (work : Lookup Unit) : Lookup (Option Abort) := fun w =>
  match work w with
  | .ok _ w => .ok none w
  | .error a w => if a.level.rank ≤ level.rank then .ok (some a) w else .error a w

/-- Resolves one member. If it is given up, it is marked and the work around it goes on. -/
def guardMember (c : Context) (member : Info) (work : Lookup Unit) : Lookup Unit := do
  let saved := (← get).yields
  if (← catching .method work).isSome then
    modify fun w => { w with yields := saved }
    modifyFindings c fun f =>
      { f with erroneous := f.erroneous.insert member.id
               aborted := f.aborted.insert member.id }

variable [Answers]

/-- Resolves a nested type. If it is given up, it is marked and the work around it goes on. -/
def resolveNested (c : Context) (d : TypeDecl) : Lookup Unit := do
  if (← catching .type (resolveBody c d)).isSome then
    modifyFindings c fun f => { f with aborted := f.aborted.insert d.info.id }

/-! ## Members -/

/-- Binds the constructor of the superclass that is called implicitly. -/
def bindImplicitSuper (c : Context) (t : TypeId) (key name : Info) : Lookup Unit := do
  let d := (← entry t).shape.declaredD
  if d.kind != .cls || d.superclass.isNone then
    return
  if ← isMissing d.superclass then
    return
  let (m, problem) ← findMethod (← methods d.superclass "<init>") [] t .none
  match problem with
  | none => setMethod c key m
  | some .notVisible => report c .notVisible name ["constructor", ← methodName m]
  | some _ =>
    report c .undefinedConstructor name [(← declarationShape d.superclass).name, {}]

def resolveConstant (c : Context) (t : TypeId) (s : Scope) (k : EnumConstant) : Lookup Unit := do
  let d := (← entry t).shape.declaredD
  for f in d.fields do
    if (← fieldEntry f).name == k.name.name then
      setDef c k.name.info (.field f)
      break
  let inner ← methodIn s { isStatic := true }
  let args ← resolveCallArgs c inner k.args
  let place ← match k.body with
    | some b => declareAnonymous c inner b t
    | none => pure t
  let m ← invoke c k.name.info d.name (← methods t "<init>") args t .none place true
  bindArgs c inner k.info k.args args m
  if let some b := k.body then
    resolveBody c b

def resolveField (c : Context) (s : Scope) (v : VarDeclarator) : Lookup Unit := do
  let some f := (← get).fieldOfDecl[v.info.id]? | return
  setDef c v.name.info (.field f)
  if let some x := v.init then
    guardMember c v.info do
      let e ← fieldEntry f
      let inner ← methodIn s { isStatic := e.isStatic }
      ask (.initializer { c with member := some v.info.id } inner x e.type)

def resolveMethodBody (c : Context) (t : TypeId) (s : Scope) (d : MethodDecl) : Lookup Unit := do
  let some m := (← get).methodOfDecl[d.info.id]? | return
  setDef c d.name.info (.method m)
  let e ← methodEntry m
  let inner ← methodIn s
    { method := m, isStatic := e.isStatic, typeVars := e.typeVars, result := e.result }
  let owner := ((← entry t).shape.declaredD.decl?.map (·.components)).getD []
  for (p, i) in (if d.isCompact then owner else d.params).zipIdx do
    let _ ← declareInitialized c inner p.name ((← methodEntry m).params.getD i .none)
      (hasModifier p.modifiers .final) true
  if let some x := d.default then
    let _ ← resolveExpr c inner x e.result
  if let some b := d.body then
    if e.isConstructor && !b.startsWithConstructorCall then
      bindImplicitSuper c t d.info d.name.info
    resolveBlock c inner b

/-- Binds the call of the superclass in the constructor that the compiler supplies. -/
def resolveDefaultConstructor (c : Context) (t : TypeId) (d : TypeDecl) : Lookup Unit := do
  let some name := d.name | return
  if d.isAnonymous || (d.members.filterMap Member.method?).any (·.isConstructor) then
    return
  bindImplicitSuper c t d.info name.info

/-- Resolves one member of a type. -/
def resolveMember (c : Context) (t : TypeId) (s : Scope) (m : Member) : Lookup Unit := do
  let inside := { c with member := some m.info.id }
  match m with
  | .field d => d.vars.forM (resolveField c s)
  | .method d => guardMember c d.info (resolveMethodBody inside t s d)
  | .initializer i isStatic body =>
    guardMember c i do resolveBlock inside (← methodIn s { isStatic }) body
  | .type d => resolveNested c d

/-- Resolves the bodies of a type declaration. -/
def typeDeclRule (c : Context) (d : TypeDecl) : Lookup Unit := do
  let some t := (← get).typeOfDecl[d.info.id]? | return
  let c := { c with yieldTarget := none }
  ensureMembers t
  let s ← declScope t
  if let some name := d.name then
    setDef c name.info (.type t)
  for k in d.constants do
    guardMember c k.info (resolveConstant { c with member := some k.info.id } t s k)
  d.members.forM (resolveMember c t s)
  guardMember c d.info (resolveDefaultConstructor { c with member := some d.info.id } t d)

/-! ## Constant fields -/

/-- Does quiet work with findings of its own and drops them. -/
def onTrial {α : Type} (work : Lookup α) : Lookup α := do
  modify fun w => { w with trials := {} :: w.trials }
  let drop : Lookup Unit := modify fun w => { w with trials := w.trials.tail }
  tryCatch (do let a ← work; drop; return a) fun e => do drop; throw e

/-- The value of the initializer of a field. -/
def evaluateField (f : FieldEntry) (init : Expr) : Lookup (Option Constant) := do
  let p ← basicType f.type
  if p == .undefined && (← resolve f.type) != (← stringType) then
    return none
  let (t, d) ← view f.declaring
  let unit := match d.declaredD.origin with
    | .source u _ => u
    | _ => {}
  let c : Context := { unit, isQuiet := true }
  onTrial do
    let s ← methodIn (← declScope t) { isStatic := f.isStatic }
    let found ← resolveExpr c s init f.type
    let some v ← constantOf c init.info | return none
    unless ← isAssignable found f.type (some v) do
      return none
    return if p == .undefined then (if v.type == .string then some v else none) else v.castTo p

/-- The value of a constant field, found at its first use. A field whose initializer needs its own
value has none. -/
def constantRule (id : FieldId) : Lookup (Option Constant) := do
  let f ← fieldEntry id
  if f.root.isSome && f.root != id then
    return ← fieldConstant f.root
  match f.constant with
  | .evaluating => return none
  | .known v => return v
  | .unknown =>
    modifyField id fun e => { e with constant := .evaluating }
    let v ← match f.decl.bind (·.init) with
      | some x => if x.isConstantForm then evaluateField f x else pure none
      | none => pure none
    modifyField id fun e => { e with constant := .known v }
    return v

/-! ## All expressions -/

/-- How deeply expressions of a member may be nested. -/
def maxDepth : Nat := 1000

/-- The type of an expression by its form. -/
def exprType (c : Context) (s : Scope) (x : Expr) (target : TypeId) : Lookup TypeId := do
  match x with
  | .literal i kind raw => resolveLiteral c i kind raw
  | .name i name => nameType c s i name
  | .field i t name => fieldType c s i t name
  | .call i receiver _ name args => callType c s i receiver name args target
  | .newObject i outer _ type args body => newObjectType c s i outer type args body target
  | .newArray _ elem dims extra init => resolveNewArray c s elem dims extra init
  | .arrayInit i elems =>
    resolveArrayInit c s i elems target
    typeOf c i
  | .index _ array index => resolveArrayAccess c s array index
  | .unary i op y _ => resolveUnary c s i op y
  | .binary i op l r => resolveBinary c s i op l r
  | .assign i op t value => resolveAssign c s i op t value
  | .conditional i cond yes no => resolveConditional c s i cond yes no target
  | .cast i type y => resolveCast c s i type y
  | .instanceOf i y type pattern => resolveInstanceOf c s i y type pattern
  | .this i q => thisType c s i q
  | .super i q => superType c s i q
  | .classLit _ type => classLitType c s type
  | .lambda i params value block _ => lambdaType c s i params value block target
  | .methodRef i receiver _ name => methodRefType c s i receiver name target
  | .switch _ selector cases => resolveSwitch c s selector cases target
  | .paren i y =>
    let t ← resolveExpr c s y target
    if let some v ← constantOf c y.info then
      setConstant c i v
    return t
  | .typePattern .. | .recordPattern .. => ask (.pattern c s x .none)
  | .typeExpr _ type => resolveType c s type
  | .bad _ | .annot _ => return .none

/-- The type of an expression, with a record of it. An expression that is nested too deeply gives up
the member it lies in. -/
def exprRule (c : Context) (s : Scope) (x : Expr) (target : TypeId) : Lookup TypeId := do
  let c := { c with depth := c.depth + 1 }
  if c.depth > maxDepth then
    report c .expressionTooComplex x.info []
    throw ⟨.method, {}, "expression nested deeper than " ++ Text.ofNat maxDepth⟩
  let t ← exprType c s x target
  setType c x.info t
  return t

end Lookup

end Javelin

/-!
## Closing the circle

The rules answer each question in terms of further questions. `answer` ties them together by
recursion on a number of steps; the limit is far beyond what the limits on nesting allow.
-/

namespace Javelin

open Lookup in
/-- The answer to a question if it takes at most the given number of steps. -/
def answer : Nat → {α : Type} → Query α → Lookup α
  | 0, _, _ => throw ⟨.compilation, {}, "too many questions"⟩
  | n + 1, _, q =>
    letI : Answers := ⟨answer n⟩
    match q with
    | .binaryType name => binaryTypeRule name
    | .supertypes t => supertypesRule t
    | .members t => membersRule t
    | .memberType t name => memberTypeRule t name
    | .erasure t => erasureRule t
    | .same a b => sameRule a b
    | .subtype a b => subtypeRule a b
    | .castable a b => castableRule a b
    | .unboxed t => unboxedRule t
    | .spelling qualified t => spellingRule qualified t
    | .signature t => signatureRule t
    | .inference formal actual vars found => inferenceRule formal actual vars found
    | .constant f => constantRule f
    | .typeNode c s n => typeNodeRule c s n
    | .expr c s x target => exprRule c s x target
    | .qualifier c s x => qualifierRule c s x
    | .pattern c s x matched => patternRule c s x matched
    | .initializer c s x t => initializerRule c s x t
    | .stmt c s st => stmtRule c s st
    | .typeDecl c d => typeDeclRule c d

/-- More steps than any question needs. -/
def stepLimit : Nat := 1000000

instance : Answers := ⟨answer stepLimit⟩

namespace Lookup

/-- Resolves the bodies of the types of a source file, once. -/
def resolveUnit (u : UnitId) : Lookup Unit := do
  completeUnit u
  if (← unitEntry u).isResolved then
    return
  modifyUnit u fun e => { e with isResolved := true }
  (← unitEntry u).unit.types.forM (resolveNested { unit := u })
  runBoundChecks

end Lookup

end Javelin
