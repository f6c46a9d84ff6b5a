import Javelin.Constant.Fold
import Javelin.Resolve.Invocations

/-!
# Operators, literals and arrays

Operands are promoted to the type the operator works on, and an operator on constants gives a
constant. The type of a conditional comes from the types of its branches.

1. Literals.
2. Unary and binary operators, and assignments.
3. Conditionals.
4. Casts and type tests.
5. Arrays.
-/

namespace Javelin

/-- Whether something can be assigned to. -/
def Expr.isVariable (x : Expr) : Bool :=
  match x.withoutParens with
  | .name .. | .field .. | .index .. => true
  | _ => false

namespace Lookup

variable [Answers]

/-- Resolves a condition. -/
def resolveCondition (c : Context) (s : Scope) (x : Expr) : Lookup Unit := do
  let t ← resolveExpr c s x (base .boolean)
  if t.isNone then
    return
  unless (← primitiveOf t) == .boolean do
    report c .incompatibleTypes x.info [← typeName t, "boolean"]
    return
  coerce c x.info (base .boolean)

/-! ## Literals -/

/-- The type of literals of a kind. -/
def literalType : Literal.Kind → Lookup TypeId
  | .int => return base .int
  | .long => return base .long
  | .float => return base .float
  | .double => return base .double
  | .char => return base .char
  | .string | .textBlock => stringType
  | .boolean => return base .boolean
  | .null => return base .null

/-- The type of a literal. -/
def resolveLiteral (c : Context) (x : Info) (kind : Literal.Kind) (raw : Text) :
    Lookup TypeId := do
  let t ← literalType kind
  match Literal.constant kind raw false with
  | .ok (some v) => setConstant c x v
  | .ok none => pure ()
  | .error _ =>
    if kind == .int || kind == .long then
      report c .integerOutOfRange x [raw, ← typeName t]
  return t

/-- The type of a negated integer literal, which may have the magnitude of the least number. -/
def negatedLiteral (c : Context) (x : Info) (operand : Expr) (lit : Info) (kind : Literal.Kind)
    (raw : Text) : Lookup TypeId := do
  let t ← literalType kind
  setType c lit t
  if let .paren i _ := operand then
    setType c i t
  match Literal.constant kind raw true with
  | .ok (some v) =>
    setConstant c x v
    if let some w := Constant.unary .neg v (← basicType t) then
      setConstant c lit w
  | .ok none => pure ()
  | .error _ => report c .integerOutOfRange x ["-" ++ raw, ← typeName t]
  return t

/-! ## Unary operators -/

/-- Counts an assignment to a local variable. -/
def noteAssignment (c : Context) (target : Expr) : Lookup Unit := do
  if let .name _ name := target.withoutParens then
    if let some (.var l) := (← findings c).uses[name.info.id]? then
      modifyLocal l fun e => { e with assignments := e.assignments + 1 }

/-- The value of an operator applied to a constant. -/
def foldUnary (c : Context) (x operand : Info) (op : Operator) (t : BasicType) : Lookup Unit := do
  if let some v ← constantOf c operand then
    if let some w := Constant.unary op v t then
      setConstant c x w

/-- The type of a unary expression whose operand has a type. -/
def unaryType (c : Context) (x : Info) (op : Operator) (operand : Expr) (t : TypeId) :
    Lookup TypeId := do
  let p ← primitiveOf t
  let bad : Lookup TypeId := do
    report c .invalidOperator x [op.text, ← typeName t]
    return .none
  match op with
  | .inc | .dec =>
    unless p.isNumeric do
      return ← bad
    noteAssignment c operand
    return t
  | .not =>
    unless p == .boolean do
      return ← bad
    convert c operand.info .boolean
    foldUnary c x operand.info op .boolean
    return base .boolean
  | _ =>
    let promoted := p.promoted
    if promoted == .undefined || (op == .bitNot && !promoted.isIntegral) then
      return ← bad
    convert c operand.info promoted
    foldUnary c x operand.info op promoted
    return base promoted

def resolveUnary (c : Context) (s : Scope) (x : Info) (op : Operator) (operand : Expr) :
    Lookup TypeId := do
  let plain : Lookup TypeId := do
    let t ← resolveExpr c s operand .none
    if t.isNone then return .none else unaryType c x op operand t
  match op, operand.withoutParens with
  | .neg, .literal i .int raw => negatedLiteral c x operand i .int raw
  | .neg, .literal i .long raw => negatedLiteral c x operand i .long raw
  | _, _ => plain

/-! ## Binary operators -/

/-- The value of an operator applied to two constants. -/
def foldBinary (c : Context) (x l r : Info) (op : Operator) (t : BasicType) : Lookup Unit := do
  if let some a ← constantOf c l then
    if let some b ← constantOf c r then
      if let some v := Constant.binary op a b t then
        setConstant c x v

/-- Promotes both operands to a type and folds constants. -/
def promoteBoth (c : Context) (x l r : Info) (op : Operator) (t : BasicType) : Lookup Unit := do
  convert c l t
  convert c r t
  foldBinary c x l r op t

/-- What an operator does with operands of given types. -/
inductive BinaryPlan where
  /-- It works on primitive values of a type and gives a value of a type. -/
  | primitive (operands result : BasicType)
  /-- It shifts a value of a type by one of another type. -/
  | shift (value distance : BasicType)
  | concat
  /-- It compares references. -/
  | identity
  | invalid
deriving DecidableEq

/-- The plan for an operator on primitive types, where `undefined` stands for no primitive type;
the two flags tell which operands are references. -/
def BinaryPlan.of (op : Operator) (l r : BasicType) (lRef rRef hasString : Bool) : BinaryPlan :=
  let both := l.promotedWith r
  let numeric := fun result => if both == .undefined then .invalid else primitive both result
  match op with
  | .condAnd | .condOr =>
    if l == .boolean && r == .boolean then primitive .boolean .boolean else invalid
  | .add => if hasString then concat else numeric both
  | .sub | .mul | .div | .rem => numeric both
  | .shl | .shr | .ushr =>
    if l.promoted.isIntegral && r.promoted.isIntegral then shift l.promoted r.promoted else invalid
  | .lt | .gt | .le | .ge => numeric .boolean
  | .eq | .ne =>
    if l.isNumeric && r.isNumeric && !(lRef && rRef) then primitive both .boolean
    else if l == .boolean && r == .boolean && !(lRef && rRef) then primitive .boolean .boolean
    else if lRef && rRef then identity
    else invalid
  | .and | .or | .xor =>
    if l == .boolean && r == .boolean then primitive .boolean .boolean
    else if l.isIntegral && r.isIntegral then primitive both both
    else invalid
  | _ => invalid

/-- The type of a binary expression whose operands have types. -/
def binaryResult (c : Context) (x : Info) (op : Operator) (left right : Expr) (lt rt : TypeId) :
    Lookup TypeId := do
  let (lp, rp) := (← primitiveOf lt, ← primitiveOf rt)
  let (l, r) := (left.info, right.info)
  let bad : Lookup TypeId := do
    report c .invalidOperator x [op.text, (← typeName lt) ++ ", " ++ (← typeName rt)]
    return .none
  if lp == .void || rp == .void then
    return ← bad
  let hasString ← andAlso (pure (op == .add)) (orElse (isString lt) (isString rt))
  let (lRef, rRef) := ((← basicType lt) == .undefined, (← basicType rt) == .undefined)
  match BinaryPlan.of op lp rp lRef rRef hasString with
  | .primitive operands result =>
    promoteBoth c x l r op operands
    return base result
  | .shift value distance =>
    convert c l value
    convert c r distance
    foldBinary c x l r op value
    return base value
  | .concat =>
    foldBinary c x l r op .string
    stringType
  | .identity =>
    unless ← orElse (isCastable lt rt) (isCastable rt lt) do
      report c .incompatibleInstanceof x [← typeName lt, ← typeName rt]
    return base .boolean
  | .invalid => bad

def resolveBinary (c : Context) (s : Scope) (x : Info) (op : Operator) (left right : Expr) :
    Lookup TypeId := do
  let lt ← resolveExpr c s left .none
  let rt ← resolveExpr c s right .none
  if lt.isNone || rt.isNone then
    let isTest := op.isComparison || op == .condAnd || op == .condOr
    return if isTest then base .boolean else .none
  binaryResult c x op left right lt rt

/-! ## Assignments -/

/-- Whether a compound assignment can apply its operator. -/
def compoundFits (op : Operator) (l r : BasicType) (isString : Bool) : Bool :=
  if op == .add && isString then r != .void
  else if op.isShift then l.promoted.isIntegral && r.promoted.isIntegral
  else if op == .and || op == .or || op == .xor then
    (l == .boolean && r == .boolean) || (l.isIntegral && r.isIntegral)
  else l.isNumeric && r.isNumeric

def resolveAssign (c : Context) (s : Scope) (x : Info) (op : Operator) (target value : Expr) :
    Lookup TypeId := do
  let tt ← resolveExpr c s target .none
  modifyFindings c fun f => { f with constants := f.constants.erase target.info.id }
  unless target.isVariable do
    report c .invalidOperator x [op.text, ← typeName tt]
  noteAssignment c target
  if op == .assign then
    ask (.initializer c s value tt)
    return tt
  let vt ← resolveExpr c s value .none
  if tt.isNone || vt.isNone then
    return tt
  let op := op.binary
  let (l, r) := (← primitiveOf tt, ← primitiveOf vt)
  let isText ← andAlso (pure (op == .add)) (isString tt)
  unless compoundFits op l r isText do
    report c .invalidOperator x [op.text, (← typeName tt) ++ ", " ++ (← typeName vt)]
  return tt

/-! ## Conditionals -/

/-- The narrow type that all operands have which are no `int` constants, if there is one. -/
def narrowOf : BasicType → List (BasicType × Option Constant) → BasicType
  | narrow, [] => narrow
  | narrow, (p, v) :: rest =>
    if p == .int && v.isSome then narrowOf narrow rest
    else if narrow == .undefined then narrowOf p rest
    else if narrow != p then .undefined
    else narrowOf narrow rest

/-- The type of a conditional with numeric branches: a narrow type takes in `int` constants that
fit, otherwise operands are promoted. -/
def numericResult (operands : List (BasicType × Option Constant)) : BasicType :=
  let narrow := narrowOf .undefined operands
  let fits := operands.all fun (p, v) =>
    match p, v with
    | .int, some k => k.fitsIn narrow
    | _, _ => true
  if [.byte, .short, .char].contains narrow && fits then narrow
  else
    match operands.map Prod.fst with
    | [] => .undefined
    | p :: ps => (ps.foldl BasicType.promotedWith p).promoted

/-- The type of an expression that has one of several results. -/
def unify (c : Context) (xs : List Expr) (target : TypeId) : Lookup TypeId := do
  let mut typed : List (TypeId × Info) := []
  for x in xs do
    let t ← typeOf c x.info
    if t.isSome then
      typed := typed ++ [(t, x.info)]
  let types := typed.map Prod.fst
  let first :: rest := types | return target
  if ← allM (isSame · first) rest then
    return first
  let prims ← types.mapM primitiveOf
  if prims.all (· == .boolean) then
    return base .boolean
  if prims.all BasicType.isNumeric then
    let values ← typed.mapM fun (_, i) => constantOf c i
    return base (numericResult (prims.zip values))
  if ← andAlso (pure target.isSome) (isReference target) then
    return target
  let mut refs : List TypeId := []
  for t in types do
    unless (← shape t).isNull do
      refs := refs ++ [← if ← isPrimitive t then boxed t else pure t]
  if refs.isEmpty then return first else lub refs

def resolveConditional (c : Context) (s : Scope) (x : Info) (cond yes no : Expr)
    (target : TypeId) : Lookup TypeId := do
  resolveCondition c s cond
  let yt ← resolveExpr c s yes target
  let nt ← resolveExpr c s no target
  let t ← unify c [yes, no] target
  if t.isNone then
    return .none
  if yt.isSome then
    coerce c yes.info t
  if nt.isSome then
    coerce c no.info t
  if let some b ← constantOf c cond.info then
    if let some y ← constantOf c yes.info then
      if let some n ← constantOf c no.info then
        let v := if b.isTrue then y else n
        let p ← basicType t
        if let some w := if p == .undefined then some v else v.castTo p then
          setConstant c x w
  return t

/-! ## Casts and type tests -/

def resolveCast (c : Context) (s : Scope) (x : Info) (type : TypeNode) (operand : Expr) :
    Lookup TypeId := do
  let t ← resolveType c s type
  if operand.isFunction then
    let _ ← resolveExpr c s operand t
    return t
  let xt ← resolveExpr c s operand .none
  if xt.isNone || t.isNone then
    return t
  unless ← isCastable xt t do
    report c .invalidCast x [← typeName xt, ← typeName t]
    return t
  if let some v ← constantOf c operand.info then
    let p ← basicType t
    if p != .undefined then
      if let some w := v.castTo p then
        setConstant c x w
    else if ← andAlso (isString t) (pure (v.type == .string)) then
      setConstant c x v
  return t

def resolveInstanceOf (c : Context) (s : Scope) (x : Info) (operand : Expr) (type : TypeNode)
    (pattern : Option Expr) : Lookup TypeId := do
  let xt ← resolveExpr c s operand .none
  let t ← match pattern with
    | some p => ask (.pattern c s p xt)
    | none => resolveType c s type
  if xt.isSome && t.isSome then
    if ← orElse (isPrimitive xt) (notM (isCastable xt t)) then
      report c .incompatibleInstanceof x [← typeName xt, ← typeName t]
  return base .boolean

/-- The component types of a record type; none for other types. -/
def recordComponents (t : TypeId) : Lookup (List TypeId) := do
  let decl ← declaration t
  unless (← shape decl).traits.has .record do
    return []
  ensureMembers decl
  let fields ← (← shape decl).declaredD.fields.filterM fun f => do
    return !(← fieldEntry f).isStatic
  fields.mapM fun f => do return (← fieldEntry (← fieldOf t f)).type

/-- The type that a pattern tests a value for; its variables are declared. -/
def patternRule (c : Context) (s : Scope) (x : Expr) (matched : TypeId) : Lookup TypeId := do
  match x with
  | .typePattern i modifiers type name =>
    let t ← resolveType c s type
    let t := if type.isInferred then matched else t
    let l ← declareInitialized c s name t (hasModifier modifiers .final) false
    modifyLocal l fun e => { e with isPattern := true }
    setType c i t
    return t
  | .recordPattern i type subs =>
    let t ← resolveType c s type
    let types ← recordComponents t
    for (sub, k) in subs.zipIdx do
      let _ ← ask (.pattern c s sub (types.getD k .none))
    setType c i t
    return t
  | _ => resolveExpr c s x matched

/-- The type of a class literal. -/
def classLitType (c : Context) (s : Scope) (type : TypeNode) : Lookup TypeId := do
  let t ← resolveType c s type
  let p ← basicType t
  let arg ← if t.isNone then objectType
    else if p == .void then wellKnown "java.lang.Void"
    else if p != .undefined then boxed t
    else erasure t
  classOf arg

/-! ## Arrays -/

/-- Resolves an index or a dimension, which is promoted to `int`. -/
def resolveIndex (c : Context) (s : Scope) (x : Expr) : Lookup Unit := do
  let t ← resolveExpr c s x .none
  if t.isNone then
    return
  unless (← primitiveOf t).promoted == .int do
    report c .incompatibleTypes x.info [← typeName t, "int"]
    return
  convert c x.info .int

/-- Resolves an array initializer for a variable of a type. -/
def resolveArrayInit (c : Context) (s : Scope) (x : Info) (elems : List Expr) (t : TypeId) :
    Lookup Unit := do
  let isWrong ← andAlso (pure t.isSome) do return !(← shape t).isArray
  if isWrong then
    report c .incompatibleTypes x ["array initializer", ← typeName t]
  let t := if isWrong then .none else t
  let elem ← elementType t
  for e in elems do
    ask (.initializer c s e elem)
  setType c x t

/-- Resolves the initializer of a variable of a type. -/
def initializerRule (c : Context) (s : Scope) (x : Expr) (t : TypeId) : Lookup Unit := do
  match x with
  | .arrayInit i elems => resolveArrayInit c s i elems t
  | _ =>
    let _ ← resolveExpr c s x t
    coerce c x.info t

def resolveNewArray (c : Context) (s : Scope) (elem : TypeNode) (dims : List Expr)
    (extraDims : Nat) (init : Option Expr) : Lookup TypeId := do
  let e ← resolveType c s elem
  dims.forM (resolveIndex c s)
  let t ← if e.isNone then pure .none else array e (dims.length + extraDims)
  if let some (.arrayInit i elems) := init then
    resolveArrayInit c s i elems t
  return t

def resolveArrayAccess (c : Context) (s : Scope) (array index : Expr) : Lookup TypeId := do
  let t ← resolveExpr c s array .none
  resolveIndex c s index
  if ← orElse (pure t.isNone) (isMissing t) then
    return .none
  unless (← shape t).isArray do
    report c .notAnArray array.info [← typeName t]
    return .none
  elementType t

end Lookup

end Javelin
