import Javelin.Resolve.Operators

/-!
# Statements

Statements declare variables and local classes in the scope around them and resolve the expressions
in them. A pattern variable of a condition stays in scope after an `if` whose branch always jumps
away.
-/

namespace Javelin

/-- Whether a statement ends in a jump as it is written, for blocks nested at most `n` deep. -/
def Stmt.jumpsAwayIn : Nat → Stmt → Bool
  | 0, _ => false
  | n + 1, s =>
    match s with
    | .return .. | .throw .. | .break .. | .continue .. | .yield .. => true
    | .block b =>
      match b.stmts.getLast? with
      | some last => last.jumpsAwayIn n
      | none => false
    | _ => false

def Stmt.jumpsAway (s : Stmt) : Bool := s.jumpsAwayIn 100000

/-- Whether a label of a switch is a pattern. -/
def Expr.isPattern : Expr → Bool
  | .typePattern .. | .recordPattern .. => true
  | _ => false

namespace Lookup

/-- Copies the variables of a scope to another one. -/
def hoistVariables (source target : Scope) : Lookup Unit := do
  if let some i := source.frame? then
    if let some j := target.frame? then
      let f ← frame i
      modifyFrame j fun g => { g with locals := f.locals ++ g.locals }

variable [Answers]

def resolveStmt (c : Context) (s : Scope) (st : Stmt) : Lookup Unit := ask (.stmt c s st)

/-- Resolves the statements of a block in a scope of their own. -/
def resolveBlock (c : Context) (s : Scope) (b : Block) : Lookup Unit := do
  let inner ← blockIn s
  b.stmts.forM (resolveStmt c inner)

/-! ## Local variables and classes -/

/-- The type of a variable that is declared without one, from its initializer. -/
def inferLocal (c : Context) (s : Scope) (v : VarDeclarator) (init : Expr) : Lookup TypeId := do
  if let .arrayInit i elems := init then
    resolveArrayInit c s i elems .none
    return .none
  let t ← resolveExpr c s init .none
  if (← shape t).isNull then
    report c .incompatibleTypes init.info ["null", "var"]
    return .none
  if ← isVoid t then
    report c .voidValue v.name.info [v.name.name]
    return .none
  return t

/-- Notes the value of a final variable that is initialized with a constant. -/
def noteLocalConstant (c : Context) (l : LocalId) (init : Info) : Lookup Unit := do
  let some v ← constantOf c init | return
  let t := (← localEntry l).type
  let p ← basicType t
  let value ← if p != .undefined then
      match v.castTo p with
      | some w => do
        pure (if ← isAssignable (← typeOf c init) t (some v) then some w else none)
      | none => pure none
    else do pure (if ← andAlso (isString t) (pure (v.type == .string)) then some v else none)
  if value.isSome then
    modifyLocal l fun e => { e with constant := value }

/-- Checks that a resource can be closed. -/
def checkCloseable (c : Context) (x : Info) (t : TypeId) : Lookup Unit := do
  let closeable ← wellKnown "java.lang.AutoCloseable"
  unless ← orElse (pure t.isNone) (isSubtype t closeable) do
    report c .incompatibleTypes x [← typeName t, "AutoCloseable"]

/-- Resolves one variable of a declaration with the given base type. -/
def resolveDeclarator (c : Context) (s : Scope) (type : TypeId) (isInferred isFinal : Bool)
    (isResource : Bool) (v : VarDeclarator) : Lookup Unit := do
  let written ← array type v.dims
  let isNothing ← andAlso (pure type.isSome) (isVoid type)
  if isNothing then
    report c .voidValue v.name.info [v.name.name]
  let t ← match isInferred, v.init with
    | true, some x => inferLocal c s v x
    | true, none => pure .none
    | false, _ => pure (if isNothing then .none else written)
  let l ← declareVariable c s v.name t isFinal false
  if let some x := v.init then
    unless isInferred do
      ask (.initializer c s x t)
    modifyLocal l fun e => { e with isInitialized := true }
    if isFinal then
      noteLocalConstant c l x.info
    if isResource then
      checkCloseable c x.info t

/-- Resolves a declaration of local variables. -/
def resolveLocals (c : Context) (s : Scope) (d : VarDecl) (isResource : Bool) : Lookup Unit := do
  let type ← resolveType c s d.type
  let isFinal := isResource || hasModifier d.modifiers .final
  d.vars.forM (resolveDeclarator c s type d.type.isInferred isFinal isResource)

def resolveLocalClass (c : Context) (s : Scope) (d : TypeDecl) : Lookup Unit := do
  let t ← declareLocal c.unit d s
  if let .block _ f := s then
    modifyFrame f fun e => { e with types := (d.nameText, t) :: e.types }
  setLocalType c d.info t
  resolveBody c d

/-! ## Loops and jumps -/

/-- The type of the elements of an array or an iterable. -/
def iteratedType (c : Context) (x : Info) (t : TypeId) : Lookup TypeId := do
  if ← orElse (pure t.isNone) (isMissing t) then
    return .none
  if (← shape t).isArray then
    return ← elementType t
  let up ← asSuper t (← wellKnown "java.lang.Iterable")
  if up.isNone then
    report c .invalidIterable x []
    return .none
  match ← shape up with
  | .composite (.parameterized _ (a :: _) ..) => upperBound a
  | _ => objectType

def resolveForEach (c : Context) (s : Scope) (d : VarDecl) (iterable : Expr) (body : Stmt) :
    Lookup Unit := do
  let inner ← blockIn s
  let elem ← iteratedType c iterable.info (← resolveExpr c s iterable .none)
  let type ← resolveType c inner d.type
  for v in d.vars do
    let t ← array type v.dims
    let t := if d.type.isInferred then elem else t
    unless d.type.isInferred do
      if ← andAlso (pure (elem.isSome && t.isSome)) (notM (isCompatible elem t)) then
        report c .incompatibleTypes iterable.info [← typeName elem, ← typeName t]
    let _ ← declareInitialized c inner v.name t (hasModifier d.modifiers .final) false
  resolveStmt c (← blockIn inner) body

def resolveReturn (c : Context) (s : Scope) (x : Info) (value : Option Expr) : Lookup Unit := do
  let plain : Lookup Unit := do
    if let some v := value then
      let _ ← resolveExpr c s v .none
  let some m := s.method? | plain
  if m.isLambda && m.result.isNone then
    return ← plain
  let noValue ← orElse (pure m.result.isNone) (isVoid m.result)
  match value with
  | none =>
    unless noValue do
      report c .shouldReturnValue x [← typeName m.result]
  | some v =>
    if noValue then
      plain
      report c .voidMethodReturnsValue v.info []
    else
      let _ ← resolveExpr c s v m.result
      coerce c v.info m.result

/-- Adds a result of the innermost switch expression. -/
def addYield (x : Expr) : Lookup Unit := modify fun w => { w with yields := w.yields.push x }

def resolveYield (c : Context) (s : Scope) (x : Expr) : Lookup Unit := do
  let _ ← resolveExpr c s x (c.yieldTarget.getD .none)
  if c.yieldTarget.isSome then
    addYield x

/-! ## Switches -/

/-- Resolves a label of a switch over a type. -/
def resolveLabel (c : Context) (s : Scope) (sel : TypeId) (isEnum : Bool) (x : Expr) :
    Lookup Unit := do
  if x.isPattern then
    let t ← ask (.pattern c s x sel)
    if ← andAlso (pure (sel.isSome && t.isSome)) (notM (isCastable sel t)) then
      report c .incompatibleTypes x.info [← typeName sel, ← typeName t]
    return
  if isEnum then
    if let .name i name := x then
      let f ← findField sel name.name
      if ← andAlso (pure f.isSome) do return (← fieldEntry f).traits.has .enum then
        setField c i f
        setUse c name.info (.field f)
        setType c i sel
      else
        report c .undefinedField i [name.name]
      return
  let t ← resolveExpr c s x sel
  if (← shape t).isNull then
    return
  let v ← constantOf c x.info
  if ← andAlso (pure (sel.isSome && t.isSome)) (notM (isAssignable t sel v)) then
    unless ← isAssignable t (← unboxed sel) v do
      report c .incompatibleTypes x.info [← typeName t, ← typeName sel]

/-- Resolves one group of a switch. In a switch expression an arrow may lead to a value. -/
def resolveCase (c : Context) (shared : Scope) (sel : TypeId) (isEnum isExpr : Bool)
    (k : SwitchCase) : Lookup Unit := do
  let s ← if k.isArrow || k.labels.any Expr.isPattern then blockIn shared else pure shared
  k.labels.forM (resolveLabel c s sel isEnum)
  if let some g := k.guard then
    resolveCondition c s g
  match isExpr && k.isArrow, k.body with
  | true, [.expr _ x] => resolveYield c s x
  | _, body => body.forM (resolveStmt c s)

/-- Resolves the groups of a switch over a type. -/
def resolveCases (c : Context) (s : Scope) (sel : TypeId) (cases : List SwitchCase)
    (isExpr : Bool) : Lookup Unit := do
  let isEnum := (← declarationShape sel).traits.has .enum
  let shared ← blockIn s
  cases.forM (resolveCase c shared sel isEnum isExpr)

/-- The type of a switch expression. -/
def resolveSwitch (c : Context) (s : Scope) (selector : Expr) (cases : List SwitchCase)
    (target : TypeId) : Lookup TypeId := do
  let sel ← resolveExpr c s selector .none
  let saved := (← get).yields
  modify fun w => { w with yields := #[] }
  resolveCases { c with yieldTarget := some target } s sel cases true
  let results := (← get).yields.toList
  modify fun w => { w with yields := saved }
  let t ← unify c results target
  for x in results do
    if (← typeOf c x.info).isSome then
      coerce c x.info t
  return t

/-! ## `try` -/

def resolveResource (c : Context) (s : Scope) (r : Stmt) : Lookup Unit := do
  match r with
  | .locals d => resolveLocals c s d true
  | .expr _ x => checkCloseable c x.info (← resolveExpr c s x .none)
  | _ => return

def resolveCatch (c : Context) (s : Scope) (k : CatchClause) : Lookup Unit := do
  let inner ← blockIn s
  let isUnion := k.param.type.any TypeNode.isUnion
  let t ← match k.param.type with
    | some type => do
      let t ← resolveType c inner type
      let throwable ← wellKnown "java.lang.Throwable"
      if ← andAlso (pure (!isUnion && t.isSome)) (notM (isSubtype t throwable)) then
        report c .incompatibleTypes type.info [← typeName t, "Throwable"]
      pure t
    | none => pure .none
  let isFinal := isUnion || hasModifier k.param.modifiers .final
  let _ ← declareInitialized c inner k.param.name t isFinal false
  resolveBlock c inner k.body

def resolveTry (c : Context) (s : Scope) (resources : List Stmt) (body : Block)
    (catches : List CatchClause) (final : Option Block) : Lookup Unit := do
  let inner ← blockIn s
  resources.forM (resolveResource c inner)
  resolveBlock c inner body
  catches.forM (resolveCatch c s)
  if let some b := final then
    resolveBlock c s b

/-! ## Constructor calls -/

/-- Resolves a call of another constructor at the start of a constructor. -/
def resolveConstructorCall (c : Context) (s : Scope) (x : Info) (isSuper : Bool)
    (qualifier : Option Expr) (xs : List Expr) : Lookup Unit := do
  let own := s.currentType
  if let some q := qualifier then
    let _ ← resolveExpr c s q .none
  let t ← if isSuper then superclass own else pure own
  let args ← resolveCallArgs c s xs
  if ← orElse (pure t.isNone) (isMissing t) then
    return ← resolveLeftovers c s xs args
  let name := (← declarationShape t).name
  let m ← invoke c x name (← methods t "<init>") args t .none own true
  bindArgs c s x xs args m

/-! ## All statements -/

def resolveIf (c : Context) (s : Scope) (cond : Expr) (yes : Stmt) (no : Option Stmt) :
    Lookup Unit := do
  let inner ← blockIn s
  resolveCondition c inner cond
  resolveStmt c (← blockIn inner) yes
  match no with
  | some n => resolveStmt c (← blockIn inner) n
  | none => if yes.jumpsAway then hoistVariables inner s

def resolveFor (c : Context) (s : Scope) (init : List Stmt) (cond : Option Expr)
    (update : List Expr) (body : Stmt) : Lookup Unit := do
  let inner ← blockIn s
  init.forM (resolveStmt c inner)
  if let some x := cond then
    resolveCondition c inner x
  for x in update do
    let _ ← resolveExpr c inner x .none
  resolveStmt c (← blockIn inner) body

/-- Resolves an expression whose value must have a given type; `name` is its name in messages. -/
def resolveOperand (c : Context) (s : Scope) (x : Expr) (name : Text)
    (fits : TypeId → Lookup Bool) : Lookup Unit := do
  let t ← resolveExpr c s x .none
  if ← andAlso (pure t.isSome) (notM (fits t)) then
    report c .incompatibleTypes x.info [← typeName t, name]

/-- Resolves a statement. -/
def stmtRule (c : Context) (s : Scope) (st : Stmt) : Lookup Unit := do
  match st with
  | .block b => resolveBlock c s b
  | .empty _ | .break .. | .continue .. => return
  | .locals d => resolveLocals c s d false
  | .localClass _ d => resolveLocalClass c s d
  | .expr _ x =>
    let _ ← resolveExpr c s x .none
  | .ifElse _ cond yes no => resolveIf c s cond yes no
  | .while _ cond body =>
    let inner ← blockIn s
    resolveCondition c inner cond
    resolveStmt c inner body
  | .doWhile _ body cond =>
    resolveStmt c (← blockIn s) body
    resolveCondition c (← blockIn s) cond
  | .for _ init cond update body => resolveFor c s init cond update body
  | .forEach _ d iterable body => resolveForEach c s d iterable body
  | .return i value => resolveReturn c s i value
  | .yield _ x => resolveYield c s x
  | .throw _ x =>
    resolveOperand c s x "Throwable" fun t => do isSubtype t (← wellKnown "java.lang.Throwable")
  | .switch _ selector cases =>
    resolveCases c s (← resolveExpr c s selector .none) cases false
  | .try _ resources body catches final => resolveTry c s resources body catches final
  | .labeled _ _ body => resolveStmt c s body
  | .sync _ lock body =>
    resolveOperand c s lock "Object" isReference
    resolveBlock c s body
  | .assert _ cond message =>
    resolveCondition c s cond
    if let some x := message then
      let _ ← resolveExpr c s x .none
  | .constructorCall i isSuper qualifier _ xs =>
    resolveConstructorCall c s i isSuper qualifier xs

end Lookup

end Javelin
