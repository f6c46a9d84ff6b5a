import Javelin.Flow.Exceptions

/-!
# Expressions

Operands are evaluated from left to right. A condition splits the state; a constant condition makes
the branch that it rules out vacuous.
-/

namespace Javelin.Flow

variable [Answers] [Visitor]

/-- The state after expressions in order. -/
def exprs (xs : List Expr) (s : Inits) : Analyzer Inits := xs.foldlM (fun s x => Visitor.expr x s) s

/-- The state after an expression that may be left out. -/
def optional (x : Option Expr) (s : Inits) : Analyzer Inits := exprs x.toList s

/-! ## Variables -/

/-- Whether the current body gives a blank final its value. -/
def initializes (f : FieldId) : Analyzer Bool := do
  let a ← get
  if !a.blankFinals.contains f then
    return false
  if (a.program.fieldEntry f).isStatic then
    return a.kind == .staticInit
  return a.kind == .constructor || a.kind == .instanceInit

/-- Reports a blank final that is read before it has a value. -/
def readBlankFinal (f : FieldId) (name : Ident) (s : Inits) : Analyzer Unit := do
  if ← initializes f then
    if let some n ← slot? (.field f) then
      unless s.isAssigned n do
        report .uninitializedBlankFinal name.info [name.name]

/-- Reports a variable that is read before it has a value. -/
def read (name : Ident) (s : Inits) : Analyzer Unit := do
  match ← known (·.uses[name.info.id]?) with
  | some (.var l) =>
    if let some n ← slot? (.var l) then
      unless s.isAssigned n do
        report .uninitializedLocal name.info [name.name]
  | some (.field f) => readBlankFinal ((← get).program.declaredField f) name s
  | _ => return

/-- Reads a field of the current object. -/
def readField (access : Info) (name : Ident) (s : Inits) : Analyzer Unit := do
  if let some f ← known (·.fields[access.id]?) then
    readBlankFinal ((← get).program.declaredField f) name s

/-- Assigns a variable, and reports a final one that may have a value already. -/
def write (v : Symbol) (name : Ident) (s : Inits) : Analyzer Inits := do
  let p := (← get).program
  match v with
  | .var l =>
    let n ← slot? v
    if (p.localEntry l).isFinal && n.all s.mayBeAssigned then
      report .finalReassignment name.info [name.name]
    return match n with
      | some n => s.assign n
      | none => s
  | .field f =>
    let f := p.declaredField f
    unless (p.fieldEntry f).isFinal do
      return s
    if let some n ← slot? (.field f) then
      if ← initializes f then
        unless s.mayBeAssigned n do
          return s.assign n
    report .finalFieldAssignment name.info [name.name]
    return s
  | _ => return s

/-- The state after an assignment; a compound one reads its target first. An increment has no
value. -/
def assignment (target : Expr) (value : Option Expr) (isCompound : Bool) (s : Inits) :
    Analyzer Inits := do
  match target.withoutParens with
  | .name _ n =>
    if isCompound then
      read n s
    let s ← optional value s
    match ← known (·.uses[n.info.id]?) with
    | some v => write v n s
    | none => return s
  | .field i owner n =>
    let f ← known (·.fields[i.id]?)
    if isThis owner then
      if isCompound then
        readField i n s
      let s ← optional value s
      match f with
      | some f => write (.field f) n s
      | none => return s
    else
      let s ← Visitor.expr owner s
      let s ← optional value s
      if let some f := f then
        if ((← get).program.fieldEntry f).isFinal then
          report .finalFieldAssignment n.info [n.name]
      return s
  | .index _ array i => optional value (← Visitor.expr i (← Visitor.expr array s))
  | _ => optional value (← Visitor.expr target s)

/-! ## Lambdas -/

/-- Whether a body need not return a value. -/
def isVoidResult (t : TypeId) : Analyzer Bool := do
  return t.isNone || (← Lookup.basicType t) == .void

/-- The state after statements. The first one that is never run is reported. -/
def stmtsFrom (isReported : Bool) : List Stmt → Inits → Analyzer Inits
  | [], s => return s
  | st :: rest, s => do
    if s.isReachable then
      stmtsFrom isReported rest (← Visitor.stmt [] st s)
    else
      markUnreachable st
      unless isReported do
        report .unreachableCode st.info []
      stmtsFrom true rest (← Visitor.stmt [] st s)

/-- The state after statements; nothing is reported if they are not reached at all. -/
def stmts (sts : List Stmt) (s : Inits) : Analyzer Inits := stmtsFrom (!s.isReachable) sts s

def block (b : Block) (s : Inits) : Analyzer Inits := stmts b.stmts s

/-- Walks the body of a lambda from the state where it stands. -/
def lambda (i : Info) (params : List Param) (value : Option Expr) (body : Option Block)
    (s : Inits) : Analyzer Unit := do
  let (result, throws) ← match ← known (·.methods[i.id]?) with
    | some m => do
      let e ← Lookup.methodEntry m
      pure (e.result, e.throws)
    | none => pure (.none, [])
  let kind := (← get).kind
  modify fun a => { a with kind := .lambda }
  let _ ← inFrame (.body throws false .dead) do
    let s ← params.foldlM (fun s p => bind p.name s) s
    match body, value with
    | some b, _ =>
      let stop ← block b s
      if stop.isReachable then
        unless ← isVoidResult result do
          report .missingReturn i [← Lookup.typeName result]
    | none, some x => let _ ← Visitor.expr x s
    | none, none => return
  modify fun a => { a with kind }

/-! ## Switches -/

/-- What is known while the groups of a switch are walked: the state that falls into the next
group, and whether some group is entered in any case. -/
structure SwitchWalk where
  fall : Inits := .dead
  isExhaustive : Bool

/-- Leaves a state at the innermost switch. -/
def atSwitch (isYield : Bool) (s : Inits) : Analyzer Unit :=
  modifyFrame fun
    | .switch x breaks yields =>
      if isYield then .switch x breaks (yields.merge s) else .switch x (breaks.merge s) yields
    | f => f

/-- Walks one group of a switch that is entered from the selector. -/
def switchGroup (isExpression : Bool) (start : Inits) (w : SwitchWalk) (c : SwitchCase) :
    Analyzer SwitchWalk := do
  let exhaustive := w.isExhaustive || c.isDefault || c.labels.any fun
    | .typePattern .. | .recordPattern .. => true
    | _ => false
  let entry := if c.isArrow then start else start.merge w.fall
  let entry ← exprs c.labels entry
  let entry ← match c.guard with
    | some g => do pure (← Visitor.condition g entry).whenTrue
    | none => pure entry
  match isExpression && c.isArrow, c.body with
  | true, [.expr _ x] =>
    atSwitch true (← Visitor.expr x entry)
    return ⟨.dead, exhaustive⟩
  | _, body =>
    let stop ← stmts body entry
    if c.isArrow then
      unless isExpression do
        atSwitch false stop
      return ⟨.dead, exhaustive⟩
    return ⟨stop, exhaustive⟩

/-- The state after a switch statement or expression. -/
def switchBody (selector : Expr) (cases : List SwitchCase) (isExpression : Bool) (s : Inits) :
    Analyzer Inits := do
  let s ← Visitor.expr selector s
  let (w, left) ← inFrame (.switch isExpression .dead .dead)
    (cases.foldlM (switchGroup isExpression s) { isExhaustive := isExpression })
  let (breaks, yields) := match left with
    | .switch _ breaks yields => (breaks, yields)
    | _ => (.dead, .dead)
  if isExpression then
    return yields.merge w.fall
  let stop := w.fall.merge breaks
  return if w.isExhaustive then stop else stop.merge s

/-! ## Rules -/

/-- The split state after a condition outside parentheses. One that is not constant and is not made
of conditions is walked as given, and has either outcome. -/
def conditionOr (walk : Analyzer Inits) (x : Expr) (s : Inits) : Analyzer Inits := do
  match ← constantCondition x with
  | some true => return .split s .vacuous
  | some false => return .split .vacuous s
  | none =>
    match x with
    | .unary _ .not y _ =>
      let c ← Visitor.condition y s
      return .split c.whenFalse c.whenTrue
    | .binary _ .condAnd l r =>
      let l ← Visitor.condition l s
      let r ← Visitor.condition r l.whenTrue
      return .split r.whenTrue (l.whenFalse.merge r.whenFalse)
    | .binary _ .condOr l r =>
      let l ← Visitor.condition l s
      let r ← Visitor.condition r l.whenFalse
      return .split (l.whenTrue.merge r.whenTrue) r.whenFalse
    | .conditional _ cond yes no =>
      let c ← Visitor.condition cond s
      let t ← Visitor.condition yes c.whenTrue
      let f ← Visitor.condition no c.whenFalse
      return .split (t.whenTrue.merge f.whenTrue) (t.whenFalse.merge f.whenFalse)
    | _ =>
      let stop ← walk
      return .split stop stop

/-- The state after an expression is evaluated for its value. -/
def exprRule (x : Expr) (s : Inits) : Analyzer Inits := do
  match x with
  | .paren _ y | .cast _ _ y => Visitor.expr y s
  | .name _ n =>
    read n s
    return s
  | .field i owner n =>
    if isThis owner then
      readField i n s
      return s
    Visitor.expr owner s
  | .call i target _ _ args =>
    let s ← exprs args (← optional target s)
    thrownByCall i i
    return s
  | .newObject i outer _ _ args body =>
    let s ← exprs args (← optional outer s)
    thrownByCall i i
    body.toList.forM Visitor.typeDecl
    return s
  | .newArray _ _ dims _ init => optional init (← exprs dims s)
  | .arrayInit _ elems => exprs elems s
  | .index _ array i => Visitor.expr i (← Visitor.expr array s)
  | .unary _ op y _ =>
    match op with
    | .inc | .dec => assignment y none true s
    | .not => return (← conditionOr (return s) x s).unconditional
    | _ => Visitor.expr y s
  | .binary _ op l r =>
    match op with
    | .condAnd | .condOr => return (← conditionOr (return s) x s).unconditional
    | _ => Visitor.expr r (← Visitor.expr l s)
  | .assign _ op target value => assignment target (some value) (op != .assign) s
  | .conditional _ cond yes no =>
    let c ← Visitor.condition cond s
    let t ← Visitor.expr yes c.whenTrue
    return t.merge (← Visitor.expr no c.whenFalse)
  | .instanceOf _ y _ pattern => optional pattern (← Visitor.expr y s)
  | .typePattern _ _ _ n => bind n s
  | .recordPattern _ _ subs => exprs subs s
  | .lambda i params value body _ =>
    lambda i params value body s
    return s
  | .methodRef _ target _ _ => Visitor.expr target s
  | .switch _ selector cases => switchBody selector cases true s
  | _ => return s

/-- The split state after a condition. -/
def conditionRule (x : Expr) (s : Inits) : Analyzer Inits :=
  let x := x.withoutParens
  conditionOr (exprRule x s) x s

end Javelin.Flow
