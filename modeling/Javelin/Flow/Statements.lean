import Javelin.Flow.Expressions

/-!
# Statements

The state after each form of statement. A loop is walked once: what its body assigns may have been
assigned when it starts.
-/

namespace Javelin.Flow

variable [Answers] [Visitor]

/-- Declares a local variable. One that is declared again in a loop has no value anew. -/
def declarator (v : VarDeclarator) (s : Inits) : Analyzer Inits := do
  let n ← trackLocal v.name
  let s := n.elim s s.forget
  match v.init with
  | none => return s
  | some x =>
    let s ← Visitor.expr x s
    return n.elim s s.assign

/-- Declares local variables in order. -/
def locals (d : VarDecl) (s : Inits) : Analyzer Inits := d.vars.foldlM (fun s v => declarator v s) s

/-! ## Loops -/

/-- The states that breaks and continues leave at a loop. -/
def Frame.loopExits : Frame → Inits × Inits
  | .loop _ breaks continues => (breaks, continues)
  | _ => (.dead, .dead)

/-- The state in which the body of a loop starts. A body that is never run is reported. -/
def loopBodyStart (cond : Option Bool) (body : Stmt) (c : Inits) : Analyzer Inits := do
  if cond == some false then
    markUnreachable body
    report .unreachableCode body.info []
    return .dead
  return c.whenTrue

/-- The state in which a loop ends because its condition does not hold. -/
def loopExit (cond : Option Bool) (c : Inits) : Inits := if cond == some true then .dead else c.whenFalse

def whileLoop (labels : List Text) (cond : Expr) (body : Stmt) (s : Inits) : Analyzer Inits := do
  let s := s.allow (← assignedIn [.expr cond, .stmt body])
  let value ← constantCondition cond
  let (c, left) ← inFrame (.loop labels .dead .dead) do
    let c ← Visitor.condition cond s
    let _ ← Visitor.stmt [] body (← loopBodyStart value body c)
    return c
  return (loopExit value c).merge left.loopExits.1

def doLoop (labels : List Text) (body : Stmt) (cond : Expr) (s : Inits) : Analyzer Inits := do
  let s := s.allow (← assignedIn [.stmt body, .expr cond])
  let (stop, left) ← inFrame (.loop labels .dead .dead) (Visitor.stmt [] body s)
  let (breaks, continues) := left.loopExits
  let c ← Visitor.condition cond (stop.merge continues)
  return (loopExit (← constantCondition cond) c).merge breaks

def forLoop (labels : List Text) (init : List Stmt) (cond : Option Expr) (update : List Expr)
    (body : Stmt) (s : Inits) : Analyzer Inits := do
  let s ← init.foldlM (fun s st => Visitor.stmt [] st s) s
  let parts := .stmt body :: (cond.toList ++ update).map Node.expr
  let s := s.allow (← assignedIn parts)
  let value ← match cond with
    | some x => constantCondition x
    | none => pure none
  let (c, left) ← inFrame (.loop labels .dead .dead) do
    let c ← match cond with
      | some x => Visitor.condition x s
      | none => pure (.split s .dead)
    let stop ← Visitor.stmt [] body (← loopBodyStart value body c)
    let continues := ((← get).frames.headD default).loopExits.2
    let _ ← exprs update (stop.merge continues)
    return c
  return (loopExit value c).merge left.loopExits.1

def forEachLoop (labels : List Text) (d : VarDecl) (iterable : Expr) (body : Stmt) (s : Inits) :
    Analyzer Inits := do
  let s ← Visitor.expr iterable s
  let s := s.allow (← assignedIn [.stmt body])
  let (_, left) ← inFrame (.loop labels .dead .dead) do
    let start ← d.vars.foldlM (fun s v => bind v.name s) s
    Visitor.stmt [] body start
  return s.merge left.loopExits.1

/-! ## Jumps -/

/-- The name of a label; one that recovery made up counts as none. -/
def labelName (label : Option Ident) : Option Text :=
  (label.map Ident.name).filter fun t => !t.isEmpty

/-- Jumps from a state; whether there is a target. The final blocks on the way are noted. -/
def jump (at_ : Info) (j : Jump) (s : Inits) : Analyzer Bool := do
  match j.land s (← get).frames with
  | none => return false
  | some l =>
    modify fun a =>
      { a with frames := l.frames
               notes := { a.notes with
                 subroutines := a.notes.subroutines.insert at_.id l.subroutines } }
    return true

def breakOut (i : Info) (label : Option Ident) (s : Inits) : Analyzer Inits := do
  if ← jump i (.break (labelName label)) s then
    return .dead
  match label, labelName label with
  | some l, some name => report .undefinedLabel l.info [name]
  | _, _ => report .invalidBreak i []
  return s

def continueLoop (i : Info) (label : Option Ident) (s : Inits) : Analyzer Inits := do
  if ← jump i (.continue (labelName label)) s then
    return .dead
  match label, labelName label with
  | some l, some name =>
    if hasLabel name (← get).frames then
      report .invalidContinue i []
    else
      report .undefinedLabel l.info [name]
  | _, _ => report .invalidContinue i []
  return s

/-! ## Try statements -/

/-- Walks a resource of a try statement, which is closed at the end. -/
def resource (r : Stmt) (s : Inits) : Analyzer Inits := do
  match r with
  | .locals d =>
    let s ← locals d s
    for v in d.vars do
      if let some (.var l) ← known (·.defs[v.name.info.id]?) then
        thrownByClose v.info (← Lookup.localEntry l).type
    return s
  | .expr _ x =>
    let s ← Visitor.expr x s
    thrownByClose x.info (← known (·.typeOf x.info))
    return s
  | _ => return s

def resources (rs : List Stmt) (s : Inits) : Analyzer Inits := rs.foldlM (fun s r => resource r s) s

/-- Walks a catch clause, from the state at the start of the try statement and after its body. -/
def catchBody (c : CatchClause) (h : Handler) (start body : Inits) : Analyzer Inits := do
  checkHandler h
  let entry ← bind c.param.name (start.allowFrom body)
  if let some (.var l) ← known (·.defs[c.param.name.info.id]?) then
    modify fun a => { a with rethrown := a.rethrown.insert l h.caught }
  block c.body entry

/-- Walks a try statement without its final block. -/
def tryCatch (rs : List Stmt) (body : Block) (catches : List CatchClause) (s : Inits) :
    Analyzer Inits := do
  let handlers ← catches.mapM handlerOf
  let (stop, left) ← inFrame (.handlers handlers) do
    block body (← resources rs s)
  let handlers := match left with
    | .handlers hs => hs
    | _ => []
  (catches.zip handlers).foldlM (fun out (c, h) => do
    return out.merge (← catchBody c h s stop)) stop

/-- Walks a try statement. Its final block is walked first, as what follows all other parts. -/
def tryStatement (rs : List Stmt) (body : Block) (catches : List CatchClause)
    (last : Option Block) (s : Inits) : Analyzer Inits := do
  match last with
  | none => tryCatch rs body catches s
  | some b =>
    let parts := Node.ofBlock body :: rs.map Stmt.resourceNode ++
      catches.map fun c => Node.ofBlock c.body
    let stop ← block b (s.allow (← assignedIn parts))
    let (out, _) ← inFrame (.finally b.info stop.isReachable stop) (tryCatch rs body catches s)
    return if stop.isReachable then out.andThen stop else .dead

/-! ## The rule -/

/-- Calls another constructor. One of the same class gives all blank finals their values. -/
def constructorCall (i : Info) (isSuper : Bool) (qualifier : Option Expr) (args : List Expr)
    (s : Inits) : Analyzer Inits := do
  let s ← exprs args (← optional qualifier s)
  thrownByCall i i
  if isSuper then
    return s
  (← get).blankFinals.foldlM (fun s f => do
    if ((← get).program.fieldEntry f).isStatic then return s
    else return s.assign (← track (.field f))) s

/-- The state after a statement with the given labels directly before it. -/
def stmtRule (labels : List Text) (st : Stmt) (s : Inits) : Analyzer Inits := do
  match st with
  | .block b => block b s
  | .empty _ => return s
  | .locals d => locals d s
  | .localClass _ d =>
    Visitor.typeDecl d
    return s
  | .expr _ x => Visitor.expr x s
  | .ifElse _ cond yes no =>
    let c ← Visitor.condition cond s
    let t ← Visitor.stmt [] yes c.whenTrue
    match no with
    | none => return t.merge c.whenFalse
    | some no => return t.merge (← Visitor.stmt [] no c.whenFalse)
  | .while _ cond body => whileLoop labels cond body s
  | .doWhile _ body cond => doLoop labels body cond s
  | .for _ init cond update body => forLoop labels init cond update body s
  | .forEach _ d iterable body => forEachLoop labels d iterable body s
  | .labeled _ label body =>
    let (stop, left) ← inFrame (.labeled label.name .dead)
      (Visitor.stmt (labels ++ [label.name]) body s)
    return stop.merge (match left with
      | .labeled _ breaks => breaks
      | _ => .dead)
  | .switch _ selector cases => switchBody selector cases false s
  | .try _ rs body catches last => tryStatement rs body catches last s
  | .sync _ lock body => block body (← Visitor.expr lock s)
  | .assert _ cond message =>
    let c ← Visitor.condition cond s
    let _ ← optional message c.whenFalse
    return s.allowFrom c
  | .return _ value =>
    let s ← optional value s
    match Jump.land .return s (← get).frames with
    | some l => modify fun a => { a with frames := l.frames }
    | none => pure ()
    return .dead
  | .break i label => breakOut i label s
  | .continue i label => continueLoop i label s
  | .yield i value =>
    let s ← Visitor.expr value s
    if ← jump i .yield s then
      return .dead
    report .invalidYield i []
    return s
  | .throw i x =>
    let _ ← Visitor.expr x s
    (← thrownTypes x).forM (thrown i)
    return .dead
  | .constructorCall i isSuper qualifier _ args => constructorCall i isSuper qualifier args s

end Javelin.Flow
