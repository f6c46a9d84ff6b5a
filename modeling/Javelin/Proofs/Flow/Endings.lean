import Javelin.Proofs.Flow.Plain
import Javelin.Proofs.Flow.Throwing

/-!
# How bodies end when they run

The ways in which a run of an expression, condition or statement can end: it completes, jumps or
throws an exception of some class. Nothing else of a run is kept. A condition that is constant has
that value, and of its parts only the values that its fields are selected from are evaluated; any
other may come out either way. A call throws what its method declares, and exceptions that need not
be declared arise anywhere. What a run ends with depends on the exceptions that the parameters of
the clauses around it hold. Lambdas and classes inside bodies have no runs here.

The definitions follow the walk of the analysis form by form: `Ways` stands for the parts of a tree,
and `ways` ties the knot for trees of at most a given depth.
-/

namespace Javelin.Flow

/-- How a run ends. -/
inductive Ending where
  | done
  /-- A condition was evaluated. -/
  | truth (b : Bool)
  | jump (j : Jump)
  | throw (e : TypeId)
deriving DecidableEq

def Ending.isAbrupt : Ending → Bool
  | .jump _ | .throw _ => true
  | _ => false

/-- The ways in which a piece of a body can end. -/
abbrev Endings := Ending → Prop

namespace Endings

/-- There is no run. -/
def nothing : Endings := fun _ => False

def finish (o : Ending) : Endings := fun r => r = o

def skip : Endings := finish .done

/-- The second piece runs if the first completes. -/
def andThen (A B : Endings) : Endings := fun r => (A r ∧ r.isAbrupt) ∨ (A .done ∧ B r)

/-- A condition decides what runs next. -/
def branch (C T F : Endings) : Endings := fun r =>
  (C r ∧ r.isAbrupt) ∨ ∃ b, C (.truth b) ∧ (if b then T else F) r

def either (A B : Endings) : Endings := fun r => A r ∨ B r

/-- A condition for the opposite. -/
def negated (C : Endings) : Endings := fun r =>
  (C r ∧ r.isAbrupt) ∨ ∃ b, C (.truth b) ∧ r = .truth !b

/-- A condition as a value. -/
def valued (C : Endings) : Endings := fun r => (C r ∧ r.isAbrupt) ∨ ∃ b, C (.truth b) ∧ r = .done

/-- A value as a condition; either outcome is possible. -/
def guessed (A : Endings) : Endings := fun r => (A r ∧ r.isAbrupt) ∨ ∃ b, A .done ∧ r = .truth b

/-- The jumps of some kind end here. -/
def absorb (isOwn : Jump → Bool) (A : Endings) : Endings := fun r =>
  (A r ∧ (∀ b, r ≠ .truth b) ∧ ∀ j, r = .jump j → isOwn j = false) ∨
    ∃ j, isOwn j ∧ A (.jump j) ∧ r = .done

/-- The body of a loop, which ends with the truth of whether the loop goes on. -/
def turn (continues : Jump → Bool) (A : Endings) : Endings := fun r =>
  (A.absorb continues .done ∧ r = .truth true) ∨
    (A (.jump (.break none)) ∧ r = .truth false) ∨
    (A.absorb continues r ∧ r.isAbrupt ∧ r ≠ .jump (.break none))

/-- Rounds of a loop. Every round can end like the first one. -/
def rounds (A : Endings) : Endings := fun r =>
  (A (.truth false) ∧ r = .done) ∨ (A r ∧ r.isAbrupt)

/-- A final block runs at the end, however the end is reached; one that completes ends like what
came before. -/
def ensured (A F : Endings) : Endings := fun r =>
  ∃ o, A o ∧ ((F .done ∧ r = o ∧ ∀ b, o ≠ .truth b) ∨ (F r ∧ r.isAbrupt))

variable (X : Exceptions)

/-- One of some exceptions may arise. -/
def raise (ts : List TypeId) : Endings := fun r => r = .done ∨ ∃ e, X.isOneOf e ts ∧ r = .throw e

/-- An exception that need not be declared may arise. -/
def exposed (A : Endings) : Endings := fun r =>
  A r ∨ ∃ e, X.isChecked e = false ∧ r = .throw e

/-- An expression ends with a value or an exception; no jump leaves it. -/
def evaluated (A : Endings) : Endings := fun r =>
  exposed X A r ∧ (r = .done ∨ ∃ e, r = .throw e)

/-- A condition ends with its truth or an exception. -/
def decided (A : Endings) : Endings := fun r =>
  exposed X A r ∧ ((∃ b, r = .truth b) ∨ ∃ e, r = .throw e)

end Endings

/-! ## Handlers and what they hold -/

/-- The exceptions that the parameters of the clauses around a point hold, the innermost first. -/
abbrev Held := List (LocalId × TypeId)

/-- The parameters of the clauses around a point. -/
abbrev Held.names (ρ : Held) : List LocalId := ρ.map Prod.fst

/-- The types of exceptions that a clause names. -/
def handledTypes (p : Program) (c : CatchClause) : List TypeId :=
  let nodes := match c.param.type with
    | some (.union _ alternatives) => alternatives
    | some n => [n]
    | none => []
  nodes.filterMap fun n =>
    let t := p.findings.typeRefs.getD n.info.id .none
    if t.isSome then some t else none

/-- The variable that the parameter of a clause or the name of a declaration declares. -/
def Program.local? (p : Program) (name : Ident) : Option LocalId :=
  match p.findings.defs[name.info.id]? with
  | some (.var l) => some l
  | _ => none

/-- What is held inside a clause that has caught an exception. -/
def Held.catching (ρ : Held) (p : Program) (c : CatchClause) (e : TypeId) : Held :=
  match p.local? c.param.name with
  | some l => (l, e) :: ρ
  | none => ρ

/-- The local variable that an expression names. -/
def Program.named? (p : Program) (x : Expr) : Option LocalId :=
  match x.withoutParens with
  | .name _ n =>
    match p.findings.uses[n.info.id]? with
    | some (.var l) => some l
    | _ => none
  | _ => none

/-- The exception that an expression stands for because it names a parameter of a clause. -/
def Exceptions.held? (X : Exceptions) (p : Program) (ρ : Held) (x : Expr) : Option TypeId :=
  match p.named? x with
  | some l => if X.isFixed l then ρ.lookup l else none
  | none => none

/-- Whether a throw statement for an expression can throw an exception. -/
def Exceptions.MayThrow (X : Exceptions) (p : Program) (ρ : Held) (x : Expr) (e : TypeId) : Prop :=
  match X.held? p ρ x with
  | some e' => e = e'
  | none => X.isSub e (p.findings.typeOf x.info)

/-- The exceptions of closing a resource. -/
def Exceptions.closings (X : Exceptions) (p : Program) : Stmt → List TypeId
  | .locals d => (d.vars.filterMap fun v => p.local? v.name).flatMap fun l => X.closing (X.localType l)
  | .expr _ x => X.closing (p.findings.typeOf x.info)
  | _ => []

/-- Whether a group of a switch takes all values that are left. -/
def isTotal (c : SwitchCase) : Bool := c.isDefault || c.labels.any isPattern

/-! ## Forms -/

/-- The endings of the parts that contain each other. -/
class Ways where
  expr : Held → Expr → Endings
  /-- A condition ends with its truth. -/
  condition : Held → Expr → Endings
  /-- A statement with the given labels directly before it. -/
  stmt : Held → List Text → Stmt → Endings

namespace Way

open Endings

variable (X : Exceptions) (p : Program) [Ways] (ρ : Held)

def exprs : List Expr → Endings
  | [] => skip
  | x :: xs => (Ways.expr ρ x).andThen (exprs xs)

def optional (x : Option Expr) : Endings := exprs ρ x.toList

/-- The invocation that stands at a node. -/
def call (i : Info) : Endings :=
  match p.findings.methods[i.id]? with
  | some m => raise X (X.throws m)
  | none => skip

def assignment (target : Expr) (value : Option Expr) : Endings :=
  match target.withoutParens with
  | .name .. => optional ρ value
  | .field _ owner _ =>
    (if isThis owner then skip else Ways.expr ρ owner).andThen (optional ρ value)
  | .index _ array i => (Ways.expr ρ array).andThen ((Ways.expr ρ i).andThen (optional ρ value))
  | _ => (Ways.expr ρ target).andThen (optional ρ value)

def declarators : List VarDeclarator → Endings
  | [] => skip
  | v :: vs => (optional ρ v.init).andThen (declarators vs)

def stmts : List Stmt → Endings
  | [] => skip
  | st :: rest => (Ways.stmt ρ [] st).andThen (stmts rest)

def block (b : Block) : Endings := stmts ρ b.stmts

/-! ## Switches -/

/-- A group is left out if its guard does not hold. -/
def guarded (guard : Option Expr) (A : Endings) : Endings :=
  match guard with
  | some g => (Ways.condition ρ g).branch A nothing
  | none => A

/-- What follows the statements of a group. A group with an arrow ends the switch. -/
def afterGroup (isExpression : Bool) (c : SwitchCase) (rest : Endings) : Endings :=
  if c.isArrow then (if isExpression then nothing else finish (.jump (.break none))) else rest

def groupBody (isExpression : Bool) (c : SwitchCase) (rest : Endings) : Endings :=
  match isExpression && c.isArrow, c.body with
  | true, [.expr _ x] => (Ways.expr ρ x).andThen (finish (.jump .yield))
  | _, sts => (stmts ρ sts).andThen (afterGroup isExpression c rest)

/-- Runs a group of a switch and what follows it. -/
def group (isExpression : Bool) (c : SwitchCase) (rest : Endings) : Endings :=
  (exprs ρ c.labels).andThen (guarded ρ c.guard (groupBody ρ isExpression c rest))

/-- Falls into the first group. A group with an arrow is entered from the selector only. -/
def fall (isExpression : Bool) : List SwitchCase → Endings
  | [] => skip
  | c :: cs => if c.isArrow then nothing else group ρ isExpression c (fall isExpression cs)

/-- Enters one of the groups from the selector. -/
def enter (isExpression : Bool) : List SwitchCase → Endings
  | [] => nothing
  | c :: cs => (group ρ isExpression c (fall ρ isExpression cs)).either (enter isExpression cs)

/-- The groups of a switch. A switch statement that is not total may do nothing. -/
def groups (isExpression : Bool) (cases : List SwitchCase) : Endings :=
  (enter ρ isExpression cases).either
    (if isExpression || cases.any isTotal then nothing else skip)

/-- A switch. Only a value of its own leaves a switch expression. -/
def switch (isExpression : Bool) (selector : Expr) (cases : List SwitchCase) : Endings :=
  (Ways.expr ρ selector).andThen
    (if isExpression then ((groups ρ true cases).absorb (· == .yield)).evaluated X
    else (groups ρ false cases).absorb (· == .break none))

/-! ## Expressions -/

/-- A condition outside parentheses. One that is not made of conditions runs as given. -/
def conditionOr (walk : Endings) (x : Expr) : Endings :=
  match p.constantCondition x with
  | some b => (exprs ρ (p.qualifiers x)).andThen (finish (.truth b))
  | none =>
    match x with
    | .unary _ .not y _ => (Ways.condition ρ y).negated
    | .binary _ .condAnd l r =>
      (Ways.condition ρ l).branch (Ways.condition ρ r) (finish (.truth false))
    | .binary _ .condOr l r =>
      (Ways.condition ρ l).branch (finish (.truth true)) (Ways.condition ρ r)
    | .conditional _ cond yes no =>
      (Ways.condition ρ cond).branch (Ways.condition ρ yes) (Ways.condition ρ no)
    | _ => walk.guessed

def expr (x : Expr) : Endings :=
  match x with
  | .paren _ y | .cast _ _ y => Ways.expr ρ y
  | .field _ owner _ => if isThis owner then skip else Ways.expr ρ owner
  | .call i target _ _ args => (optional ρ target).andThen ((exprs ρ args).andThen (call X p i))
  | .newObject i outer _ _ args none =>
    (optional ρ outer).andThen ((exprs ρ args).andThen (call X p i))
  | .newArray _ _ dims _ init => (exprs ρ dims).andThen (optional ρ init)
  | .arrayInit _ elems => exprs ρ elems
  | .index _ array i => (Ways.expr ρ array).andThen (Ways.expr ρ i)
  | .unary _ op y _ =>
    match op with
    | .inc | .dec => assignment ρ y none
    | .not => (conditionOr p ρ skip x).valued
    | _ => Ways.expr ρ y
  | .binary _ op l r =>
    match op with
    | .condAnd | .condOr => (conditionOr p ρ skip x).valued
    | _ => (Ways.expr ρ l).andThen (Ways.expr ρ r)
  | .assign _ _ target value => assignment ρ target (some value)
  | .conditional _ cond yes no =>
    (Ways.condition ρ cond).branch (Ways.expr ρ yes) (Ways.expr ρ no)
  | .instanceOf _ y _ pattern => (Ways.expr ρ y).andThen (optional ρ pattern)
  | .recordPattern _ _ subs => exprs ρ subs
  | .methodRef _ target _ _ => Ways.expr ρ target
  | .switch _ selector cases => switch X ρ true selector cases
  | .newObject .. | .lambda .. => nothing
  | _ => skip

def condition (x : Expr) : Endings := conditionOr p ρ (expr X p ρ x.withoutParens) x.withoutParens

/-! ## Loops -/

/-- The body of a loop with the given labels. -/
def turn (labels : List Text) (st : Stmt) : Endings :=
  (Ways.stmt ρ [] st).turn (Run.continues labels)

def whileLoop (labels : List Text) (cond : Expr) (st : Stmt) : Endings :=
  ((Ways.condition ρ cond).branch (turn ρ labels st) (finish (.truth false))).rounds

def doLoop (labels : List Text) (st : Stmt) (cond : Expr) : Endings :=
  ((turn ρ labels st).branch (Ways.condition ρ cond) (finish (.truth false))).rounds

/-- The condition of a loop. One that is left out holds. -/
def test : Option Expr → Endings
  | some x => Ways.condition ρ x
  | none => finish (.truth true)

def forLoop (labels : List Text) (init : List Stmt) (cond : Option Expr) (update : List Expr)
    (st : Stmt) : Endings :=
  let step := (exprs ρ update).andThen (finish (.truth true))
  (stmts ρ init).andThen
    ((test ρ cond).branch ((turn ρ labels st).branch step (finish (.truth false)))
      (finish (.truth false))).rounds

def forEachLoop (labels : List Text) (iterable : Expr) (st : Stmt) : Endings :=
  (Ways.expr ρ iterable).andThen ((finish (.truth false)).either (turn ρ labels st)).rounds

/-! ## Try statements -/

/-- Acquires a resource. It is closed last, but from here on closing it may fail. -/
def resource (r : Stmt) : Endings :=
  (match r with
    | .locals d => declarators ρ d.vars
    | .expr _ x => Ways.expr ρ x
    | _ => skip).andThen (raise X (X.closings p r))

def resources : List Stmt → Endings
  | [] => skip
  | r :: rest => (resource X p ρ r).andThen (resources rest)

/-- The part of a try statement that its handlers are for. -/
def attempt (rs : List Stmt) (b : Block) : Endings := (resources X p ρ rs).andThen (block ρ b)

/-- The clause that catches an exception. -/
def clauseFor (catches : List CatchClause) (e : TypeId) : Option CatchClause :=
  catches.find? fun c => X.isOneOf e (handledTypes p c)

def catchBody (c : CatchClause) (e : TypeId) : Endings := block (ρ.catching p c e) c.body

/-- What the clauses catch of some endings, and what they leave. -/
def handled (catches : List CatchClause) (A : Endings) : Endings := fun r =>
  (A r ∧ (∀ b, r ≠ .truth b) ∧ ∀ e, r = .throw e → clauseFor X p catches e = none) ∨
    ∃ e c, A (.throw e) ∧ clauseFor X p catches e = some c ∧ catchBody p ρ c e r

def tryCatch (rs : List Stmt) (b : Block) (catches : List CatchClause) : Endings :=
  handled X p ρ catches (attempt X p ρ rs b)

def tryStatement (rs : List Stmt) (b : Block) (catches : List CatchClause) :
    Option Block → Endings
  | none => tryCatch X p ρ rs b catches
  | some last => (tryCatch X p ρ rs b catches).ensured (block ρ last)

/-! ## Statements -/

def stmt (labels : List Text) : Stmt → Endings
  | .block b => block ρ b
  | .empty _ => skip
  | .locals d => declarators ρ d.vars
  | .expr _ x => Ways.expr ρ x
  | .ifElse _ cond yes no =>
    (Ways.condition ρ cond).branch (Ways.stmt ρ [] yes) (match no with
      | none => skip
      | some no => Ways.stmt ρ [] no)
  | .while _ cond st => whileLoop ρ labels cond st
  | .doWhile _ st cond => doLoop ρ labels st cond
  | .for _ init cond update st => forLoop ρ labels init cond update st
  | .forEach _ _ iterable st => forEachLoop ρ labels iterable st
  | .labeled _ label st =>
    (Ways.stmt ρ (labels ++ [label.name]) st).absorb (· == .break (some label.name))
  | .switch _ selector cases => switch X ρ false selector cases
  | .try _ rs b catches last => tryStatement X p ρ rs b catches last
  | .sync _ lock b => (Ways.expr ρ lock).andThen (block ρ b)
  | .assert _ cond message =>
    skip.either ((Ways.condition ρ cond).branch skip ((optional ρ message).andThen nothing))
  | .return _ value => (optional ρ value).andThen (finish (.jump .return))
  | .break _ label => finish (.jump (.break (labelName label)))
  | .continue _ label => finish (.jump (.continue (labelName label)))
  | .yield _ value => (Ways.expr ρ value).andThen (finish (.jump .yield))
  | .throw _ x => (Ways.expr ρ x).andThen fun r => ∃ e, X.MayThrow p ρ x e ∧ r = .throw e
  | .constructorCall i _ qualifier _ args =>
    (optional ρ qualifier).andThen ((exprs ρ args).andThen (call X p i))
  | .localClass .. => nothing

end Way

/-- The endings of trees of at most the given depth. -/
@[reducible]
def ways (X : Exceptions) (p : Program) : Nat → Ways
  | 0 => ⟨fun _ _ => .nothing, fun _ _ => .nothing, fun _ _ _ => .nothing⟩
  | n + 1 =>
    letI := ways X p n
    ⟨fun ρ x => (Way.expr X p ρ x).evaluated X, fun ρ x => (Way.condition X p ρ x).decided X,
      fun ρ labels st => (Way.stmt X p ρ labels st).exposed X⟩

/-- The endings of something that is made of trees of any depth. -/
def Leaves (X : Exceptions) (p : Program) (A : Ways → Endings) : Endings := fun r =>
  ∃ k, A (ways X p k) r

end Javelin.Flow
