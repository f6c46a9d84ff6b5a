import Javelin.Flow.Statements
import Javelin.Proofs.Flow.Behavior

/-!
# What bodies do when they run

The runs of expressions, conditions and statements, seen by what happens to variables. A condition
that is constant has that value, and of its parts only the values that its fields are selected from
are evaluated; any other condition may come out either way, and an exception may arise anywhere.
Lambdas, classes inside bodies, patterns, assertions and calls of another constructor of the class
have no runs here.

The definitions follow the walk of the analysis form by form: `Meaning` stands for the parts of a
tree, and `meaning` ties the knot for trees of at most a given depth.
-/

namespace Javelin.Flow

theorem withoutParens_idem (x : Expr) : x.withoutParens.withoutParens = x.withoutParens := by
  fun_induction Expr.withoutParens with
  | case1 i y ih => exact ih
  | case2 x h => unfold Expr.withoutParens; split <;> simp_all

/-- What is evaluated for a condition that is constant: the values that its fields are selected
from, as far as its operators evaluate their operands. A name in it is written out as what it stands
for, and what has no form of a constant is evaluated as a whole. -/
def Program.qualifiers (p : Program) : Expr → List Expr
  | .literal .. | .name .. => []
  | .paren _ x | .cast _ _ x => p.qualifiers x
  | .unary i op x isPostfix =>
    if op = .inc ∨ op = .dec then [.unary i op x isPostfix] else p.qualifiers x
  | .field _ owner _ => [owner]
  | .binary _ op l r =>
    match op, p.constantCondition l with
    | .condAnd, some false | .condOr, some true => p.qualifiers l
    | _, _ => p.qualifiers l ++ p.qualifiers r
  | .conditional _ cond yes no =>
    p.qualifiers cond ++ match p.constantCondition cond with
      | some b => if b then p.qualifiers yes else p.qualifiers no
      | none => p.qualifiers yes ++ p.qualifiers no
  | x => [x]

/-- The runs of the parts that contain each other. -/
class Meaning where
  expr : Expr → Behavior
  /-- The runs of a condition end with its truth. -/
  condition : Expr → Behavior
  /-- The runs of a statement with the given labels directly before it. -/
  stmt : List Text → Stmt → Behavior

/-- The variables that a statement brings into scope for those after it. -/
def declaredBy (p : Program) : Stmt → List Symbol
  | .locals d => d.vars.filterMap fun v => p.declared? v.name
  | _ => []

def declaredIn (p : Program) (sts : List Stmt) : List Symbol := sts.flatMap (declaredBy p)

namespace Run

open Behavior

variable (p : Program) [Meaning]

def exprs : List Expr → Behavior
  | [] => skip
  | x :: xs => (Meaning.expr x).andThen (exprs xs)

def optional (x : Option Expr) : Behavior := exprs x.toList

/-! ## Variables -/

/-- Reads a name; only local variables matter here. -/
def read (n : Ident) : Behavior :=
  match p.findings.uses[n.info.id]? with
  | some (.var l) => emit [.read (.var l)]
  | _ => skip

/-- Assigns to an expression whose parts are evaluated. -/
def store (target : Expr) : Behavior :=
  match p.target? target, target.withoutParens with
  | some v, _ => emit [.write v]
  | none, .field i _ _ =>
    match p.findings.fields[i.id]? with
    | some f => emit [.store f]
    | none => skip
  | none, _ => skip

def assignment (target : Expr) (value : Option Expr) (isCompound : Bool) : Behavior :=
  match target.withoutParens with
  | .name _ n =>
    (if isCompound then read p n else skip).andThen ((optional value).andThen (store p target))
  | .field _ owner _ =>
    (if isThis owner then skip else Meaning.expr owner).andThen
      ((optional value).andThen (store p target))
  | .index _ array i =>
    (Meaning.expr array).andThen ((Meaning.expr i).andThen (optional value))
  | _ => (Meaning.expr target).andThen (optional value)

/-- Brings a variable into scope that has a value from its declaration on. -/
def bind (name : Ident) : Behavior :=
  match p.declared? name with
  | some v => emit [.enter v, .init v]
  | none => skip

/-- Brings a variable into scope, and evaluates its initializer if it has one. -/
def declarator (v : VarDeclarator) : Behavior :=
  match p.declared? v.name, v.init with
  | some w, none => emit [.enter w]
  | some w, some x => (emit [.enter w]).andThen ((Meaning.expr x).andThen (emit [.init w]))
  | none, none => skip
  | none, some x => Meaning.expr x

def declarators : List VarDeclarator → Behavior
  | [] => skip
  | v :: vs => (declarator p v).andThen (declarators vs)

def binds : List VarDeclarator → Behavior
  | [] => skip
  | v :: vs => (bind p v.name).andThen (binds vs)

/-! ## Statements in order -/

def stmts : List Stmt → Behavior
  | [] => skip
  | st :: rest => (Meaning.stmt [] st).andThen (stmts rest)

def block (b : Block) : Behavior := (stmts b.stmts).within (declaredIn p b.stmts)

/-- A statement inside another one, with the labels directly before it. -/
def body (labels : List Text) (st : Stmt) : Behavior :=
  (Meaning.stmt labels st).within (declaredBy p st)

/-! ## Switches -/

/-- Runs a group of a switch and what follows it. A group with an arrow ends the switch. -/
def group (isExpression : Bool) (c : SwitchCase) (rest : Behavior) : Behavior :=
  (exprs c.labels).andThen <|
    match isExpression && c.isArrow, c.body with
    | true, [.expr _ x] => (Meaning.expr x).andThen (finish (.jump .yield))
    | true, sts => (stmts sts).andThen nothing
    | false, sts =>
      (stmts sts).andThen (if c.isArrow then finish (.jump (.break none)) else rest)

/-- Falls into the first group. A group with an arrow is entered from the selector only. -/
def fall (isExpression : Bool) : List SwitchCase → Behavior
  | [] => skip
  | c :: cs => if c.isArrow then nothing else group isExpression c (fall isExpression cs)

/-- Enters one of the groups from the selector. The variables that the groups before it declare are
in scope and have no values. -/
def enter (isExpression : Bool) (declared : List Symbol) : List SwitchCase → Behavior
  | [] => nothing
  | c :: cs =>
    ((emit (declared.map .enter)).andThen (group isExpression c (fall isExpression cs))).either
      (enter isExpression (declared ++ declaredIn p c.body) cs)

/-- The groups of a switch. A switch statement without a default may do nothing. -/
def groups (isExpression : Bool) (cases : List SwitchCase) : Behavior :=
  ((enter p isExpression [] cases).either
    (if isExpression || cases.any SwitchCase.isDefault then nothing else skip)).within
      (cases.flatMap fun c => declaredIn p c.body)

/-- A switch. Only a value of its own leaves a switch expression. -/
def switch (isExpression : Bool) (selector : Expr) (cases : List SwitchCase) : Behavior :=
  (Meaning.expr selector).andThen
    (if isExpression then ((groups p true cases).absorb (· == .yield)).evaluated
    else (groups p false cases).absorb (· == .break none))

/-! ## Expressions -/

/-- A condition outside parentheses. One that is not made of conditions runs as given. -/
def conditionOr (walk : Behavior) (x : Expr) : Behavior :=
  match p.constantCondition x with
  | some b => (exprs (p.qualifiers x)).andThen (finish (.truth b))
  | none =>
    match x with
    | .unary _ .not y _ => (Meaning.condition y).negated
    | .binary _ .condAnd l r =>
      (Meaning.condition l).branch (Meaning.condition r) (finish (.truth false))
    | .binary _ .condOr l r =>
      (Meaning.condition l).branch (finish (.truth true)) (Meaning.condition r)
    | .conditional _ cond yes no =>
      (Meaning.condition cond).branch (Meaning.condition yes) (Meaning.condition no)
    | _ => walk.guessed

def expr (x : Expr) : Behavior :=
  match x with
  | .paren _ y | .cast _ _ y => Meaning.expr y
  | .name _ n => read p n
  | .field _ owner _ => if isThis owner then skip else Meaning.expr owner
  | .call _ target _ _ args => (optional target).andThen (exprs args)
  | .newObject _ outer _ _ args none => (optional outer).andThen (exprs args)
  | .newArray _ _ dims _ init => (exprs dims).andThen (optional init)
  | .arrayInit _ elems => exprs elems
  | .index _ array i => (Meaning.expr array).andThen (Meaning.expr i)
  | .unary _ op y _ =>
    match op with
    | .inc | .dec => assignment p y none true
    | .not => (conditionOr p skip x).valued
    | _ => Meaning.expr y
  | .binary _ op l r =>
    match op with
    | .condAnd | .condOr => (conditionOr p skip x).valued
    | _ => (Meaning.expr l).andThen (Meaning.expr r)
  | .assign _ op target value => assignment p target (some value) (op != .assign)
  | .conditional _ cond yes no =>
    (Meaning.condition cond).branch (Meaning.expr yes) (Meaning.expr no)
  | .instanceOf _ y _ none => Meaning.expr y
  | .methodRef _ target _ _ => Meaning.expr target
  | .switch _ selector cases => switch p true selector cases
  | .newObject .. | .instanceOf .. | .typePattern .. | .recordPattern .. | .lambda .. => nothing
  | _ => skip

def condition (x : Expr) : Behavior := conditionOr p (expr p x.withoutParens) x.withoutParens

/-! ## Loops -/

/-- The jumps that go on with a loop with the given labels. -/
def continues (labels : List Text) : Jump → Bool
  | .continue label => label.all labels.contains
  | _ => false

/-- The body of a loop with the given labels. -/
def turn (labels : List Text) (st : Stmt) : Behavior := (body p [] st).turn (continues labels)

def whileLoop (labels : List Text) (cond : Expr) (st : Stmt) : Behavior :=
  ((Meaning.condition cond).branch (turn p labels st) (finish (.truth false))).rounds

def doLoop (labels : List Text) (st : Stmt) (cond : Expr) : Behavior :=
  ((turn p labels st).branch (Meaning.condition cond) (finish (.truth false))).rounds

/-- The condition of a loop. One that is left out holds. -/
def test : Option Expr → Behavior
  | some x => Meaning.condition x
  | none => finish (.truth true)

def forLoop (labels : List Text) (init : List Stmt) (cond : Option Expr) (update : List Expr)
    (st : Stmt) : Behavior :=
  let step := (exprs update).andThen (finish (.truth true))
  ((stmts init).andThen
    ((test cond).branch ((turn p labels st).branch step (finish (.truth false)))
      (finish (.truth false))).rounds).within (declaredIn p init)

def forEachLoop (labels : List Text) (d : VarDecl) (iterable : Expr) (st : Stmt) : Behavior :=
  (Meaning.expr iterable).andThen
    ((finish (.truth false)).either
      (((binds p d.vars).andThen (turn p labels st)).within (declaredBy p (.locals d)))).rounds

/-! ## Try statements -/

def resources : List Stmt → Behavior
  | [] => skip
  | .locals d :: rest => (declarators p d.vars).andThen (resources rest)
  | .expr _ x :: rest => (Meaning.expr x).andThen (resources rest)
  | _ :: rest => resources rest

/-- The part of a try statement that its handlers are for; closing a resource may fail. -/
def attempt (rs : List Stmt) (b : Block) : Behavior :=
  (((resources p rs).andThen (block p b)).within (declaredIn p rs)).exposed

def catchBody (c : CatchClause) : Behavior :=
  ((bind p c.param.name).andThen (block p c.body)).within (p.declared? c.param.name).toList

/-- One of the clauses. -/
def catchBodies : List CatchClause → Behavior
  | [] => nothing
  | c :: cs => (catchBody p c).either (catchBodies cs)

def tryCatch (rs : List Stmt) (b : Block) (catches : List CatchClause) : Behavior :=
  (attempt p rs b).handled (catchBodies p catches)

def tryStatement (rs : List Stmt) (b : Block) (catches : List CatchClause) :
    Option Block → Behavior
  | none => tryCatch p rs b catches
  | some last => (tryCatch p rs b catches).ensured (block p last)

/-! ## Statements -/

def stmt (labels : List Text) : Stmt → Behavior
  | .block b => block p b
  | .empty _ => skip
  | .locals d => declarators p d.vars
  | .expr _ x => Meaning.expr x
  | .ifElse _ cond yes no =>
    (Meaning.condition cond).branch (body p [] yes) (match no with
      | none => skip
      | some no => body p [] no)
  | .while _ cond st => whileLoop p labels cond st
  | .doWhile _ st cond => doLoop p labels st cond
  | .for _ init cond update st => forLoop p labels init cond update st
  | .forEach _ d iterable st => forEachLoop p labels d iterable st
  | .labeled _ label st =>
    (body p (labels ++ [label.name]) st).absorb (· == .break (some label.name))
  | .switch _ selector cases => switch p false selector cases
  | .try _ rs b catches last => tryStatement p rs b catches last
  | .sync _ lock b => (Meaning.expr lock).andThen (block p b)
  | .return _ value => (optional value).andThen (finish (.jump .return))
  | .break _ label => finish (.jump (.break (labelName label)))
  | .continue _ label => finish (.jump (.continue (labelName label)))
  | .yield _ value => (Meaning.expr value).andThen (finish (.jump .yield))
  | .throw _ x => (Meaning.expr x).andThen (finish .throw)
  | .constructorCall _ true qualifier _ args => (optional qualifier).andThen (exprs args)
  | .constructorCall .. | .localClass .. | .assert .. => nothing

end Run

/-- The runs of trees of at most the given depth. -/
@[reducible]
def meaning (p : Program) : Nat → Meaning
  | 0 => ⟨fun _ => .nothing, fun _ => .nothing, fun _ _ => .nothing⟩
  | n + 1 =>
    letI := meaning p n
    ⟨fun x => (Run.expr p x).evaluated, fun x => (Run.condition p x).decided,
      fun labels st => (Run.stmt p labels st).exposed⟩

/-- The runs of a block. -/
def Runs (p : Program) (b : Block) : Behavior := fun es r =>
  ∃ k, letI := meaning p k; Run.block p b es r

end Javelin.Flow
