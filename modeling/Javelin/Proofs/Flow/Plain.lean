import Mathlib.Data.List.Flatten
import Javelin.Proofs.Flow.Meaning

/-!
# Plain bodies

The bodies that the theory of runs speaks about: `plain n` holds for trees of at most depth `n`
without lambdas, classes, patterns, assertions and calls of another constructor of the class, in
which the constant conditions are `Idle`. A further condition may be put on the try statements that
have handlers.

`declarations` lists the variables that a tree declares. Each is declared once in a body.
-/

namespace Javelin.Flow

/-! ## Declared variables -/

/-- The variables that a node and the nodes below it declare, outside lambdas and classes. -/
def declarations (p : Program) (n : Node) : List Symbol :=
  let below := n.children.attach.flatMap fun c => declarations p c.1
  match n with
  | .declarator v => (p.declared? v.name).toList ++ below
  | .param q => (p.declared? q.name).toList
  | .expr (.lambda ..) | .typeDecl _ | .type _ | .modifiers _ | .ident _ => []
  | _ => below
termination_by sizeOf n
decreasing_by exact Node.sizeOf_lt_of_mem_children c.2

theorem declarations_eq (p : Program) (n : Node) :
    declarations p n =
      (match n with
      | .declarator v => (p.declared? v.name).toList ++ n.children.flatMap (declarations p)
      | .param q => (p.declared? q.name).toList
      | .expr (.lambda ..) | .typeDecl _ | .type _ | .modifiers _ | .ident _ => []
      | _ => n.children.flatMap (declarations p)) := by
  conv => lhs; unfold declarations
  simp only [List.flatMap_subtype, List.unattach_attach]

@[simp]
theorem declarations_type (p : Program) (t : TypeNode) : declarations p (.type t) = [] := by
  rw [declarations_eq]

@[simp]
theorem declarations_modifiers (p : Program) (m : Modifiers) :
    declarations p (.modifiers m) = [] := by
  rw [declarations_eq]

@[simp]
theorem declarations_ident (p : Program) (n : Ident) : declarations p (.ident n) = [] := by
  rw [declarations_eq]

/-- The variables declared in expressions in order. -/
def declaredInExprs (p : Program) (xs : List Expr) : List Symbol :=
  xs.flatMap fun x => declarations p (.expr x)

@[simp]
theorem declaredInExprs_nil (p : Program) : declaredInExprs p [] = [] := rfl

/-- The variables declared in statements in order. -/
def declaredInStmts (p : Program) (sts : List Stmt) : List Symbol :=
  sts.flatMap fun st => declarations p (.stmt st)

theorem declarations_declarator (p : Program) (v : VarDeclarator) :
    declarations p (.declarator v) =
      (p.declared? v.name).toList ++ declaredInExprs p v.init.toList := by
  rw [declarations_eq]
  cases h : v.init <;> simp [Node.children, declaredInExprs, h]

theorem declarations_expr {p : Program} {x : Expr} (hx : ∀ i ps v b t, x ≠ .lambda i ps v b t) :
    declarations p (.expr x) = (Node.ofExpr x).flatMap (declarations p) := by
  rw [declarations_eq]
  cases x with
  | lambda => exact absurd rfl (hx _ _ _ _ _)
  | _ => rfl

theorem declarations_stmt (p : Program) (st : Stmt) :
    declarations p (.stmt st) = (Node.ofStmt st).flatMap (declarations p) := by
  rw [declarations_eq]
  rfl

theorem declarations_locals (p : Program) (d : VarDecl) :
    declarations p (.stmt (.locals d)) = d.vars.flatMap fun v => declarations p (.declarator v) := by
  rw [declarations_stmt]
  cases h : d.modifiers <;> simp [Node.ofStmt, Node.ofVarDecl, List.flatMap_map, h]

@[simp]
theorem declaredInStmts_single (p : Program) (i : Info) (x : Expr) :
    declaredInStmts p [.expr i x] = declarations p (.expr x) := by
  simp [declaredInStmts, declarations_stmt, Node.ofStmt]

theorem declarations_switchCase (p : Program) (g : SwitchCase) :
    declarations p (.switchCase g) = declaredInExprs p g.labels ++
      (declaredInExprs p g.guard.toList ++ declaredInStmts p g.body) := by
  rw [declarations_eq]
  cases h : g.guard <;>
    simp [Node.children, declaredInExprs, declaredInStmts, List.flatMap_map, h]

theorem declarations_block (p : Program) (b : Block) :
    declarations p (Node.ofBlock b) = declaredInStmts p b.stmts := by
  rw [Node.ofBlock, declarations_stmt]
  simp [Node.ofStmt, declaredInStmts, List.flatMap_map]

theorem declarations_catchClause (p : Program) (g : CatchClause) :
    declarations p (.catchClause g) =
      (p.declared? g.param.name).toList ++ declaredInStmts p g.body.stmts := by
  rw [declarations_eq]
  simp only [Node.children, List.flatMap_cons, List.flatMap_nil, List.append_nil,
    declarations_block]
  rw [declarations_eq]

theorem declarations_for (p : Program) (i : Info) (init : List Stmt) (cond : Option Expr)
    (update : List Expr) (st : Stmt) :
    declarations p (.stmt (.for i init cond update st)) = declaredInStmts p init ++
      (declaredInExprs p cond.toList ++
        (declaredInExprs p update ++ declarations p (.stmt st))) := by
  rw [declarations_stmt]
  cases cond <;> simp [Node.ofStmt, declaredInStmts, declaredInExprs, List.flatMap_map]

theorem declarations_forEach (p : Program) (i : Info) (d : VarDecl) (iterable : Expr) (st : Stmt) :
    declarations p (.stmt (.forEach i d iterable st)) = declarations p (.stmt (.locals d)) ++
      (declarations p (.expr iterable) ++ declarations p (.stmt st)) := by
  rw [declarations_stmt]
  simp [Node.ofStmt, Node.ofLocals]

theorem declarations_try (p : Program) (i : Info) (rs : List Stmt) (b : Block)
    (gs : List CatchClause) (last : Option Block) :
    declarations p (.stmt (.try i rs b gs last)) =
      (((rs.flatMap fun r => declarations p r.resourceNode) ++ declaredInStmts p b.stmts) ++
        gs.flatMap fun g => declarations p (.catchClause g)) ++
          last.toList.flatMap fun l => declaredInStmts p l.stmts := by
  rw [declarations_stmt]
  cases last <;> simp [Node.ofStmt, List.flatMap_map, declarations_block]

/-- The variables of a declaration alone, without those inside the initializers. -/
theorem declared_sublist_locals (p : Program) (d : VarDecl) :
    (d.vars.flatMap fun v => (p.declared? v.name).toList).Sublist
      (declarations p (.stmt (.locals d))) := by
  rw [declarations_locals]
  refine List.Sublist.flatMap_right _ fun v _ => ?_
  rw [declarations_declarator]
  exact List.sublist_append_left _ _

/-- The variables declared in the groups of a switch. -/
def declaredInGroups (p : Program) (gs : List SwitchCase) : List Symbol :=
  gs.flatMap fun g => declarations p (.switchCase g)

theorem declarations_withoutParens (p : Program) (x : Expr) :
    declarations p (.expr x.withoutParens) = declarations p (.expr x) := by
  fun_induction Expr.withoutParens with
  | case1 i y ih => rw [ih, declarations_expr (x := .paren i y) (by simp)]; simp [Node.ofExpr]
  | case2 => rfl

/-- What a statement brings into scope is declared in it. -/
theorem mem_declarations_of_declaredBy {p : Program} {st : Stmt} {v : Symbol}
    (hv : v ∈ declaredBy p st) : v ∈ declarations p (.stmt st) := by
  unfold declaredBy at hv
  split at hv
  · obtain ⟨w, hw, hv⟩ := List.mem_filterMap.1 hv
    rw [declarations_locals, List.mem_flatMap]
    refine ⟨w, hw, ?_⟩
    simp [declarations_declarator, hv]
  · cases hv

theorem mem_declaredInStmts_of_declaredIn {p : Program} {sts : List Stmt} {v : Symbol}
    (hv : v ∈ declaredIn p sts) : v ∈ declaredInStmts p sts := by
  obtain ⟨st, hst, hv⟩ := List.mem_flatMap.1 hv
  exact List.mem_flatMap.2 ⟨st, hst, mem_declarations_of_declaredBy hv⟩

/-! ## Forms -/

/-- Whether an expression is a pattern. -/
def isPattern : Expr → Bool
  | .typePattern .. | .recordPattern .. => true
  | _ => false

/-- Which expressions and statements are meant. -/
structure Forms where
  expr : Expr → Prop
  stmt : Stmt → Prop

namespace Forms

variable (F : Forms)

/-- What an assignment may assign to. -/
def target (x : Expr) : Prop :=
  match x.withoutParens with
  | .name .. => True
  | .field _ owner _ => isThis owner ∨ F.expr owner
  | .index _ array i => F.expr array ∧ F.expr i
  | _ => F.expr x

def block (b : Block) : Prop := ∀ st ∈ b.stmts, F.stmt st

def group (c : SwitchCase) : Prop :=
  (∀ x ∈ c.labels, F.expr x) ∧ c.guard = none ∧ ∀ st ∈ c.body, F.stmt st

def decl (d : VarDecl) : Prop := ∀ v ∈ d.vars, ∀ x ∈ v.init, F.expr x

def resource : Stmt → Prop
  | .locals d => F.decl d
  | .expr _ x => F.expr x
  | _ => False

/-- An expression all of whose parts are meant. -/
def nextExpr : Expr → Prop
  | .paren _ y | .cast _ _ y | .methodRef _ y _ _ => F.expr y
  | .field _ owner _ => isThis owner ∨ F.expr owner
  | .call _ target _ _ args => (∀ x ∈ target, F.expr x) ∧ ∀ x ∈ args, F.expr x
  | .newObject _ outer _ _ args body =>
    (∀ x ∈ outer, F.expr x) ∧ (∀ x ∈ args, F.expr x) ∧ body = none
  | .newArray _ _ dims _ init => (∀ x ∈ dims, F.expr x) ∧ ∀ x ∈ init, F.expr x
  | .arrayInit _ elems => ∀ x ∈ elems, F.expr x
  | .index _ array i => F.expr array ∧ F.expr i
  | .unary _ op y _ => if op = .inc ∨ op = .dec then F.target y else F.expr y
  | .binary _ _ l r => F.expr l ∧ F.expr r
  | .assign _ _ x value => F.target x ∧ F.expr value
  | .conditional _ cond yes no => F.expr cond ∧ F.expr yes ∧ F.expr no
  | .instanceOf _ y _ pattern => F.expr y ∧ pattern = none
  | .switch _ selector cases => F.expr selector ∧ ∀ c ∈ cases, F.group c
  | .lambda .. | .typePattern .. | .recordPattern .. => False
  | _ => True

/-- A statement all of whose parts are meant. `guarded` is the condition on what handlers are for.
-/
def nextStmt (guarded : List Stmt → Block → Prop) : Stmt → Prop
  | .block b => F.block b
  | .locals d => F.decl d
  | .expr _ x | .yield _ x | .throw _ x => F.expr x
  | .ifElse _ cond yes no => F.expr cond ∧ F.stmt yes ∧ ∀ st ∈ no, F.stmt st
  | .while _ cond st | .doWhile _ st cond => F.expr cond ∧ F.stmt st
  | .for _ init cond update st =>
    (∀ st ∈ init, F.stmt st) ∧ (∀ x ∈ cond, F.expr x) ∧ (∀ x ∈ update, F.expr x) ∧ F.stmt st
  | .forEach _ _ iterable st => F.expr iterable ∧ F.stmt st
  | .labeled _ _ st => F.stmt st
  | .switch _ selector cases => F.expr selector ∧ ∀ c ∈ cases, F.group c
  | .try _ rs b catches last =>
    (∀ r ∈ rs, F.resource r) ∧ F.block b ∧ (∀ c ∈ catches, F.block c.body) ∧
      (∀ b ∈ last, F.block b) ∧ (catches ≠ [] → guarded rs b)
  | .sync _ lock b => F.expr lock ∧ F.block b
  | .return _ value => ∀ x ∈ value, F.expr x
  | .constructorCall _ isSuper qualifier _ args =>
    isSuper ∧ (∀ x ∈ qualifier, F.expr x) ∧ ∀ x ∈ args, F.expr x
  | .empty _ | .break .. | .continue .. => True
  | .localClass .. | .assert .. => False

end Forms

/-- Whether an expression touches no variable if it is a constant condition: the values that its
fields are selected from, if any, read and assign none. -/
def Idles (p : Program) [Meaning] (x : Expr) : Prop :=
  ∀ b, p.constantCondition x = some b → ∀ es r, Run.exprs (p.qualifiers x) es r → es = []

/-- The same for trees of any depth. -/
def Idle (p : Program) (x : Expr) : Prop := ∀ k, @Idles p (meaning p k) x

/-- The plain trees of at most the given depth. -/
def plain (p : Program) (guarded : List Stmt → Block → Prop) : Nat → Forms
  | 0 => ⟨fun _ => False, fun _ => False⟩
  | n + 1 =>
    ⟨fun x => Idle p x ∧ (plain p guarded n).nextExpr x, (plain p guarded n).nextStmt guarded⟩

/-! ## Deeper trees -/

/-- What is meant is also meant among more forms. -/
structure Forms.Le (F G : Forms) : Prop where
  expr : ∀ x, F.expr x → G.expr x
  stmt : ∀ st, F.stmt st → G.stmt st

namespace Forms.Le

variable {F G : Forms} (h : F.Le G)
include h

theorem target {x : Expr} (hx : F.target x) : G.target x := by
  unfold Forms.target at *
  split at hx
  · trivial
  · exact hx.imp_right (h.expr _)
  · exact ⟨h.expr _ hx.1, h.expr _ hx.2⟩
  · exact h.expr _ hx

theorem group {c : SwitchCase} (hc : F.group c) : G.group c :=
  ⟨fun x hx => h.expr x (hc.1 x hx), hc.2.1, fun st hst => h.stmt st (hc.2.2 st hst)⟩

theorem decl {d : VarDecl} (hd : F.decl d) : G.decl d :=
  fun v hv x hx => h.expr x (hd v hv x hx)

theorem block {b : Block} (hb : F.block b) : G.block b := fun st hst => h.stmt st (hb st hst)

theorem nextExpr {x : Expr} (hx : F.nextExpr x) : G.nextExpr x := by
  have all : ∀ ys : List Expr, (∀ y ∈ ys, F.expr y) → ∀ y ∈ ys, G.expr y :=
    fun ys hys y hy => h.expr y (hys y hy)
  cases x with
  | paren | cast | methodRef => exact h.expr _ hx
  | field => exact hx.imp_right (h.expr _)
  | call i target => exact ⟨fun y hy => h.expr y (hx.1 y hy), all _ hx.2⟩
  | newObject => exact ⟨fun y hy => h.expr y (hx.1 y hy), all _ hx.2.1, hx.2.2⟩
  | newArray => exact ⟨all _ hx.1, fun y hy => h.expr y (hx.2 y hy)⟩
  | arrayInit => exact all _ hx
  | index | binary => exact ⟨h.expr _ hx.1, h.expr _ hx.2⟩
  | unary i op y =>
    simp only [Forms.nextExpr] at hx ⊢
    split <;> simp_all only [if_true, if_false]
    · exact h.target hx
    · exact h.expr _ hx
  | assign => exact ⟨h.target hx.1, h.expr _ hx.2⟩
  | conditional => exact ⟨h.expr _ hx.1, h.expr _ hx.2.1, h.expr _ hx.2.2⟩
  | instanceOf => exact ⟨h.expr _ hx.1, hx.2⟩
  | switch => exact ⟨h.expr _ hx.1, fun c hc => h.group (hx.2 c hc)⟩
  | lambda | typePattern | recordPattern => exact hx
  | _ => trivial

theorem nextStmt {guarded : List Stmt → Block → Prop} {st : Stmt} (hst : F.nextStmt guarded st) :
    G.nextStmt guarded st := by
  cases st with
  | block => exact h.block hst
  | locals => exact h.decl hst
  | expr | yield | throw => exact h.expr _ hst
  | ifElse => exact ⟨h.expr _ hst.1, h.stmt _ hst.2.1, fun s hs => h.stmt s (hst.2.2 s hs)⟩
  | «while» | doWhile | forEach => exact ⟨h.expr _ hst.1, h.stmt _ hst.2⟩
  | «for» =>
    exact ⟨fun s hs => h.stmt s (hst.1 s hs), fun x hx => h.expr x (hst.2.1 x hx),
      fun x hx => h.expr x (hst.2.2.1 x hx), h.stmt _ hst.2.2.2⟩
  | labeled => exact h.stmt _ hst
  | switch => exact ⟨h.expr _ hst.1, fun c hc => h.group (hst.2 c hc)⟩
  | «try» =>
    obtain ⟨hr, hb, hc, hl, hg⟩ := hst
    refine ⟨fun r hr' => ?_, h.block hb, fun c hc' => h.block (hc c hc'),
      fun b hb' => h.block (hl b hb'), hg⟩
    have := hr r hr'
    unfold resource at *
    split at this
    · exact h.decl this
    · exact h.expr _ this
    · exact this.elim
  | sync => exact ⟨h.expr _ hst.1, h.block hst.2⟩
  | «return» => exact fun x hx => h.expr x (hst x hx)
  | constructorCall =>
    exact ⟨hst.1, fun x hx => h.expr x (hst.2.1 x hx), fun x hx => h.expr x (hst.2.2 x hx)⟩
  | empty | «break» | «continue» => trivial
  | localClass | assert => exact hst

end Forms.Le

theorem plain_le_succ (p : Program) (guarded : List Stmt → Block → Prop) (n : Nat) :
    (plain p guarded n).Le (plain p guarded (n + 1)) := by
  induction n with
  | zero => exact ⟨fun _ => False.elim, fun _ => False.elim⟩
  | succ n ih => exact ⟨fun _ hx => ⟨hx.1, ih.nextExpr hx.2⟩, fun _ => ih.nextStmt⟩

/-- What stands in parentheses is as plain as the whole. -/
theorem plain_withoutParens {p : Program} {guarded : List Stmt → Block → Prop} {n : Nat} {x : Expr}
    (h : (plain p guarded (n + 1)).expr x) : (plain p guarded (n + 1)).expr x.withoutParens := by
  fun_induction Expr.withoutParens with
  | case1 i y ih => exact ih ((plain_le_succ p guarded n).expr y h.2)
  | case2 => exact h

end Javelin.Flow
