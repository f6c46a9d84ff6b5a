import Javelin.Proofs.Flow.Meaning

/-!
# What a run can assign

`settling_meaning`: a run of an expression, a condition or a statement assigns at most the variables
that `assignmentTargets` finds in it, and all variables that come into scope leave it again, except
those that a declaration brings in for the statements after it.

The proof goes through the forms in the order of `Meaning`; `Covered` carries the targets of the
parts up to the whole.
-/

namespace Javelin.Flow

/-! ## Assigned variables -/

/-- Whether an assignment inside a node changes a variable. -/
def Assigns (p : Program) (n : Node) (v : Symbol) : Prop :=
  ∃ t ∈ assignmentTargets n, p.target? t = some v

/-- Whether `W` holds for all variables that are assigned inside a node. -/
def Covered (p : Program) (W : Symbol → Prop) (n : Node) : Prop := ∀ v, Assigns p n v → W v

/-- Whether the parts of a node are left out of the search for assignments. -/
def isSealed : Node → Bool
  | .expr (.lambda ..) | .typeDecl _ => true
  | _ => false

theorem assignmentTargets_eq (n : Node) :
    assignmentTargets n =
      (match n with
      | .expr (.lambda ..) | .typeDecl _ => []
      | .expr (.assign _ _ target _) => target :: n.children.flatMap assignmentTargets
      | .expr (.unary _ op x _) =>
        if op == .inc || op == .dec then x :: n.children.flatMap assignmentTargets
        else n.children.flatMap assignmentTargets
      | _ => n.children.flatMap assignmentTargets) := by
  have hbelow : (n.children.attach.flatMap fun c => assignmentTargets c.1) =
      n.children.flatMap assignmentTargets := by
    simp only [List.flatMap_subtype, List.unattach_attach]
  conv => lhs; unfold assignmentTargets
  exact hbelow ▸ rfl

variable {p : Program} {W : Symbol → Prop} {D : List Symbol}

/-- The targets inside a child are inside the parent. -/
theorem mem_assignmentTargets_of_child {c n : Node} {t : Expr} (hn : isSealed n = false)
    (hc : c ∈ n.children) (ht : t ∈ assignmentTargets c) : t ∈ assignmentTargets n := by
  have below : t ∈ n.children.flatMap assignmentTargets := List.mem_flatMap.2 ⟨c, hc, ht⟩
  rw [assignmentTargets_eq]
  unfold isSealed at hn
  split at hn
  · simp at hn
  · simp at hn
  · split
    · rename_i h _
      exact absurd rfl (h _ _ _ _ _)
    · rename_i h
      exact absurd rfl (h _)
    · exact List.mem_cons_of_mem _ below
    · split
      · exact List.mem_cons_of_mem _ below
      · exact below
    · exact below

theorem Covered.child {c n : Node} (h : Covered p W n) (hn : isSealed n = false)
    (hc : c ∈ n.children) : Covered p W c := by
  rintro v ⟨t, ht, hv⟩
  exact h v ⟨t, mem_assignmentTargets_of_child hn hc ht, hv⟩

theorem Covered.self (n : Node) : Covered p (Assigns p n) n := fun _ h => h

theorem Covered.expr {x y : Expr} (h : Covered p W (.expr x)) (hx : isSealed (.expr x) = false)
    (hy : .expr y ∈ Node.ofExpr x) : Covered p W (.expr y) :=
  h.child hx hy

/-- Parentheses hide no assignment. -/
theorem Covered.withoutParens {x : Expr} (h : Covered p W (.expr x)) :
    Covered p W (.expr x.withoutParens) := by
  fun_induction Expr.withoutParens with
  | case1 i y ih => exact ih (h.expr rfl (by simp [Node.ofExpr]))
  | case2 => exact h

/-- What is evaluated for a constant condition assigns nothing but what the condition does. -/
theorem Covered.qualifiers {x y : Expr} (h : Covered p W (.expr x)) (hy : y ∈ p.qualifiers x) :
    Covered p W (.expr y) := by
  fun_induction Program.qualifiers p x with
  | case1 | case2 => cases hy
  | case3 _ _ ih | case4 _ _ _ ih | case6 _ _ _ _ _ ih =>
    exact ih (h.expr rfl (by simp [Node.ofExpr])) hy
  | case7 =>
    obtain rfl := List.mem_singleton.1 hy
    exact h.expr rfl (by simp [Node.ofExpr])
  | case8 _ _ _ _ ih | case9 _ _ _ _ ih => exact ih (h.expr rfl (by simp [Node.ofExpr])) hy
  | case10 _ _ _ _ _ _ ihl ihr =>
    obtain hy | hy := List.mem_append.1 hy
    · exact ihl (h.expr rfl (by simp [Node.ofExpr])) hy
    · exact ihr (h.expr rfl (by simp [Node.ofExpr])) hy
  | case11 _ cond yes no ihc ihy ihn =>
    have ihy := ihy (h.expr rfl (by simp [Node.ofExpr]))
    have ihn := ihn (h.expr rfl (by simp [Node.ofExpr]))
    obtain hy | hy := List.mem_append.1 hy
    · exact ihc (h.expr rfl (by simp [Node.ofExpr])) hy
    · split at hy
      · split at hy
        · exact ihy hy
        · exact ihn hy
      · exact (List.mem_append.1 hy).elim ihy ihn
  | case5 | case12 =>
    obtain rfl := List.mem_singleton.1 hy
    exact h

/-! ## Parts -/

/-- What the parts of a tree may change. -/
structure Settling (p : Program) [Meaning] : Prop where
  expr : ∀ x, (Meaning.expr x).Settles (Assigns p (.expr x)) []
  condition : ∀ x, (Meaning.condition x).Settles (Assigns p (.expr x)) []
  stmt : ∀ labels st, (Meaning.stmt labels st).Settles (Assigns p (.stmt st)) (declaredBy p st)

namespace Settling

open Behavior

theorem read (n : Ident) : (Run.read p n).Settles W D := by
  unfold Run.read
  split
  · exact settles_read _
  · exact settles_finish _

theorem store {target : Expr} (ht : ∀ v, p.target? target = some v → W v) :
    (Run.store p target).Settles W D := by
  unfold Run.store
  split
  · rename_i hv
    exact settles_write (ht _ hv)
  · split
    · exact settles_store _
    · exact settles_finish _
  · exact settles_finish _

theorem bind {name : Ident} (hD : ∀ v, p.declared? name = some v → v ∈ D) :
    (Run.bind p name).Settles W D := by
  unfold Run.bind
  split
  · rename_i v hv
    refine settles_emit fun e he w st => ?_
    have := hD v hv
    simp only [List.mem_cons, List.not_mem_nil, or_false] at he
    obtain rfl | rfl := he <;> simp only [Event.effect] <;> grind
  · exact settles_finish _

theorem binds {vs : List VarDeclarator}
    (hD : ∀ v ∈ vs, ∀ w, p.declared? v.name = some w → w ∈ D) : (Run.binds p vs).Settles W D := by
  induction vs with
  | nil => exact settles_finish _
  | cons v vs ih =>
    have first : (Run.bind p v.name).Settles W D := bind (hD v List.mem_cons_self)
    exact first.andThen (ih fun u hu => hD u (List.mem_cons_of_mem _ hu))

variable [Meaning] (h : Settling p)
include h

theorem ofExpr {x : Expr} (hx : Covered p W (.expr x)) : (Meaning.expr x).Settles W D :=
  (h.expr x).mono hx (by simp)

theorem ofCondition {x : Expr} (hx : Covered p W (.expr x)) :
    (Meaning.condition x).Settles W D :=
  (h.condition x).mono hx (by simp)

theorem ofStmt {labels : List Text} {st : Stmt} (hst : Covered p W (.stmt st))
    (hD : ∀ v ∈ declaredBy p st, v ∈ D) : (Meaning.stmt labels st).Settles W D :=
  (h.stmt labels st).mono hst hD

theorem exprs {xs : List Expr} (hxs : ∀ x ∈ xs, Covered p W (.expr x)) :
    (Run.exprs xs).Settles W D := by
  induction xs with
  | nil => exact settles_finish _
  | cons x xs ih =>
    have first := h.ofExpr (D := D) (hxs x List.mem_cons_self)
    exact first.andThen (ih fun y hy => hxs y (List.mem_cons_of_mem _ hy))

theorem optional {x : Option Expr} (hx : ∀ y ∈ x, Covered p W (.expr y)) :
    (Run.optional x).Settles W D :=
  h.exprs (by simpa using hx)

theorem assignment {target : Expr} {value : Option Expr} {isCompound : Bool}
    (hT : Covered p W (.expr target)) (hv : ∀ y ∈ value, Covered p W (.expr y))
    (ht : ∀ v, p.target? target = some v → W v) :
    (Run.assignment p target value isCompound).Settles W D := by
  have inner := hT.withoutParens
  have assigns : ((Run.optional value).andThen (Run.store p target)).Settles W D :=
    (h.optional hv).andThen (store ht)
  unfold Run.assignment
  split
  · refine Settles.andThen ?_ assigns
    split
    · exact read _
    · exact settles_finish _
  · rename_i hx
    rw [hx] at inner
    refine Settles.andThen ?_ assigns
    split
    · exact settles_finish _
    · exact h.ofExpr (inner.expr rfl (by simp [Node.ofExpr]))
  · rename_i hx
    rw [hx] at inner
    have array := h.ofExpr (D := D) (inner.expr (y := _) rfl (by simp [Node.ofExpr]; exact .inl rfl))
    exact array.andThen
      ((h.ofExpr (inner.expr rfl (by simp [Node.ofExpr]))).andThen (h.optional hv))
  · exact (h.ofExpr hT).andThen (h.optional hv)

/-! ## Declarations and statements in order -/

theorem declarator {v : VarDeclarator} (hW : Covered p W (.declarator v))
    (hD : ∀ w, p.declared? v.name = some w → w ∈ D) : (Run.declarator p v).Settles W D := by
  have init : ∀ x ∈ v.init, Covered p W (.expr x) := fun x hx =>
    hW.child rfl (by simp [Node.children, Option.mem_def.1 hx])
  have enters : ∀ w, p.declared? v.name = some w → (emit ([w].map .enter)).Settles W D :=
    fun w hw => settles_enter (by simpa using hD w hw)
  unfold Run.declarator
  split
  · rename_i w hw _
    exact enters w hw
  · rename_i w x hw hx
    exact (enters w hw).andThen ((h.ofExpr (init x hx)).andThen (settles_init (hD w hw)))
  · exact settles_finish _
  · rename_i x _ hx
    exact h.ofExpr (init x hx)

theorem declarators {vs : List VarDeclarator} (hW : ∀ v ∈ vs, Covered p W (.declarator v))
    (hD : ∀ v ∈ vs, ∀ w, p.declared? v.name = some w → w ∈ D) :
    (Run.declarators p vs).Settles W D := by
  induction vs with
  | nil => exact settles_finish _
  | cons v vs ih =>
    have first := h.declarator (hW v List.mem_cons_self) (hD v List.mem_cons_self)
    exact first.andThen (ih (fun u hu => hW u (List.mem_cons_of_mem _ hu))
      fun u hu => hD u (List.mem_cons_of_mem _ hu))

theorem stmts {sts : List Stmt} (hW : ∀ st ∈ sts, Covered p W (.stmt st))
    (hD : ∀ v ∈ declaredIn p sts, v ∈ D) : (Run.stmts sts).Settles W D := by
  induction sts with
  | nil => exact settles_finish _
  | cons st rest ih =>
    simp only [declaredIn, List.flatMap_cons, List.mem_append] at hD
    have first : (Meaning.stmt [] st).Settles W D :=
      h.ofStmt (hW st List.mem_cons_self) fun v hv => hD v (.inl hv)
    exact first.andThen (ih (fun u hu => hW u (List.mem_cons_of_mem _ hu))
      fun v hv => hD v (.inr hv))

theorem block {b : Block} (hW : Covered p W (Node.ofBlock b)) :
    (Run.block p b).Settles W [] := by
  refine Settles.within (h.stmts (fun st hst => hW.child rfl ?_) fun v hv => hv)
  simpa [Node.ofBlock, Node.children, Node.ofStmt] using hst

theorem body {labels : List Text} {st : Stmt} (hW : Covered p W (.stmt st)) :
    (Run.body p labels st).Settles W [] :=
  Settles.within (h.ofStmt hW fun _ hv => hv)

/-! ## Switches -/

theorem group {isExpression : Bool} {c : SwitchCase} {rest : Behavior}
    (hW : Covered p W (.switchCase c)) (hD : ∀ v ∈ declaredIn p c.body, v ∈ D)
    (hr : rest.Settles W D) : (Run.group isExpression c rest).Settles W D := by
  have labels : (Run.exprs c.labels).Settles W D :=
    h.exprs fun x hx => hW.child rfl (by simp [Node.children, hx])
  have part : ∀ st ∈ c.body, Covered p W (.stmt st) := fun st hst =>
    hW.child rfl (by simp [Node.children, hst])
  have whole : (Run.stmts c.body).Settles W D := h.stmts part hD
  unfold Run.group
  refine labels.andThen ?_
  split
  · rename_i i x _ hb
    have only : Covered p W (.stmt (.expr i x)) := part _ (by simp [hb])
    exact (h.ofExpr (only.child rfl (by simp [Node.children, Node.ofStmt]))).andThen
      (settles_finish _)
  · exact whole.andThen settles_nothing
  · refine whole.andThen ?_
    split
    · exact settles_finish _
    · exact hr

theorem fall {isExpression : Bool} {cs : List SwitchCase}
    (hW : ∀ c ∈ cs, Covered p W (.switchCase c))
    (hD : ∀ c ∈ cs, ∀ v ∈ declaredIn p c.body, v ∈ D) :
    (Run.fall isExpression cs).Settles W D := by
  induction cs with
  | nil => exact settles_finish _
  | cons c cs ih =>
    have rest := ih (fun d hd => hW d (List.mem_cons_of_mem _ hd))
      fun d hd => hD d (List.mem_cons_of_mem _ hd)
    unfold Run.fall
    split
    · exact settles_nothing
    · exact h.group (hW c List.mem_cons_self) (hD c List.mem_cons_self) rest

theorem enter {isExpression : Bool} {declared : List Symbol} {cs : List SwitchCase}
    (hW : ∀ c ∈ cs, Covered p W (.switchCase c))
    (hD : ∀ c ∈ cs, ∀ v ∈ declaredIn p c.body, v ∈ D) (hd : ∀ v ∈ declared, v ∈ D) :
    (Run.enter p isExpression declared cs).Settles W D := by
  induction cs generalizing declared with
  | nil => exact settles_nothing
  | cons c cs ih =>
    have hW' := fun d hd => hW d (List.mem_cons_of_mem c hd)
    have hD' := fun d hd => hD d (List.mem_cons_of_mem c hd)
    have falls : (Run.fall isExpression cs).Settles W D := h.fall hW' hD'
    have own : (Run.group isExpression c (Run.fall isExpression cs)).Settles W D :=
      h.group (hW c List.mem_cons_self) (hD c List.mem_cons_self) falls
    refine Settles.either ((settles_enter hd).andThen own) (ih hW' hD' fun v hv => ?_)
    obtain hv | hv := List.mem_append.1 hv
    · exact hd v hv
    · exact hD c List.mem_cons_self v hv

theorem groups {isExpression : Bool} {cs : List SwitchCase}
    (hW : ∀ c ∈ cs, Covered p W (.switchCase c)) :
    (Run.groups p isExpression cs).Settles W [] := by
  refine Settles.within (Settles.either (h.enter hW (fun c hc v hv => ?_) (by simp)) ?_)
  · exact List.mem_flatMap.2 ⟨c, hc, hv⟩
  · split
    · exact settles_nothing
    · exact settles_finish _

theorem switch {isExpression : Bool} {selector : Expr} {cs : List SwitchCase}
    (hs : Covered p W (.expr selector)) (hW : ∀ c ∈ cs, Covered p W (.switchCase c)) :
    (Run.switch p isExpression selector cs).Settles W D := by
  refine (h.ofExpr hs).andThen ?_
  split
  · exact ((h.groups hW).mono (fun _ hv => hv) (by simp)).absorb.evaluated
  · exact ((h.groups hW).mono (fun _ hv => hv) (by simp)).absorb

/-! ## Expressions -/

theorem conditionOr {walk : Behavior} {x : Expr} (hx : Covered p W (.expr x))
    (hw : walk.Settles W D) : (Run.conditionOr p walk x).Settles W D := by
  have part : ∀ y, isSealed (.expr x) = false → .expr y ∈ Node.ofExpr x →
      (Meaning.condition y).Settles W D := fun y hs hy => h.ofCondition (hx.expr hs hy)
  unfold Run.conditionOr
  split
  · exact (h.exprs fun y hy => hx.qualifiers hy).andThen (settles_finish _)
  · split
    · exact (part _ rfl (by simp [Node.ofExpr])).negated
    · exact (part _ rfl (by simp [Node.ofExpr])).branch
        (part _ rfl (by simp [Node.ofExpr])) (settles_finish _)
    · exact (part _ rfl (by simp [Node.ofExpr])).branch (settles_finish _)
        (part _ rfl (by simp [Node.ofExpr]))
    · rename_i cond yes no _
      exact (part cond rfl (by simp [Node.ofExpr])).branch (part yes rfl (by simp [Node.ofExpr]))
        (part no rfl (by simp [Node.ofExpr]))
    · exact hw.guessed

theorem runExpr {x : Expr} (hx : Covered p W (.expr x)) : (Run.expr p x).Settles W D := by
  have part : ∀ y, isSealed (.expr x) = false → .expr y ∈ Node.ofExpr x →
      (Meaning.expr y).Settles W D := fun y hs hy => h.ofExpr (hx.expr hs hy)
  have parts : ∀ ys : List Expr, isSealed (.expr x) = false →
      (∀ y ∈ ys, .expr y ∈ Node.ofExpr x) → (Run.exprs ys).Settles W D :=
    fun ys hs hys => h.exprs fun y hy => hx.expr hs (hys y hy)
  cases x with
  | paren i y => exact part y rfl (by simp [Node.ofExpr])
  | cast i t y => exact part y rfl (by simp [Node.ofExpr])
  | name i n => exact read n
  | field i owner n =>
    simp only [Run.expr]
    split
    · exact settles_finish _
    · exact part owner rfl (by simp [Node.ofExpr])
  | call i target ts n args =>
    exact (parts target.toList rfl (by simp +contextual [Node.ofExpr])).andThen
      (parts args rfl (by simp +contextual [Node.ofExpr]))
  | newObject i outer ts t args b =>
    cases b with
    | none =>
      exact (parts outer.toList rfl (by simp +contextual [Node.ofExpr])).andThen
        (parts args rfl (by simp +contextual [Node.ofExpr]))
    | some d => exact settles_nothing
  | newArray i elem dims extra init =>
    exact (parts dims rfl (by simp +contextual [Node.ofExpr])).andThen
      (parts init.toList rfl (by simp +contextual [Node.ofExpr]))
  | arrayInit i elems => exact parts elems rfl (by simp +contextual [Node.ofExpr])
  | index i array y =>
    exact (part array rfl (by simp [Node.ofExpr])).andThen (part y rfl (by simp [Node.ofExpr]))
  | unary i op y isPostfix =>
    simp only [Run.expr]
    have inner := hx.expr (y := y) rfl (by simp [Node.ofExpr])
    have target : op = .inc ∨ op = .dec → ∀ v, p.target? y = some v → W v := by
      intro hop v hv
      refine hx v ⟨y, ?_, hv⟩
      rw [assignmentTargets_eq]
      obtain rfl | rfl := hop <;> exact List.mem_cons_self
    split
    · exact h.assignment inner (by simp) (target (.inl rfl))
    · exact h.assignment inner (by simp) (target (.inr rfl))
    · exact (h.conditionOr hx (settles_finish _)).valued
    · exact h.ofExpr inner
  | binary i op l r =>
    simp only [Run.expr]
    split
    · exact (h.conditionOr hx (settles_finish _)).valued
    · exact (h.conditionOr hx (settles_finish _)).valued
    · exact (part l rfl (by simp [Node.ofExpr])).andThen (part r rfl (by simp [Node.ofExpr]))
  | assign i op target value =>
    refine h.assignment (hx.expr rfl (by simp [Node.ofExpr])) (fun y hy => ?_) fun v hv => ?_
    · obtain rfl := Option.some.inj hy
      exact hx.expr rfl (by simp [Node.ofExpr])
    · refine hx v ⟨target, ?_, hv⟩
      rw [assignmentTargets_eq]
      exact List.mem_cons_self
  | conditional i cond yes no =>
    have test := h.ofCondition (D := D) (hx.expr (y := cond) rfl (by simp [Node.ofExpr]))
    exact test.branch (part yes rfl (by simp [Node.ofExpr])) (part no rfl (by simp [Node.ofExpr]))
  | instanceOf i y t pattern =>
    cases pattern with
    | none => exact part y rfl (by simp [Node.ofExpr])
    | some z => exact settles_nothing
  | methodRef i target ts n => exact part target rfl (by simp [Node.ofExpr])
  | switch i selector cs =>
    exact h.switch (hx.expr rfl (by simp [Node.ofExpr])) fun c hc =>
      hx.child rfl (by simp [Node.children, Node.ofExpr, hc])
  | typePattern | recordPattern | lambda => exact settles_nothing
  | _ => exact settles_finish _

theorem runCondition {x : Expr} (hx : Covered p W (.expr x)) :
    (Run.condition p x).Settles W D :=
  h.conditionOr hx.withoutParens (h.runExpr hx.withoutParens)

/-! ## Loops -/

theorem turn {labels : List Text} {st : Stmt} (hW : Covered p W (.stmt st)) :
    (Run.turn p labels st).Settles W D :=
  Settles.turn ((h.body hW).mono (fun _ hv => hv) (by simp))

theorem test {cond : Option Expr} (hc : ∀ x ∈ cond, Covered p W (.expr x)) :
    (Run.test cond).Settles W D := by
  cases cond with
  | none => exact settles_finish _
  | some x => exact h.ofCondition (hc x rfl)

/-- The rounds of a for loop. -/
theorem forRound {labels : List Text} {cond : Option Expr} {update : List Expr} {st : Stmt}
    (hc : ∀ x ∈ cond, Covered p W (.expr x)) (hu : ∀ x ∈ update, Covered p W (.expr x))
    (hst : Covered p W (.stmt st)) :
    ((Run.test cond).branch ((Run.turn p labels st).branch
      ((Run.exprs update).andThen (finish (.truth true))) (finish (.truth false)))
        (finish (.truth false))).Settles W D :=
  (h.test hc).branch ((h.turn hst).branch ((h.exprs hu).andThen (settles_finish _))
    (settles_finish _)) (settles_finish _)

theorem forLoop {labels : List Text} {init : List Stmt} {cond : Option Expr} {update : List Expr}
    {st : Stmt} (hi : ∀ st ∈ init, Covered p W (.stmt st))
    (hc : ∀ x ∈ cond, Covered p W (.expr x)) (hu : ∀ x ∈ update, Covered p W (.expr x))
    (hst : Covered p W (.stmt st)) :
    (Run.forLoop p labels init cond update st).Settles W [] :=
  Settles.within ((h.stmts hi fun _ hv => hv).andThen (h.forRound hc hu hst).rounds)

/-- The rounds of an enhanced for loop. -/
theorem forEachRound {labels : List Text} {d : VarDecl} {st : Stmt}
    (hst : Covered p W (.stmt st)) :
    ((finish (.truth false)).either (((Run.binds p d.vars).andThen (Run.turn p labels st)).within
      (declaredBy p (.locals d)))).Settles W [] := by
  refine (settles_finish _).either (Settles.within ?_)
  refine (binds fun v hv w hw => ?_).andThen (h.turn hst)
  exact List.mem_filterMap.2 ⟨v, hv, hw⟩

theorem forEachLoop {labels : List Text} {d : VarDecl} {iterable : Expr} {st : Stmt}
    (hx : Covered p W (.expr iterable)) (hst : Covered p W (.stmt st)) :
    (Run.forEachLoop p labels d iterable st).Settles W [] :=
  (h.ofExpr hx).andThen (h.forEachRound hst).rounds

/-! ## Try statements -/

theorem resources {rs : List Stmt} (hW : ∀ r ∈ rs, Covered p W r.resourceNode)
    (hD : ∀ v ∈ declaredIn p rs, v ∈ D) : (Run.resources p rs).Settles W D := by
  induction rs with
  | nil => exact settles_finish _
  | cons r rs ih =>
    simp only [declaredIn, List.flatMap_cons, List.mem_append] at hD
    have rest := ih (fun u hu => hW u (List.mem_cons_of_mem _ hu)) fun v hv => hD v (.inr hv)
    have own := hW r List.mem_cons_self
    unfold Run.resources
    split
    · exact settles_finish _
    · rename_i d _ heq
      obtain ⟨rfl, rfl⟩ := List.cons.inj heq
      refine (h.declarators (fun v hv => own.child rfl ?_) fun v hv w hw => hD w (.inl ?_)).andThen
        rest
      · simp [Stmt.resourceNode, Node.children, Node.ofStmt, Node.ofVarDecl, hv]
      · exact List.mem_filterMap.2 ⟨v, hv, hw⟩
    · rename_i heq
      obtain ⟨rfl, rfl⟩ := List.cons.inj heq
      exact (h.ofExpr own).andThen rest
    · rename_i heq
      obtain ⟨rfl, rfl⟩ := List.cons.inj heq
      exact rest

theorem attempt {rs : List Stmt} {b : Block} (hr : ∀ r ∈ rs, Covered p W r.resourceNode)
    (hb : Covered p W (Node.ofBlock b)) : (Run.attempt p rs b).Settles W [] :=
  ((h.resources hr fun _ hv => hv).andThen
    ((h.block hb).mono (fun _ hv => hv) (by simp))).within.exposed

theorem catchBody {c : CatchClause} (hc : Covered p W (Node.ofBlock c.body)) :
    (Run.catchBody p c).Settles W [] := by
  refine Settles.within ((bind fun v hv => ?_).andThen
    ((h.block hc).mono (fun _ hv => hv) (by simp)))
  simp [hv]

theorem catchBodies {cs : List CatchClause} (hc : ∀ c ∈ cs, Covered p W (Node.ofBlock c.body)) :
    (Run.catchBodies p cs).Settles W [] := by
  induction cs with
  | nil => exact settles_nothing
  | cons c cs ih =>
    exact (h.catchBody (hc c List.mem_cons_self)).either
      (ih fun d hd => hc d (List.mem_cons_of_mem _ hd))

theorem tryCatch {rs : List Stmt} {b : Block} {cs : List CatchClause}
    (hr : ∀ r ∈ rs, Covered p W r.resourceNode) (hb : Covered p W (Node.ofBlock b))
    (hc : ∀ c ∈ cs, Covered p W (Node.ofBlock c.body)) : (Run.tryCatch p rs b cs).Settles W [] :=
  (h.attempt hr hb).handled (h.catchBodies hc)

/-! ## Statements -/

theorem runStmt {labels : List Text} {st : Stmt} (hst : Covered p W (.stmt st)) :
    (Run.stmt p labels st).Settles W (declaredBy p st) := by
  have hs : isSealed (.stmt st) = false := rfl
  have part : ∀ x, .expr x ∈ Node.ofStmt st → Covered p W (.expr x) := fun x hx =>
    hst.child hs hx
  have inner : ∀ s labels, .stmt s ∈ Node.ofStmt st → (Run.body p labels s).Settles W [] :=
    fun s labels hs' => h.body (hst.child hs hs')
  cases st with
  | block b => exact h.block hst
  | empty i => exact settles_finish _
  | locals d =>
    refine h.declarators (fun v hv => hst.child rfl ?_) fun v hv w hw => ?_
    · simp [Node.children, Node.ofStmt, Node.ofVarDecl, hv]
    · exact List.mem_filterMap.2 ⟨v, hv, hw⟩
  | expr i x => exact h.ofExpr (part x (by simp [Node.ofStmt]))
  | ifElse i cond yes no =>
    refine (h.ofCondition (part cond (by simp [Node.ofStmt]))).branch
      (inner yes [] (by simp [Node.ofStmt])) ?_
    cases no with
    | none => exact settles_finish _
    | some no => exact inner no [] (by simp [Node.ofStmt])
  | «while» i cond st =>
    refine Settles.rounds ((h.ofCondition (part cond (by simp [Node.ofStmt]))).branch ?_
      (settles_finish _))
    exact h.turn (hst.child rfl (by simp [Node.children, Node.ofStmt]))
  | doWhile i st cond =>
    refine Settles.rounds (Settles.branch ?_ (h.ofCondition (part cond (by simp [Node.ofStmt])))
      (settles_finish _))
    exact h.turn (hst.child rfl (by simp [Node.children, Node.ofStmt]))
  | «for» i init cond update st =>
    refine h.forLoop (fun s hs' => hst.child hs ?_) (fun x hx => part x ?_)
      (fun x hx => part x ?_) (hst.child hs ?_)
    · simp [Node.children, Node.ofStmt, hs']
    · simp [Node.ofStmt, Option.mem_def.1 hx]
    · simp [Node.ofStmt, hx]
    · simp [Node.children, Node.ofStmt]
  | forEach i d iterable st =>
    exact h.forEachLoop (part iterable (by simp [Node.ofStmt]))
      (hst.child hs (by simp [Node.children, Node.ofStmt]))
  | labeled i label st =>
    exact (inner st _ (by simp [Node.ofStmt])).absorb
  | switch i selector cs =>
    exact h.switch (part selector (by simp [Node.ofStmt])) fun c hc =>
      hst.child hs (by simp [Node.children, Node.ofStmt, hc])
  | «try» i rs b cs last =>
    have main : (Run.tryCatch p rs b cs).Settles W [] := by
      refine h.tryCatch (fun r hr => hst.child hs ?_) (hst.child hs ?_) fun c hc => ?_
      · exact List.mem_append_left _ (List.mem_append_left _ (List.mem_append_left _
          (List.mem_map_of_mem hr)))
      · simp [Node.children, Node.ofStmt]
      · have clause : Covered p W (.catchClause c) :=
          hst.child hs (by simp [Node.children, Node.ofStmt, hc])
        exact clause.child rfl (by simp [Node.children])
    cases last with
    | none => exact main
    | some b =>
      exact main.ensured (h.block (hst.child hs (by simp [Node.children, Node.ofStmt])))
  | sync i lock b =>
    exact (h.ofExpr (part lock (by simp [Node.ofStmt]))).andThen
      (h.block (hst.child hs (by simp [Node.children, Node.ofStmt])))
  | «return» i value =>
    exact (h.optional fun x hx => part x (by simp [Node.ofStmt, Option.mem_def.1 hx])).andThen
      (settles_finish _)
  | «break» | «continue» => exact settles_finish _
  | yield i value =>
    exact (h.ofExpr (part value (by simp [Node.ofStmt]))).andThen (settles_finish _)
  | throw i x => exact (h.ofExpr (part x (by simp [Node.ofStmt]))).andThen (settles_finish _)
  | constructorCall i isSuper q ts args =>
    cases isSuper with
    | false => exact settles_nothing
    | true =>
      exact (h.optional fun x hx => part x (by simp [Node.ofStmt, Option.mem_def.1 hx])).andThen
        (h.exprs fun x hx => part x (by simp [Node.ofStmt, hx]))
  | localClass | assert => exact settles_nothing

end Settling

/-- A run assigns at most what `assignmentTargets` finds. -/
theorem settling_meaning (p : Program) (k : Nat) : @Settling p (meaning p k) := by
  induction k with
  | zero =>
    exact @Settling.mk p (meaning p 0) (fun _ => Behavior.settles_nothing)
      (fun _ => Behavior.settles_nothing) fun _ _ => Behavior.settles_nothing
  | succ k ih =>
    let _ := meaning p k
    exact @Settling.mk p (meaning p (k + 1)) (fun x => (ih.runExpr (.self _)).evaluated)
      (fun x => (ih.runCondition (.self _)).decided) fun labels st =>
        (ih.runStmt (.self _)).exposed

end Javelin.Flow
