import Javelin.Proofs.Flow.Switches
import Javelin.Proofs.Flow.Loops
import Javelin.Flow.Analyze

/-!
# Expressions are followed

The walks of expressions and conditions follow their runs, if the walks of their parts do.
-/

namespace Javelin.Flow

open Behavior

variable {c : Concern} {p : Program} {F : Forms} {D : List Symbol} {a a' a₁ : Analysis}
  {s s' : Inits}

namespace Parts

variable [Answers] [Visitor] [Meaning] (h : Parts c p F)
include h

omit [Answers] in
theorem conditionOr {x : Expr} (hx : F.nextExpr x) (hidle : Idles p x)
    {walk : Inits → Analyzer Inits} {W : Behavior}
    (hW : Tracks c p (declarations p (.expr x)) walk W) :
    Tracks c p (declarations p (.expr x)) (fun s => Flow.conditionOr (walk s) x s)
      (Run.conditionOr p W x) := by
  intro s a s' a' hw hr
  have hw := walks_constantBind hw
  rw [hr.tidy.program] at hw
  unfold Run.conditionOr
  cases hc : p.constantCondition x with
  | some b =>
    rw [hc] at hw
    refine Sound.of_imp ?_ fun es r => h.idle_runs hidle hc
    refine Sound.exposed ?_
    -- The branch that the constant rules out is vacuous.
    cases b with
    | true =>
      obtain ⟨rfl, rfl⟩ := walks_pure hw
      refine ⟨hr.tidy, ⟨hr.below, trivial⟩, .refl _, ?_⟩
      rintro - σ _ _ hσ ⟨rfl, rfl⟩
      exact ⟨trivial, hσ⟩
    | false =>
      obtain ⟨rfl, rfl⟩ := walks_pure hw
      refine ⟨hr.tidy, ⟨trivial, hr.below⟩, .refl _, ?_⟩
      rintro - σ _ _ hσ ⟨rfl, rfl⟩
      exact ⟨trivial, hσ⟩
  | none =>
    rw [hc] at hw
    cases x with
    | unary i op y isPostfix =>
      cases op with
      | not =>
        have whole := (h.condition y hx).negated
        exact (whole.sublist (by simp [declarations_expr, Node.ofExpr])) s a s' a' hw hr
      | _ => exact hW.guessed s a s' a' hw hr
    | binary i op l r =>
      obtain ⟨hl, hr'⟩ := hx
      cases op with
      | condAnd =>
        have whole := (h.condition l hl).condAnd (h.condition r hr') h.not_done
        exact (whole.sublist (by simp [declarations_expr, Node.ofExpr])) s a s' a' hw hr
      | condOr =>
        have whole := (h.condition l hl).condOr (h.condition r hr') h.not_done
        exact (whole.sublist (by simp [declarations_expr, Node.ofExpr])) s a s' a' hw hr
      | _ => exact hW.guessed s a s' a' hw hr
    | conditional i cond yes no =>
      obtain ⟨hcond, hyes, hno⟩ := hx
      have whole := (h.condition cond hcond).choose (h.condition yes hyes) (h.condition no hno)
        h.not_done h.not_done
      exact (whole.sublist (by simp [declarations_expr, Node.ofExpr])) s a s' a' hw hr
    | _ => exact hW.guessed s a s' a' hw hr

/-- The walk of an expression follows its runs. -/
theorem exprRule {x : Expr} (hx : F.nextExpr x) (hidle : Idles p x) :
    Tracks c p (declarations p (.expr x)) (Flow.exprRule x) (Run.expr p x) := by
  cases x with
  | paren i y => exact (h.expr y hx).sublist (by simp [declarations_expr, Node.ofExpr])
  | cast i t y => exact (h.expr y hx).sublist (by simp [declarations_expr, Node.ofExpr])
  | methodRef i y ts n =>
    exact (h.expr y hx).sublist (by simp [declarations_expr, Node.ofExpr])
  | name i n => exact (checks_read n).tracks
  | field i owner n =>
    intro s a s' a' hw hr
    unfold Flow.exprRule Run.expr at *
    by_cases ho : isThis owner
    · simp only [ho, if_true] at hw ⊢
      exact (checks_skip (keeps_readField i n)).tracks s a s' a' hw hr
    · have := h.expr owner (hx.resolve_left ho)
      simp only [ho] at hw ⊢
      exact (this.sublist (by simp [declarations_expr, Node.ofExpr])) s a s' a' hw hr
  | call i target ts n args =>
    have whole := (h.optional hx.1).bind ((h.exprs hx.2).keepAfter (keeps_thrownByCall i i))
    refine whole.sublist ?_
    cases target <;>
      simp [declarations_expr, Node.ofExpr, declaredInExprs, List.flatMap_map]
  | newObject i outer ts t args body =>
    obtain ⟨houter, hargs, rfl⟩ := hx
    have whole := (h.optional houter).bind ((h.exprs hargs).keepAfter (keeps_thrownByCall i i))
    refine whole.sublist ?_
    cases outer <;>
      simp [declarations_expr, Node.ofExpr, declaredInExprs, List.flatMap_map]
  | newArray i t dims n init =>
    refine ((h.exprs hx.1).bind (h.optional hx.2)).sublist ?_
    cases init <;>
      simp [declarations_expr, Node.ofExpr, declaredInExprs, List.flatMap_map]
  | arrayInit i elems =>
    refine (h.exprs hx).sublist ?_
    simp [declarations_expr, Node.ofExpr, declaredInExprs, List.flatMap_map]
  | index i array y =>
    refine ((h.expr array hx.1).bind (h.expr y hx.2)).sublist ?_
    simp [declarations_expr, Node.ofExpr]
  | unary i op y isPostfix =>
    have asValue := (h.conditionOr (x := .unary i op y isPostfix) hx hidle tracks_skip).valued
    have operand : F.expr y → Tracks c p (declarations p (.expr (.unary i op y isPostfix)))
        (Visitor.expr y) (Meaning.expr y) := fun hy =>
      (h.expr y hy).sublist (by simp [declarations_expr, Node.ofExpr])
    have target : F.target y → Tracks c p (declarations p (.expr (.unary i op y isPostfix)))
        (Flow.assignment y none true) (Run.assignment p y none true) := fun hy =>
      (h.assignment hy (by simp)).sublist (by simp [declarations_expr, Node.ofExpr])
    cases op with
    | not => exact asValue
    | inc | dec => exact target hx
    | _ => exact operand hx
  | binary i op l r =>
    have asValue := (h.conditionOr (x := .binary i op l r) hx hidle tracks_skip).valued
    have operands : Tracks c p (declarations p (.expr (.binary i op l r)))
        (fun s => Visitor.expr l s >>= Visitor.expr r)
        ((Meaning.expr l).andThen (Meaning.expr r)) :=
      ((h.expr l hx.1).bind (h.expr r hx.2)).sublist (by simp [declarations_expr, Node.ofExpr])
    cases op with
    | condAnd | condOr => exact asValue
    | _ => exact operands
  | assign i op target value =>
    have whole : Tracks c p _ (Flow.assignment target (some value) (op != .assign)) _ :=
      h.assignment hx.1 (by simpa using hx.2)
    refine whole.sublist ?_
    simp [declarations_expr, Node.ofExpr, declaredInExprs]
  | conditional i cond yes no =>
    refine ((h.condition cond hx.1).branch (h.expr yes hx.2.1) (h.expr no hx.2.2)).sublist ?_
    simp [declarations_expr, Node.ofExpr]
  | instanceOf i y t pattern =>
    obtain ⟨hy, rfl⟩ := hx
    refine (h.expr y hy).bindPure.sublist ?_
    simp [declarations_expr, Node.ofExpr]
  | switch i selector gs =>
    refine (h.switch hx.1 hx.2).sublist ?_
    simp [declarations_expr, Node.ofExpr, declaredInGroups, List.flatMap_map]
  | lambda | typePattern | recordPattern => exact hx.elim
  | _ => exact tracks_skip

/-- The walk of a condition follows its runs. -/
theorem conditionRule {x : Expr} (hx : F.nextExpr x.withoutParens)
    (hidle : Idles p x.withoutParens) :
    Tracks c p (declarations p (.expr x)) (Flow.conditionRule x) (Run.condition p x) := by
  rw [← declarations_withoutParens p x]
  exact h.conditionOr hx hidle (h.exprRule hx hidle)

end Parts

end Javelin.Flow

/-!
# Statements are followed

Jumps leave their states at the frames where they end. With them, the walk of every form of
statement follows its runs, if the walks of its parts do.
-/

namespace Javelin.Flow

open Behavior

variable {c : Concern} {p : Program} {F : Forms} {D : List Symbol} {a a' a₁ : Analysis}
  {s s' : Inits} {i : Info} {j : Jump}

/-! ## Jumps -/

/-- A jump is recorded, whether it has a target or not. -/
theorem walks_jump {b : Bool} (hw : Walks (jump i j s) a b a') (hr : Ready p D a s) :
    Kept a a' ∧ Recorded j s a'.frames := by
  have hw₁ := walks_getBind hw
  cases hl : j.land s a.frames with
  | none =>
    rw [hl] at hw₁
    obtain ⟨rfl, rfl⟩ := walks_pure hw₁
    exact ⟨.refl a', recorded_of_land_none hl⟩
  | some l =>
    rw [hl] at hw₁
    have hw₂ := walks_modifyBind hw₁
    obtain ⟨rfl, rfl⟩ := walks_pure hw₂
    have lands := lands_of_land hl hr.below hr.tidy.frames
    exact ⟨⟨rfl, rfl, rfl, lands.weaken, fun _ => lands.below, fun _ => Nat.le_refl _⟩,
      lands.recorded⟩

/-- A jump, and what is reported if it has no target. -/
theorem sound_jumpOr {m : Analyzer Inits} (hm : ∀ a t a', Walks m a t a' → t = s ∧ Kept a a')
    (hw : Walks (do if ← jump i j s then return .dead else m) a s' a') (hr : Ready p D a s) :
    Sound c p D a s (.finish (.jump j)) a' s' := by
  obtain ⟨b, a₁, hw₁, hw₂⟩ := walks_bind hw
  obtain ⟨kept, recorded⟩ := walks_jump hw₁ hr
  cases b with
  | true =>
    obtain ⟨rfl, rfl⟩ := walks_pure hw₂
    exact sound_jump hr kept recorded trivial
  | false =>
    obtain ⟨rfl, kept'⟩ := hm _ _ _ hw₂
    have both := kept.trans kept'
    exact sound_jump hr both (recorded.weaken kept'.frames) (both.nextSlot ▸ hr.below)

theorem tracks_breakOut (i : Info) (label : Option Ident) :
    Tracks c p D (breakOut i label) (finish (.jump (.break (labelName label)))) := by
  intro s a s' a' hw hr
  refine sound_jumpOr (fun a t a' hm => ?_) hw hr
  split at hm
  all_goals
    obtain ⟨_, a₁, hw₁, hw₂⟩ := walks_bind hm
    obtain ⟨rfl, rfl⟩ := walks_pure hw₂
    exact ⟨rfl, keeps_report _ _ _ _ _ _ hw₁⟩

theorem tracks_continueLoop (i : Info) (label : Option Ident) :
    Tracks c p D (continueLoop i label) (finish (.jump (.continue (labelName label)))) := by
  intro s a s' a' hw hr
  refine sound_jumpOr (fun a t a' hm => ?_) hw hr
  split at hm
  · have hm₁ := walks_getBind hm
    split at hm₁
    all_goals
      obtain ⟨_, a₁, hw₁, hw₂⟩ := walks_bind hm₁
      obtain ⟨rfl, rfl⟩ := walks_pure hw₂
      exact ⟨rfl, keeps_report _ _ _ _ _ _ hw₁⟩
  · obtain ⟨_, a₁, hw₁, hw₂⟩ := walks_bind hm
    obtain ⟨rfl, rfl⟩ := walks_pure hw₂
    exact ⟨rfl, keeps_report _ _ _ _ _ _ hw₁⟩

theorem tracks_yield (i : Info) :
    Tracks c p D (fun s => do
      if ← jump i .yield s then return .dead
      report .invalidYield i []
      return s) (finish (.jump .yield)) := by
  intro s a s' a' hw hr
  refine sound_jumpOr (fun a t a' hm => ?_) hw hr
  obtain ⟨_, a₁, hw₁, hw₂⟩ := walks_bind hm
  obtain ⟨rfl, rfl⟩ := walks_pure hw₂
  exact ⟨rfl, keeps_report _ _ _ _ _ _ hw₁⟩

theorem tracks_return :
    Tracks c p D (fun s => do
      match Jump.land .return s (← get).frames with
      | some l => modify fun a => { a with frames := l.frames }
      | none => pure ()
      return .dead) (finish (.jump .return)) := by
  intro s a s' a' hw hr
  have hw₁ := walks_getBind hw
  cases hl : Jump.land .return s a.frames with
  | none =>
    rw [hl] at hw₁
    obtain ⟨rfl, rfl⟩ := walks_pure hw₁
    exact sound_jump hr (.refl _) (recorded_of_land_none hl) trivial
  | some l =>
    rw [hl] at hw₁
    have hw₂ := walks_modifyBind hw₁
    obtain ⟨rfl, rfl⟩ := walks_pure hw₂
    have lands := lands_of_land hl hr.below hr.tidy.frames
    exact sound_jump hr ⟨rfl, rfl, rfl, lands.weaken, fun _ => lands.below, fun _ => Nat.le_refl _⟩
      lands.recorded trivial

theorem tracks_throw [Answers] (i : Info) (x : Expr) :
    Tracks c p D (fun _ => do
      (← thrownTypes x).forM (thrown i)
      return .dead) (finish .throw) := by
  intro s a s' a' hw hr
  obtain ⟨ts, a₁, hw₁, hw₂⟩ := walks_bind hw
  obtain ⟨_, a₂, hw₃, hw₄⟩ := walks_bind hw₂
  obtain ⟨rfl, rfl⟩ := walks_pure hw₄
  obtain rfl := still_thrownTypes x _ _ _ hw₁
  exact sound_throw hr (keeps_forM (keeps_thrown i) _ _ _ hw₃)

/-! ## The rule -/

namespace Parts

variable [Answers] [Visitor] [Meaning] (h : Parts c p F)
include h

theorem labeled {label : Ident} {st : Stmt} {labels : List Text} (hst : F.stmt st) :
    Tracks c p (declarations p (.stmt st)) (Flow.stmtRule labels (.labeled i label st))
      (Run.stmt p labels (.labeled i label st)) := by
  intro s a s' a' hw hr
  obtain ⟨⟨stop, g⟩, a₁, hwf, hw₁⟩ := walks_bind hw
  obtain ⟨rfl, rfl⟩ := walks_pure hw₁
  obtain ⟨a₂, hws, frame⟩ := walks_framed hwf
  have body := h.body hst s _ stop a₂ hws (hr.push (f := .labeled label.name .dead) trivial)
  obtain ⟨gs, hf, rfl⟩ := frame body.tidy body.grows
  obtain ⟨breaks, rfl⟩ : ∃ breaks, g = .labeled label.name breaks := by
    have hg := hf.weakens
    cases hg
    exact ⟨_, rfl⟩
  exact body.absorb hf (ends_labeled label.name breaks) (Inits.weakens_merge_left _ _)
    (Inits.weakens_merge_right _ _) (body.below.merge hf.below)

/-- The walk of a statement follows its runs. -/
theorem stmtRule {guarded : List Stmt → Block → Prop}
    (hrec : ∀ rs b, guarded rs b → Recoverable c p F rs b) {labels : List Text} {st : Stmt}
    (hst : F.nextStmt guarded st) :
    Tracks c p (declarations p (.stmt st)) (Flow.stmtRule labels st) (Run.stmt p labels st) := by
  cases st with
  | block b =>
    have whole := h.block hst
    rw [← declarations_block] at whole
    exact whole
  | empty i => exact tracks_skip
  | locals d => exact h.locals hst
  | expr i x => exact (h.expr x hst).sublist (by simp [declarations_stmt, Node.ofStmt])
  | ifElse i cond yes no =>
    obtain ⟨hc, hyes, hno⟩ := hst
    cases no with
    | none =>
      refine ((h.condition cond hc).branch (h.body hyes) (tracks_skip (D := []))).sublist ?_
      simp [declarations_stmt p (.ifElse ..), Node.ofStmt]
    | some no =>
      refine ((h.condition cond hc).branch (h.body hyes) (h.body (hno no rfl))).sublist ?_
      simp [declarations_stmt p (.ifElse ..), Node.ofStmt]
  | «while» i cond st =>
    refine (h.whileLoop hst.1 hst.2).sublist ?_
    simp [declarations_stmt p (.while ..), Node.ofStmt]
  | doWhile i st cond =>
    refine (h.doLoop hst.1 hst.2).sublist ?_
    simp [declarations_stmt p (.doWhile ..), Node.ofStmt]
  | «for» i init cond update st =>
    obtain ⟨hi, hc, hu, hst⟩ := hst
    refine (h.forLoop hi hc hu hst).perm ?_
    rw [declarations_for]
    exact .append_left _ (.append_left _ List.perm_append_comm)
  | forEach i d iterable st =>
    refine ((h.forEachLoop hst.1 hst.2).perm (List.perm_append_comm_assoc ..)).sublist ?_
    rw [declarations_forEach]
    exact (declared_sublist_locals p d).append_right _
  | labeled i label st =>
    refine (h.labeled hst).sublist ?_
    simp [declarations_stmt p (.labeled ..), Node.ofStmt]
  | switch i selector gs =>
    refine (h.switch hst.1 hst.2).sublist ?_
    simp [declarations_stmt, Node.ofStmt, declaredInGroups, List.flatMap_map]
  | «try» i rs b gs last =>
    obtain ⟨hrs, hb, hgs, hlast, hguarded⟩ := hst
    refine (h.tryStatement hrs hb hgs hlast fun hne => hrec rs b (hguarded hne)).perm ?_
    rw [declarations_try]
    exact List.perm_append_comm
  | sync i lock b =>
    refine ((h.expr lock hst.1).bind (h.block hst.2)).sublist ?_
    simp [declarations_stmt p (.sync ..), Node.ofStmt, declarations_block]
  | «return» i value =>
    refine ((h.optional hst).bind (tracks_return (D := []))).sublist ?_
    cases value <;> simp [declarations_stmt, Node.ofStmt, declaredInExprs]
  | «break» i label => exact tracks_breakOut i label
  | «continue» i label => exact tracks_continueLoop i label
  | yield i value =>
    refine ((h.expr value hst).bind (tracks_yield (D := []) i)).sublist ?_
    simp [declarations_stmt, Node.ofStmt]
  | throw i x =>
    refine ((h.expr x hst).bind (tracks_throw (D := []) i x)).sublist ?_
    simp [declarations_stmt, Node.ofStmt]
  | constructorCall i isSuper qualifier ts args =>
    obtain ⟨rfl, hq, hargs⟩ := hst
    refine ((h.optional hq).bind ((h.exprs hargs).keepAfter (keeps_thrownByCall i i))).sublist ?_
    cases qualifier <;>
      simp [declarations_stmt, Node.ofStmt, declaredInExprs, List.flatMap_map]
  | localClass | assert => exact hst.elim

end Parts

end Javelin.Flow

/-!
# Assignment analysis is sound

The walk of a body follows its runs (`parts`). So a body for which no problem of concern is reported
never reads a local variable without a value (`no_blank_read`), and never assigns a final variable
twice if its try statements are `Recovers` (`no_second_write`). Its constant conditions must be
`Idle`, because the walk leaves out what they evaluate (`blank_read_unreported`).
-/

namespace Javelin.Flow

open Behavior

variable {c : Concern} {p : Program} {k n : Nat}

/-! ## How parts end -/

theorem meaning_value {x : Expr} {es : List Event} {r : Outcome}
    (hr : (meaning p k).expr x es r) : r = .done ∨ r = .throw := by
  cases k with
  | zero => exact hr.elim
  | succ k => exact hr.2

theorem meaning_truth {x : Expr} {es : List Event} {r : Outcome}
    (hr : (meaning p k).condition x es r) : (∃ b, r = .truth b) ∨ r = .throw := by
  cases k with
  | zero => exact hr.elim
  | succ k => exact hr.2

theorem meaning_constant {x : Expr} {es : List Event} {b b' : Bool}
    (hc : p.constantCondition x = some b) (hr : (meaning p k).condition x es (.truth b')) :
    b' = b := by
  cases k with
  | zero => exact hr.elim
  | succ k =>
    obtain ⟨hr | ⟨h, -⟩, -⟩ := hr
    · have inner : p.constantCondition x.withoutParens = some b := by
        simpa [Program.constantCondition, withoutParens_idem] using hc
      simp only [Run.condition, Run.conditionOr, inner] at hr
      obtain ⟨-, h⟩ | ⟨_, _, -, -, -, h⟩ := hr
      · cases h
      · exact Outcome.truth.inj h
    · cases h

/-! ## Tying the knot -/

/-- Whether every final variable that the protected part of a try statement assigns before it throws
is also assigned by some run that completes the part. -/
def Recovers (p : Program) (rs : List Stmt) (b : Block) : Prop :=
  ∀ (k : Nat) (σ : Store) es v, @Run.attempt p (meaning p k) rs b es .throw → p.isFinal v →
    σ v ≠ .assigned → σ.after es v = .assigned →
    ∃ k' e, @Run.attempt p (meaning p k') rs b e .done ∧ σ.after e v = .assigned

/-- What is asked of the try statements that have handlers. -/
def Concern.Guarded (p : Program) : Concern → List Stmt → Block → Prop
  | .reads, _, _ => True
  | .writes, rs, b => Recovers p rs b

section

variable (ih : ∀ k, @Parts c p (plain p (c.Guarded p) n) (visitor n) (meaning p k))
include ih

theorem tracks_expr {x : Expr} (hx : (plain p (c.Guarded p) (n + 1)).expr x) :
    Tracks c p (declarations p (.expr x)) ((visitor (n + 1)).expr x) ((meaning p k).expr x) := by
  let _ := visitor n
  cases k with
  | zero => exact tracks_nothing (@Parts.exprRule _ _ _ _ _ (meaning p 0) (ih 0) _ hx.2 (hx.1 0))
  | succ k => exact (@Parts.exprRule _ _ _ _ _ (meaning p k) (ih k) _ hx.2 (hx.1 k)).evaluated

theorem tracks_condition {x : Expr} (hx : (plain p (c.Guarded p) (n + 1)).expr x) :
    Tracks c p (declarations p (.expr x)) ((visitor (n + 1)).condition x)
      ((meaning p k).condition x) := by
  let _ := visitor n
  have hx := plain_withoutParens hx
  cases k with
  | zero =>
    exact tracks_nothing (@Parts.conditionRule _ _ _ _ _ (meaning p 0) (ih 0) _ hx.2 (hx.1 0))
  | succ k => exact (@Parts.conditionRule _ _ _ _ _ (meaning p k) (ih k) _ hx.2 (hx.1 k)).decided

theorem recoverable_of_guarded {rs : List Stmt} {b : Block} (hg : c.Guarded p rs b) :
    @Recoverable c p (plain p (c.Guarded p) n) (visitor n) (meaning p k) rs b := by
  rintro rfl σ es v hthrow hfin hv hv'
  obtain ⟨k', e, hdone, hassigned⟩ := hg k σ es v hthrow hfin hv hv'
  exact ⟨meaning p k', ih k', e, hdone, hassigned⟩

theorem tracks_stmt {labels : List Text} {st : Stmt}
    (hst : (plain p (c.Guarded p) (n + 1)).stmt st) :
    Tracks c p (declarations p (.stmt st)) ((visitor (n + 1)).stmt labels st)
      ((meaning p k).stmt labels st) := by
  let _ := visitor n
  have rule := fun k => @Parts.stmtRule _ _ _ _ _ (meaning p k) (ih k) _
    (fun rs b => recoverable_of_guarded ih) labels st hst
  cases k with
  | zero => exact tracks_nothing (rule 0)
  | succ k => exact (rule k).exposed

end

/-- The walk of trees of at most some depth follows all their runs. -/
theorem parts (c : Concern) (p : Program) (n k : Nat) :
    @Parts c p (plain p (c.Guarded p) n) (visitor n) (meaning p k) := by
  induction n generalizing k with
  | zero =>
    let _ := visitor 0
    let _ := meaning p k
    exact {
      expr := fun _ hx => hx.elim
      condition := fun _ hx => hx.elim
      stmt := fun _ _ hst => hst.elim
      declared := fun _ _ _ _ _ _ hst => hst.elim
      patternFree := fun _ hx => hx.elim
      ofExprStmt := fun _ _ hst => hst.elim
      settling := settling_meaning p k
      value := fun _ _ _ => meaning_value
      truth := fun _ _ _ => meaning_truth
      constant := fun _ _ _ _ => meaning_constant }
  | succ n ih =>
    let _ := visitor (n + 1)
    let _ := meaning p k
    exact {
      expr := fun _ hx => tracks_expr ih hx
      condition := fun _ hx => tracks_condition ih hx
      stmt := fun _ _ hst => tracks_stmt ih hst
      declared := fun _ st _ _ _ _ hst hw hr => by
        let _ := visitor n
        let _ := meaning p 0
        cases st with
        | locals d => exact (ih 0).trackedLocals hst hw hr
        | _ => simp [declaredBy]
      patternFree := fun x hx => by cases x <;> first | rfl | exact hx.2.elim
      ofExprStmt := fun i x hst => (plain_le_succ p _ n).expr x hst
      settling := settling_meaning p k
      value := fun _ _ _ => meaning_value
      truth := fun _ _ _ => meaning_truth
      constant := fun _ _ _ _ => meaning_constant }

/-! ## Bodies -/

/-- What the walk of a body starts from. Each variable that the body declares is one of its own and
is not tracked yet, and the store in which the body is entered is covered. -/
structure BodyStart (c : Concern) (p : Program) (b : Block) (a : Analysis) (s : Inits) (σ : Store) :
    Prop where
  ready : Ready p (declaredInStmts p b.stmts) a s
  covers : Covers c p a.slots s σ

/-- A body for which nothing of concern is reported runs safely. -/
theorem safe_of_quiet {b : Block} {a a' : Analysis} {s s' : Inits} {w w' : World} {σ : Store}
    {es : List Event} {r : Outcome} (hb : (plain p (c.Guarded p) n).block b)
    (hw : (@block (visitor n) b s).run a w = .ok (s', a') w') (hs : BodyStart c p b a s σ)
    (hq : c.count a' = c.count a) (hr : Runs p b es r) : c.Safe p σ es := by
  obtain ⟨k, hr⟩ := hr
  let _ := visitor n
  let _ := meaning p k
  have sound := (parts c p n k).block hb s a s' a' ⟨w, w', hw⟩ hs.ready
  exact (sound.runs hq σ es r hs.covers hr).1

/-! ## A body that is in order

The body `final int x; try { if (b) x = 1; else x = 2; } catch (RuntimeException e) { return 0; }
return x;` in a class with a field `b`, from an empty state. -/

section

variable {a : Analysis} {w : World} {s : Inits} {name : Ident} {l : LocalId}

theorem ran_trackLocal {v : Symbol} (hd : a.program.declared? name = some v)
    (hv : a.slots[v]? = none) : Ran (trackLocal name) a w (some a.nextSlot) (a.tracked v) w := by
  refine Ran.getBind ?_
  rw [hd]
  exact Ran.bind (Ran.slotBind hv rfl) (Ran.pure _ _ w)

theorem ran_bind_new {v : Symbol} (hd : a.program.declared? name = some v)
    (hv : a.slots[v]? = none) :
    Ran (bind name s) a w (s.assign a.nextSlot) (a.tracked v) w :=
  Ran.bind (ran_trackLocal hd hv) (Ran.pure _ _ w)

theorem ran_read (hu : a.program.findings.uses[name.info.id]? = some (.var l))
    (hn : a.slots[Symbol.var l]? = some n) (hs : s.isAssigned n) : Ran (read name s) a w () a w := by
  refine Ran.knownBind hu (Ran.slotBind hn ?_)
  simp only [hs]
  exact Ran.pure _ _ w

theorem ran_write (hn : a.slots[Symbol.var l]? = some n) (hs : s.mayBeAssigned n = false) :
    Ran (write (.var l) name s) a w (s.assign n) a w := by
  refine Ran.getBind (Ran.slotBind hn ?_)
  simp only [Option.all_some, hs, Bool.and_false]
  exact Ran.pure _ _ w

end

/-- The variable `x`, declared at node 1, assigned at nodes 2 and 4 and read at node 3. -/
def sampleVar : Symbol := .var ⟨0⟩

/-- The parameter of the clause, declared at node 6. -/
def sampleParam : Symbol := .var ⟨1⟩

def sampleProgram : Program where
  findings := {
    defs := (({} : Std.HashMap Nat Symbol).insert 6 sampleParam).insert 1 sampleVar
    uses := (({} : Std.HashMap Nat Symbol).insertMany
      [(2, sampleVar), (4, sampleVar), (5, .field ⟨1⟩)]).insert 3 sampleVar
    typeRefs := ({} : Std.HashMap Nat TypeId).insert 7 ⟨14⟩ }
  locals := #[{ isFinal := true }]

/-- Declares `x` with a type. -/
def sampleDecl (type : TypeNode) : Stmt :=
  .locals ⟨{}, none, type, [⟨{}, ⟨{ id := 1 }, {}⟩, 0, none⟩], none⟩

/-- Assigns `x` at a node. -/
def sampleAssign (id : Nat) : Stmt :=
  .expr {} (.assign {} .assign (.name {} ⟨{ id }, {}⟩) (.literal {} .int {}))

def sampleChoice : Stmt :=
  .ifElse {} (.name {} ⟨{ id := 5 }, {}⟩) (sampleAssign 2) (some (sampleAssign 4))

def sampleAttempt : Block := ⟨{}, [sampleChoice]⟩

def sampleCatch : CatchClause where
  info := {}
  param := ⟨{}, none, some (.cls { id := 7 } [] none ⟨{}, "RuntimeException"⟩ [] false), false,
    ⟨{ id := 6 }, "e"⟩, 0⟩
  body := ⟨{}, [.return {} (some (.literal {} .int {}))]⟩

def sampleTry : Stmt := .try {} [] sampleAttempt [sampleCatch] none

def sampleReturn : Stmt := .return {} (some (.name {} ⟨{ id := 3 }, {}⟩))

def sampleBody : Block := ⟨{}, [sampleDecl (.primitive {} .int), sampleTry, sampleReturn]⟩

def sampleStart : Analysis := { unit := ⟨0⟩, program := sampleProgram }

theorem sample_declared : sampleProgram.declared? ⟨{ id := 1 }, {}⟩ = some sampleVar := by
  simp [sampleProgram, Program.declared?, sampleVar]

theorem sample_param : sampleProgram.declared? ⟨{ id := 6 }, "e"⟩ = some sampleParam := by
  rw [Program.declared?, sampleProgram, Std.HashMap.getElem?_insert]
  simp [sampleParam]

theorem sample_read : sampleProgram.findings.uses[3]? = some sampleVar := by
  simp [sampleProgram]

theorem sample_uses : sampleProgram.findings.uses[2]? = some sampleVar ∧
    sampleProgram.findings.uses[4]? = some sampleVar ∧
    sampleProgram.findings.uses[5]? = some (.field ⟨1⟩) := by
  simp only [sampleProgram, Std.HashMap.insertMany_cons, Std.HashMap.insertMany_nil,
    Std.HashMap.getElem?_insert]
  exact ⟨rfl, rfl, rfl⟩

theorem sample_caught : sampleProgram.findings.typeRefs.getD 7 .none = ⟨14⟩ := by
  simp [sampleProgram]

theorem sample_notConstant (x : Expr) : sampleProgram.constantCondition x = none := by
  simp [Program.constantCondition, sampleProgram]

/-- The state of the analysis after the body. -/
def sampleEnd : Analysis :=
  { (sampleStart.tracked sampleVar).tracked sampleParam with
    rethrown := ({} : Std.HashMap LocalId (List TypeId)).insert ⟨1⟩ [] }

/-- The walk of the choice assigns the variable on both ways. -/
theorem ran_sampleChoice {a : Analysis} {s : Inits} (hp : a.program = sampleProgram)
    (hb : a.blankFinals = []) (hn : a.slots[sampleVar]? = some 0) (hs : s.mayBeAssigned 0 = false) :
    Ran ((visitor 4).stmt [] sampleChoice s) a fewClasses ((s.assign 0).merge (s.assign 0)) a
      fewClasses := by
  have cond : Ran ((visitor 3).condition (.name {} ⟨{ id := 5 }, {}⟩) s) a fewClasses (.split s s) a
      fewClasses := by
    have seen : Ran (read ⟨{ id := 5 }, {}⟩ s) a fewClasses () a fewClasses := by
      refine Ran.knownBind (x := some (.field ⟨1⟩)) (by rw [hp]; exact sample_uses.2.2) ?_
      refine Ran.getBind (Ran.bind (b := false) (Ran.getBind ?_) (Ran.pure _ _ _))
      rw [hb]
      rfl
    change Ran (@conditionRule _ (visitor 2) _ s) _ _ _ _ _
    unfold conditionRule conditionOr
    refine Ran.constantBind (c := none) (by rw [hp]; exact sample_notConstant _) ?_
    exact Ran.bind (Ran.bind seen (Ran.pure _ _ _)) (Ran.pure _ _ _)
  have assigns : ∀ id, sampleProgram.findings.uses[id]? = some sampleVar →
      Ran ((visitor 3).stmt [] (sampleAssign id) s) a fewClasses (s.assign 0) a fewClasses := by
    intro id hid
    have value : Ran (@optional (visitor 1) (some (.literal {} .int {})) s) a fewClasses s a
        fewClasses := Ran.bind (Ran.pure _ _ _) (Ran.pure _ _ _)
    exact Ran.bind (Ran.pure _ _ _) (Ran.bind value
      (Ran.knownBind (x := some sampleVar) (by rw [hp]; exact hid) (ran_write hn hs)))
  change Ran (@stmtRule _ (visitor 3) [] sampleChoice s) _ _ _ _ _
  unfold stmtRule sampleChoice
  exact Ran.bind cond (Ran.bind (assigns 2 sample_uses.1)
    (Ran.bind (assigns 4 sample_uses.2.1) (Ran.pure _ _ _)))

/-- The clause as it stands before something is thrown. -/
def sampleHandler : Handler := { alternatives := [{ node := { id := 7 }, type := ⟨14⟩ }] }

/-- The walk of the clause ends at its return. -/
theorem ran_sampleCatch :
    Ran (@catchBody _ (visitor 4) sampleCatch sampleHandler (Inits.start.forget 0)
      ((Inits.start.forget 0).assign 0)) (sampleStart.tracked sampleVar) fewClasses .dead sampleEnd
      fewClasses := by
  let s := Inits.start.forget 0
  let tracked := sampleStart.tracked sampleVar
  have checked : Ran (checkHandler sampleHandler) tracked fewClasses () tracked fewClasses := by
    refine Ran.liftBind (FewClasses.self.wellKnown wellKnown_fewClasses.2.1) ?_
    have unchecked : Ran (isChecked ⟨14⟩) tracked fewClasses false tracked fewClasses :=
      isChecked_fewClasses (n := 999998) .self (by decide) tracked
    unfold sampleHandler
    rw [List.forIn_cons, if_neg (by decide)]
    exact Ran.bind (Ran.bind (Ran.bind unchecked rfl) (Ran.pure _ _ _)) (Ran.pure _ _ _)
  have fresh : tracked.slots[sampleParam]? = none := by
    change ((∅ : Std.HashMap Symbol Nat).insert sampleVar 0)[sampleParam]? = none
    rw [Std.HashMap.getElem?_insert, if_neg (by decide)]
    exact Std.HashMap.getElem?_empty
  have param := ran_bind_new (w := fewClasses) (s := s.allowFrom (s.assign 0))
    (show tracked.program.declared? ⟨{ id := 6 }, "e"⟩ = _ from sample_param) fresh
  have noted : sampleProgram.findings.defs[6]? = some sampleParam := by
    rw [sampleProgram, Std.HashMap.getElem?_insert]
    simp
  refine Ran.bind checked (Ran.bind param (Ran.knownBind (x := some sampleParam) noted ?_))
  exact Ran.modifyBind rfl

/-- The walk of the body reports nothing. -/
theorem ran_sample :
    Ran (@block (visitor 5) sampleBody .start) sampleStart fewClasses .dead sampleEnd fewClasses := by
  let s := Inits.start.forget 0
  let tracked := sampleStart.tracked sampleVar
  have slot : tracked.slots[sampleVar]? = some 0 := tracked_self sampleStart sampleVar
  have first : ∀ t, Ran ((visitor 5).stmt [] (sampleDecl t) .start) sampleStart fewClasses s tracked
      fewClasses :=
    fun _ => Ran.bind
      (Ran.bind (ran_trackLocal sample_declared (by simp [sampleStart])) (Ran.pure _ _ _))
      (Ran.pure _ _ _)
  have second : Ran ((visitor 5).stmt [] sampleTry s) tracked fewClasses (s.assign 0) sampleEnd
      fewClasses := by
    have named : Ran (handlerOf sampleCatch) tracked fewClasses sampleHandler tracked fewClasses := by
      have found : Ran (do
          let t ← known (·.typeRefs.getD 7 .none)
          return if t.isSome then some { node := { id := 7 }, type := t : Alternative } else none)
          tracked fewClasses (some { node := { id := 7 }, type := ⟨14⟩ }) tracked fewClasses :=
        Ran.knownBind (x := ⟨14⟩) sample_caught (Ran.pure _ _ _)
      exact Ran.bind (Ran.bind found (Ran.pure _ _ _)) (Ran.pure _ _ _)
    have attempted : Ran (inFrame (.handlers [sampleHandler]) do
        @block (visitor 4) sampleAttempt (← @resources _ (visitor 4) [] s)) tracked fewClasses
        (s.assign 0, .handlers [sampleHandler]) tracked fewClasses := by
      have choice := ran_sampleChoice (a := { tracked with frames := [.handlers [sampleHandler]] })
        rfl rfl slot (s := s) (by decide)
      refine Ran.modifyBind
        (Ran.bind (Ran.bind (Ran.pure s _ _) (Ran.bind choice (Ran.pure _ _ _))) ?_)
      exact rfl
    change Ran (@tryCatch _ (visitor 4) [] sampleAttempt [sampleCatch] s) _ _ _ _ _
    refine Ran.bind (Ran.bind named (Ran.pure _ _ _)) (Ran.bind attempted ?_)
    exact Ran.bind (Ran.bind ran_sampleCatch (Ran.pure _ _ _)) (Ran.pure _ _ _)
  have third : Ran ((visitor 5).stmt [] sampleReturn (s.assign 0)) sampleEnd fewClasses .dead
      sampleEnd fewClasses := by
    have seen : Ran (read ⟨{ id := 3 }, {}⟩ (s.assign 0)) sampleEnd fewClasses () sampleEnd
        fewClasses := by
      refine ran_read (n := 0) sample_read ?_ (by decide)
      change (tracked.slots.insert sampleParam 1)[sampleVar]? = _
      rw [Std.HashMap.getElem?_insert, if_neg (by decide)]
      exact slot
    have value : Ran (@optional (visitor 4) (some (.name {} ⟨{ id := 3 }, {}⟩)) (s.assign 0))
        sampleEnd fewClasses (s.assign 0) sampleEnd fewClasses := by
      refine Ran.bind (b := s.assign 0) ?_ (Ran.pure _ _ _)
      change Ran (read _ _ >>= fun _ => pure _) _ _ _ _ _
      exact Ran.bind seen (Ran.pure _ _ _)
    change Ran (@stmtRule _ (visitor 4) [] sampleReturn _) _ _ _ _ _
    unfold stmtRule sampleReturn
    exact Ran.bind value rfl
  exact Ran.bind (first _) (Ran.bind second (Ran.bind third (Ran.pure _ _ _)))

/-- The body is plain if what is asked of its try statement holds. -/
theorem sample_plain {guarded : List Stmt → Block → Prop} (hg : guarded [] sampleAttempt) :
    (plain sampleProgram guarded 5).block sampleBody := by
  have idle : ∀ x, Idle sampleProgram x := fun x k b hb => by simp [sample_notConstant] at hb
  have decl : ∀ t, (plain sampleProgram guarded 5).stmt (sampleDecl t) :=
    fun _ => List.forall_mem_singleton.2 fun _ hx => absurd hx (by simp)
  have assign : ∀ id, (plain sampleProgram guarded 3).stmt (sampleAssign id) :=
    fun _ => ⟨idle _, trivial, idle _, trivial⟩
  have choice : (plain sampleProgram guarded 4).stmt sampleChoice :=
    ⟨⟨idle _, trivial⟩, assign 2, fun _ hst => by cases hst; exact assign 4⟩
  have zero : (plain sampleProgram guarded 4).stmt (.return {} (some (.literal {} .int {}))) :=
    fun _ hx => by cases hx; exact ⟨idle _, trivial⟩
  have attempt : (plain sampleProgram guarded 5).stmt sampleTry :=
    ⟨nofun, List.forall_mem_singleton.2 choice,
      List.forall_mem_singleton.2 (List.forall_mem_singleton.2 zero), nofun, fun _ => hg⟩
  have last : (plain sampleProgram guarded 5).stmt sampleReturn :=
    fun _ hx => by cases hx; exact ⟨idle _, trivial⟩
  exact List.forall_mem_cons.2 ⟨decl _, List.forall_mem_cons.2 ⟨attempt,
    List.forall_mem_singleton.2 last⟩⟩

theorem sample_declarations :
    declaredInStmts sampleProgram sampleBody.stmts = [sampleVar, sampleParam] := by
  simp [sampleBody, declaredInStmts, sampleDecl, sampleTry, sampleAttempt, sampleCatch, sampleChoice,
    sampleAssign, sampleReturn, declarations_stmt, declarations_expr, declarations_declarator,
    declarations_catchClause, sample_declared, sample_param, Node.ofStmt, Node.ofExpr,
    Node.ofVarDecl, Node.ofBlock]

theorem sample_bodyStart (c : Concern) :
    BodyStart c sampleProgram sampleBody sampleStart .start fun _ => .absent where
  ready := by
    refine ⟨⟨rfl, ?_, ?_, ?_⟩, ⟨?_, ?_⟩, ?_, ?_⟩ <;>
      simp [sampleStart, DistinctSlots, Slots.Below, sample_declarations, sampleVar, sampleParam]
  covers := ⟨{}, {}, rfl, by simp [sampleStart], fun _ _ => rfl⟩

/-- A run of the protected part that completes: the variable is assigned in the second branch. -/
theorem sample_attempts :
    @Run.attempt sampleProgram (meaning sampleProgram 4) [] sampleAttempt [.write sampleVar] .done := by
  have cond : (meaning sampleProgram 3).condition (.name {} ⟨{ id := 5 }, {}⟩) [] (.truth false) := by
    refine ⟨.inl ?_, .inl ⟨false, rfl⟩⟩
    unfold Run.condition Run.conditionOr
    rw [sample_notConstant]
    refine .inr ⟨false, ?_, rfl⟩
    change @Run.expr sampleProgram (meaning sampleProgram 2) (.name {} ⟨{ id := 5 }, {}⟩) [] .done
    simp only [Run.expr, Run.read, sample_uses.2.2]
    exact ⟨rfl, rfl⟩
  have value : @Run.optional (meaning sampleProgram 1) (some (.literal {} .int {})) [] .done :=
    .inr ⟨[], [], rfl, ⟨.inl ⟨rfl, rfl⟩, .inl rfl⟩, rfl, rfl⟩
  have stored : Run.store sampleProgram (.name {} ⟨{ id := 4 }, {}⟩) [.write sampleVar] .done := by
    rw [store_of_target (v := sampleVar)]
    · exact ⟨rfl, rfl⟩
    · simp [Program.target?, Expr.withoutParens, sample_uses.2.1, sampleVar]
  have assigned : (meaning sampleProgram 3).stmt [] (sampleAssign 4) [.write sampleVar] .done :=
    .inl ⟨.inl (.inr ⟨[], _, rfl, ⟨rfl, rfl⟩, .inr ⟨[], _, rfl, value, stored⟩⟩), .inl rfl⟩
  have chosen : (meaning sampleProgram 4).stmt [] sampleChoice [.write sampleVar] .done :=
    .inl (.inr ⟨[], _, false, rfl, cond, _, rfl, assigned⟩)
  exact .inl ⟨_, rfl, .inr ⟨[], _, rfl, ⟨rfl, rfl⟩, _, rfl,
    .inr ⟨_, [], rfl, chosen, rfl, rfl⟩⟩⟩

/-- What the protected part assigns before an exception, it assigns in a run that completes. -/
theorem sample_recovers : Recovers sampleProgram [] sampleAttempt := by
  intro k σ es v hthrow hfinal hblank hassigned
  have own : v = sampleVar := by
    cases v with
    | var l =>
      obtain ⟨_ | n⟩ := l
      · rfl
      · cases hfinal
    | field f =>
      have row : sampleProgram.fieldEntry f = {} := by simp [sampleProgram, Program.fieldEntry]
      rw [Program.isFinal, row] at hfinal
      cases hfinal
    | _ => cases hfinal
  subst own
  refine ⟨4, _, sample_attempts, ?_⟩
  let _ := meaning sampleProgram k
  have settled : (@Run.attempt sampleProgram (meaning sampleProgram k) [] sampleAttempt).Settles
      (fun _ => True) [] :=
    (settling_meaning sampleProgram k).attempt (fun _ _ _ _ => trivial) fun _ _ => trivial
  rw [Store.after_single, Event.effect, if_pos rfl]
  cases hσ : σ sampleVar with
  | absent => exact absurd ((settled _ _ hthrow σ).absent hσ ▸ hassigned) (by decide)
  | blank | assigned => rfl

/-- The run of the body through the second branch. -/
theorem sample_runs : Runs sampleProgram sampleBody
    ([.enter sampleVar, .write sampleVar] ++ .read sampleVar :: [.leave sampleVar])
    (.jump .return) := by
  have declared : ∀ t, (meaning sampleProgram 5).stmt [] (sampleDecl t) [.enter sampleVar] .done := by
    refine fun t => .inl (.inr ⟨[.enter sampleVar], [], rfl, ?_, rfl, rfl⟩)
    simp [Run.declarator, sample_declared, emit]
  have attempted : (meaning sampleProgram 5).stmt [] sampleTry [.write sampleVar] .done :=
    .inl (.inl ⟨sample_attempts, nofun⟩)
  have seen : (meaning sampleProgram 4).expr (.name {} ⟨{ id := 3 }, {}⟩) [.read sampleVar] .done := by
    refine ⟨.inl ?_, .inl rfl⟩
    simp [Run.expr, Run.read, sample_read, sampleVar, emit]
  have returned : (meaning sampleProgram 5).stmt [] sampleReturn [.read sampleVar]
      (.jump .return) :=
    .inl (.inr ⟨[.read sampleVar], [], rfl, .inr ⟨_, [], rfl, seen, rfl, rfl⟩, rfl, rfl⟩)
  refine ⟨5, [.enter sampleVar, .write sampleVar, .read sampleVar], ?_, ?_⟩
  · simp [sampleBody, declaredIn, declaredBy, sampleDecl, sampleTry, sampleReturn, sample_declared]
  · exact .inr ⟨[.enter sampleVar], _, rfl, declared _, .inr ⟨[.write sampleVar], _, rfl, attempted,
      .inl ⟨returned, rfl⟩⟩⟩

/-- If no local variable is reported as read without a value, none is: in every run of the body, a
local variable that is in scope has a value where it is read. -/
theorem no_blank_read {b : Block} {a a' : Analysis} {s s' : Inits} {w w' : World} {σ : Store}
    {before after : List Event} {l : LocalId} {r : Outcome}
    (hb : (plain p (fun _ _ => True) n).block b)
    (hw : (@block (visitor n) b s).run a w = .ok (s', a') w') (hs : BodyStart .reads p b a s σ)
    (hq : a'.reported.count .uninitializedLocal = a.reported.count .uninitializedLocal)
    (hr : Runs p b (before ++ .read (.var l) :: after) r) : σ.after before (.var l) ≠ .blank :=
  (safe_of_quiet (c := .reads) hb hw hs hq hr).allows

theorem no_blank_read_sample :
    Store.after (fun _ => .absent) [.enter sampleVar, .write sampleVar] sampleVar ≠ .blank :=
  no_blank_read (sample_plain trivial) ran_sample (sample_bodyStart .reads) rfl sample_runs

/-- The program of the sample with a constant field, which is selected at node 8. -/
def constantProgram : Program :=
  { sampleProgram with findings := { sampleProgram.findings with
      constants := ({} : Std.HashMap Nat Constant).insert 8 (.boolean true) } }

/-- `x.C`. -/
def constantAccess : Expr := .field { id := 8 } (.name {} ⟨{ id := 3 }, {}⟩) ⟨{}, "C"⟩

/-- `final A x; if (x.C) { }`. -/
def constantBody : Block :=
  ⟨{}, [sampleDecl (.cls {} [] none ⟨{}, "A"⟩ [] false),
    .ifElse {} constantAccess (.block ⟨{}, []⟩) none]⟩

def constantStart : Analysis := { unit := ⟨0⟩, program := constantProgram }

theorem constant_declared : constantProgram.declared? ⟨{ id := 1 }, {}⟩ = some sampleVar :=
  sample_declared

theorem constant_access : constantProgram.constantCondition constantAccess = some true := by
  simp [Program.constantCondition, constantProgram, constantAccess, Expr.withoutParens, Expr.info]

theorem ran_constantBody (w : World) :
    Ran (@block (visitor 3) constantBody .start) constantStart w (Inits.start.forget 0)
      (constantStart.tracked sampleVar) w := by
  let s := Inits.start.forget 0
  let tracked := constantStart.tracked sampleVar
  have first : ∀ t, Ran ((visitor 3).stmt [] (sampleDecl t) .start) constantStart w s tracked w :=
    fun _ => Ran.bind (Ran.bind (ran_trackLocal constant_declared (by simp [constantStart]))
      (Ran.pure _ _ _)) (Ran.pure _ _ _)
  have cond : Ran ((visitor 2).condition constantAccess s) tracked w (.split s .vacuous) tracked
      w := by
    change Ran (@conditionRule _ (visitor 1) constantAccess s) _ _ _ _ _
    unfold conditionRule conditionOr
    exact Ran.constantBind constant_access (Ran.pure _ _ _)
  have second : Ran ((visitor 3).stmt [] (.ifElse {} constantAccess (.block ⟨{}, []⟩) none) s)
      tracked w s tracked w := by
    change Ran (@stmtRule _ (visitor 2) [] _ s) _ _ _ _ _
    unfold stmtRule
    exact Ran.bind cond (Ran.bind (Ran.pure _ _ _) (Ran.pure _ _ _))
  exact Ran.bind (first _) (Ran.bind second (Ran.pure _ _ _))

theorem constantBody_runs : Runs constantProgram constantBody
    ([.enter sampleVar] ++ .read sampleVar :: [.leave sampleVar]) .done := by
  have declared : ∀ t, (meaning constantProgram 3).stmt [] (sampleDecl t) [.enter sampleVar] .done := by
    refine fun t => .inl (.inr ⟨[.enter sampleVar], [], rfl, ?_, rfl, rfl⟩)
    simp [Run.declarator, constant_declared, emit]
  have seen : (meaning constantProgram 1).expr (.name {} ⟨{ id := 3 }, {}⟩) [.read sampleVar]
      .done := by
    have used : constantProgram.findings.uses[3]? = some sampleVar := sample_read
    refine ⟨.inl ?_, .inl rfl⟩
    simp [Run.expr, Run.read, used, sampleVar, emit]
  have cond : (meaning constantProgram 2).condition constantAccess [.read sampleVar]
      (.truth true) := by
    refine ⟨.inl ?_, .inl ⟨true, rfl⟩⟩
    change @Run.conditionOr constantProgram (meaning constantProgram 1) _ constantAccess _ _
    unfold Run.conditionOr
    rw [constant_access]
    exact .inr ⟨_, [], rfl, .inr ⟨_, [], rfl, seen, rfl, rfl⟩, rfl, rfl⟩
  have chosen : (meaning constantProgram 3).stmt []
      (.ifElse {} constantAccess (.block ⟨{}, []⟩) none) [.read sampleVar] .done :=
    .inl (.inr ⟨_, [], true, rfl, cond, [], rfl, .inl ⟨[], rfl, rfl, rfl⟩⟩)
  refine ⟨3, [.enter sampleVar, .read sampleVar], ?_, .inr ⟨[.enter sampleVar], _, rfl, declared _,
    .inr ⟨_, [], rfl, chosen, rfl, rfl⟩⟩⟩
  simp [constantBody, declaredIn, declaredBy, sampleDecl, constant_declared]

/-- What a constant is selected from is not walked in a condition: nothing is reported for the body,
which reads a variable that has no value. -/
theorem blank_read_unreported :
    (∃ s a' w, (@block (visitor 3) constantBody .start).run constantStart default = .ok (s, a') w ∧
        a'.reported = constantStart.reported) ∧
      Runs constantProgram constantBody
        ([.enter sampleVar] ++ .read sampleVar :: [.leave sampleVar]) .done ∧
      Store.after (fun _ => .absent) [.enter sampleVar] sampleVar = .blank :=
  ⟨⟨_, _, _, ran_constantBody default, rfl⟩, constantBody_runs, rfl⟩

/-- If no assignment to a final variable is reported, none is assigned when it may have a value: in
every run of a body with handlers only for parts that recover, a final local variable or field of
the current object has no value where it is assigned, and no final field of another object is. -/
theorem no_second_write {b : Block} {a a' : Analysis} {s s' : Inits} {w w' : World} {σ : Store}
    {before after : List Event} {e : Event} {r : Outcome} (hb : (plain p (Recovers p) n).block b)
    (hw : (@block (visitor n) b s).run a w = .ok (s', a') w') (hs : BodyStart .writes p b a s σ)
    (hq : a'.reported.countP (fun id => id == .finalReassignment || id == .finalFieldAssignment) =
      a.reported.countP fun id => id == .finalReassignment || id == .finalFieldAssignment)
    (hr : Runs p b (before ++ e :: after) r) :
    (∀ v, e = .write v → p.isFinal v → σ.after before v ≠ .assigned) ∧
      ∀ f, e = .store f → p.isFinal (.field f) = false := by
  have allowed := (safe_of_quiet (c := .writes) hb hw hs hq hr).allows
  constructor
  · rintro v rfl
    exact allowed
  · rintro f rfl
    exact allowed

theorem no_second_write_sample : sampleProgram.isFinal sampleVar ∧
    Store.after (fun _ => .absent) [.enter sampleVar] sampleVar ≠ .assigned :=
  have runs : Runs sampleProgram sampleBody
      ([.enter sampleVar] ++ .write sampleVar :: [.read sampleVar, .leave sampleVar])
      (.jump .return) :=
    sample_runs
  ⟨rfl, (no_second_write (sample_plain sample_recovers) ran_sample (sample_bodyStart .writes) rfl
    runs).1 _ rfl rfl⟩

end Javelin.Flow
