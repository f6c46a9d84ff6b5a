import Javelin.Proofs.Flow.Direct
import Javelin.Proofs.Flow.Switches

/-!
# How direct expressions end

The walks of switches, conditions and expressions know how their runs end, if the walks of their
parts do.
-/

namespace Javelin.Flow

open Endings

variable {X : Exceptions} {p : Program} {W : World → Prop} {n : Nat} {ρ : Held}
  {a a' a₁ : Analysis} {v v' : World} {s s' t : Inits} {A B C R : Endings} {r : Ending}
  {isExpression : Bool} {g : SwitchCase}

/-! ## Endings of groups -/

namespace Endings

theorem andThen_assoc (hr : (A.andThen (B.andThen C)) r) : ((A.andThen B).andThen C) r := by
  obtain ⟨hr, habrupt⟩ | ⟨hA, ⟨hr, habrupt⟩ | ⟨hB, hr⟩⟩ := hr
  · exact .inl ⟨.inl ⟨hr, habrupt⟩, habrupt⟩
  · exact .inl ⟨.inr ⟨hA, hr⟩, habrupt⟩
  · exact .inr ⟨.inr ⟨hA, hB⟩, hr⟩

theorem andThen_mono (h : ∀ r, B r → C r) (hr : (A.andThen B) r) : (A.andThen C) r :=
  hr.imp_right fun hr => ⟨hr.1, h r hr.2⟩

/-- A jump is not followed by anything. -/
theorem andThen_jump {j : Jump} (hr : (A.andThen (finish (.jump j))) r) :
    ((A.andThen (finish (.jump j))).andThen R) r := by
  refine .inl ⟨hr, ?_⟩
  obtain ⟨-, habrupt⟩ | ⟨-, rfl⟩ := hr
  · exact habrupt
  · rfl

theorem absorb_either {isOwn : Jump → Bool} (hr : ((A.either B).absorb isOwn) r) :
    ((A.absorb isOwn).either (B.absorb isOwn)) r := by
  obtain ⟨hr, hother⟩ | ⟨j, hown, hr, rfl⟩ := hr
  · exact hr.imp (fun hr => .inl ⟨hr, hother⟩) fun hr => .inl ⟨hr, hother⟩
  · exact hr.imp (fun hr => .inr ⟨j, hown, hr, rfl⟩) fun hr => .inr ⟨j, hown, hr, rfl⟩

theorem evaluated_mono (h : ∀ r, A r → B r) (hr : (A.evaluated X) r) : (B.evaluated X) r :=
  ⟨hr.1.imp_left (h r), hr.2⟩

end Endings

namespace Way

theorem afterGroup_andThen (hr : afterGroup isExpression g R r) :
    ((afterGroup isExpression g skip).andThen R) r := by
  unfold afterGroup at *
  cases hg : g.isArrow with
  | true =>
    rw [hg] at hr
    cases isExpression with
    | true => exact hr.elim
    | false =>
      subst hr
      exact .inl ⟨rfl, rfl⟩
  | false =>
    rw [hg] at hr
    exact .inr ⟨rfl, hr⟩

variable [Ways]

/-- The body of a group is a value, or statements. -/
theorem groupBody_cases (ρ : Held) (isExpression : Bool) (g : SwitchCase) :
    (∃ i x, (isExpression && g.isArrow) = true ∧ g.body = [.expr i x] ∧
      ∀ R, groupBody ρ isExpression g R = (Ways.expr ρ x).andThen (finish (.jump .yield))) ∨
    ((∀ i x, (isExpression && g.isArrow) = true → g.body ≠ [.expr i x]) ∧
      ∀ R, groupBody ρ isExpression g R =
        (stmts ρ g.body).andThen (afterGroup isExpression g R)) := by
  by_cases h : ∃ i x, (isExpression && g.isArrow) = true ∧ g.body = [.expr i x]
  · obtain ⟨i, x, hx, hb⟩ := h
    exact .inl ⟨i, x, hx, hb, fun R => by simp only [groupBody, hx, hb]⟩
  · simp only [not_exists, not_and] at h
    refine .inr ⟨h, fun R => ?_⟩
    unfold groupBody
    split
    · exact absurd ‹_› (h _ _ ‹_›)
    · rfl

theorem groupBody_andThen (hr : groupBody ρ isExpression g R r) :
    ((groupBody ρ isExpression g skip).andThen R) r := by
  obtain ⟨i, x, -, -, hR⟩ | ⟨-, hR⟩ := groupBody_cases ρ isExpression g
  · rw [hR] at hr ⊢
    exact andThen_jump hr
  · rw [hR] at hr ⊢
    exact andThen_assoc (andThen_mono (fun r => afterGroup_andThen) hr)

theorem guarded_andThen {guard : Option Expr} (h : ∀ r, A r → (B.andThen R) r)
    (hr : guarded ρ guard A r) : ((guarded ρ guard B).andThen R) r := by
  cases guard with
  | none => exact h r hr
  | some x =>
    obtain ⟨hr, habrupt⟩ | ⟨b, hb, hr⟩ := hr
    · exact .inl ⟨.inl ⟨hr, habrupt⟩, habrupt⟩
    · cases b with
      | false => exact hr.elim
      | true =>
        obtain ⟨hr, habrupt⟩ | ⟨hB, hr⟩ := h r hr
        · exact .inl ⟨.inr ⟨true, hb, hr⟩, habrupt⟩
        · exact .inr ⟨.inr ⟨true, hb, hB⟩, hr⟩

/-- A run of a group and of what follows it goes on from the end of the group. -/
theorem group_andThen (hr : group ρ isExpression g R r) :
    ((group ρ isExpression g skip).andThen R) r :=
  andThen_assoc (andThen_mono (fun _ => guarded_andThen fun _ => groupBody_andThen) hr)

end Way

/-! ## Conditions -/

namespace Follows

variable [Visitor] [Ways] (h : Follows X p W n)
include h

theorem not_done {x : Expr} : ¬ Ways.condition ρ x .done := by
  intro hr
  obtain ⟨_, hr⟩ | ⟨_, hr⟩ := h.truth ρ x _ hr <;> cases hr

/-- A value or an exception. -/
theorem exprs_ends {xs : List Expr} (hr : Way.exprs ρ xs r) : r = .done ∨ ∃ e, r = .throw e := by
  induction xs with
  | nil => exact .inl hr
  | cons x xs ih =>
    obtain ⟨hr, -⟩ | ⟨-, hr⟩ := hr
    · exact h.value ρ x r hr
    · exact ih hr

/-- A constant condition that may be left out ends with its value, or with an exception that need
not be declared. -/
theorem constant_ends {x : Expr} {b : Bool} (hx : X.CanSkip p x)
    (hc : p.constantCondition x = some b)
    (hr : ((Way.exprs ρ (p.qualifiers x)).andThen (finish (.truth b))) r) :
    ((finish (.truth b)).exposed X) r := by
  obtain ⟨hr, habrupt⟩ | ⟨-, rfl⟩ := hr
  · obtain rfl | ⟨e, rfl⟩ := h.exprs_ends hr
    · cases habrupt
    · exact .inr ⟨e, h.skipped ρ x b e hx hc hr, rfl⟩
  · exact .inl rfl

theorem conditionOr {x : Expr} (hx : Direct X p (n + 1) ρ.names (.expr x))
    {walk : Inits → Analyzer Inits} (hA : Leads X p W ρ walk A) :
    Leads X p W ρ (fun s => Flow.conditionOr (walk s) x s) (Way.conditionOr p ρ A x) := by
  intro s
  unfold Way.conditionOr
  refine LeadsAt.constantBind ?_
  cases hc : p.constantCondition x with
  | some b =>
    -- The branch that the constant rules out is vacuous.
    intro a v s' a' v' hv ha hw
    cases b with
    | true | false =>
      obtain ⟨rfl, rfl, rfl⟩ := ran_pure hw
      exact ⟨hv, (led_truth ha (.refl s)).exposed.of_imp fun _ => h.constant_ends hx.canSkip hc⟩
  | none =>
    cases x with
    | unary i op y isPostfix =>
      cases op with
      | not =>
        exact (h.condition ρ y (hx.child (by simp [Node.children, Node.ofExpr]))).negated s
      | _ => exact hA.guessed s
    | binary i op l r =>
      have left := h.condition ρ l (hx.child (by simp [Node.children, Node.ofExpr]))
      have right := h.condition ρ r (hx.child (by simp [Node.children, Node.ofExpr]))
      cases op with
      | condAnd => exact left.condAnd right h.not_done s
      | condOr => exact left.condOr right h.not_done s
      | _ => exact hA.guessed s
    | conditional i cond yes no =>
      have test := h.condition ρ cond (hx.child (by simp [Node.children, Node.ofExpr]))
      have yes := h.condition ρ yes (hx.child (by simp [Node.children, Node.ofExpr]))
      have no := h.condition ρ no (hx.child (by simp [Node.children, Node.ofExpr]))
      exact test.conditional yes no h.not_done h.not_done s
    | _ => exact hA.guessed s

end Follows

/-! ## Switches -/

/-- A group with an arrow leaves its state at the switch. -/
theorem led_atSwitch {u : Unit} (ha : Fit X p a) (hin : a.InSwitch isExpression)
    (h : Ran (atSwitch isExpression s) a v u a' v') :
    v' = v ∧ Led X p ρ a s (finish (.jump (groupJump isExpression))) a' .dead := by
  obtain ⟨b, y, gs, hf⟩ := hin
  obtain ⟨rfl, rfl⟩ := ran_modify h
  refine ⟨rfl, ?_⟩
  have known := ha.frames
  rw [hf, List.forall_mem_cons] at known
  have noted : ∀ {b' y' : Inits}, b.Weakens b' → y.Weakens y' →
      Recorded (groupJump isExpression) s (.switch isExpression b' y' :: gs) →
      Led X p ρ a s (finish (.jump (groupJump isExpression)))
        (a.around (.switch isExpression b' y' :: gs)) .dead := by
    intro b' y' hb hy hrec
    refine led_jump ⟨ha.program, List.forall_mem_cons.2 ⟨trivial, known.2⟩, ha.rethrown⟩
      ⟨?_, fun _ _ => rfl, Nat.le_refl _⟩ hrec
    rw [hf]
    exact .cons ⟨.switch hb hy, .nil⟩ (FramesGain.refl _)
  rw [hf]
  cases isExpression with
  | true =>
    exact noted (.refl _) (Inits.weakens_merge_left _ _) (Inits.weakens_merge_right y s)
  | false =>
    exact noted (Inits.weakens_merge_left _ _) (.refl _) (Inits.weakens_merge_right b s)

theorem Analysis.InSwitch.onward {ls : List LocalId} (hin : a.InSwitch isExpression)
    (ho : Onward ls a a') : a'.InSwitch isExpression :=
  hin.weaken ho.frames.weaken

namespace Follows

variable [Visitor] [Ways] (h : Follows X p W n)
include h

/-- The walk of a guard, and of what it guards. -/
theorem guarded {α : Type} {guard : Option Expr} {k : Inits → Analyzer α} {x : α}
    (hg : ∀ y ∈ guard, Direct X p n ρ.names (.expr y)) (hv : W v) (ha : Fit X p a)
    (hw : Ran (match guard with
      | some y => Visitor.condition y s >>= fun c => pure c.whenTrue >>= k
      | none => pure s >>= k) a v x a' v') :
    ∃ t a₁ v₁, Ran (k t) a₁ v₁ x a' v' ∧ W v₁ ∧ Fit X p a₁ ∧ Onward ρ.names a a₁ ∧
      ∀ {A a₂ u}, Led X p ρ a₁ t A a₂ u → Led X p ρ a s (Way.guarded ρ guard A) a₂ u := by
  cases guard with
  | none => exact ⟨s, a, v, hw, hv, ha, .refl a, fun led => led⟩
  | some y =>
    obtain ⟨c, a₁, v₁, hw₁, hw₂⟩ := ran_bind hw
    obtain ⟨hv₁, test⟩ := h.condition ρ y (hg y rfl) s a v c a₁ v₁ hv ha hw₁
    refine ⟨c.whenTrue, a₁, v₁, hw₂, hv₁, test.fit, test.onward, fun {A a₂ u} led => ?_⟩
    have no : Led X p ρ a₂ c.whenFalse nothing a₂ u := led_nothing led.fit
    exact test.branch led no (fun _ _ h => h) fun _ _ h => h

variable [Answers] (hA : X.Agrees W)
include hA

/-- What is known after the walk of one group. -/
theorem switchGroup {start : Inits} {w w₁ : SwitchWalk}
    (hg : Direct X p n ρ.names (.switchCase g)) (hin : a.InSwitch isExpression) (hv : W v)
    (ha : Fit X p a) (hw : Ran (Flow.switchGroup isExpression start w g) a v w₁ a₁ v') :
    W v' ∧ Led X p ρ a (if g.isArrow then start else start.merge w.fall)
        (Way.group ρ isExpression g skip) a₁ w₁.fall ∧
      w₁.isExhaustive = (w.isExhaustive || isTotal g) := by
  have labels : Leads X p W ρ (Flow.exprs g.labels) (Way.exprs ρ g.labels) :=
    h.exprs fun x hx => hg.below (by simp [Node.children, hx])
  have guards : ∀ x ∈ g.guard, Direct X p n ρ.names (.expr x) := fun x hx =>
    hg.below (by simp [Node.children, Option.mem_def.1 hx])
  have sts : Leads X p W ρ (Flow.stmts g.body) (Way.stmts ρ g.body) :=
    h.stmts hA fun st hst => hg.below (by simp [Node.children, hst])
  have exhaustive : (w.isExhaustive || g.isDefault || g.labels.any isPattern) =
      (w.isExhaustive || isTotal g) := Bool.or_assoc ..
  unfold Flow.switchGroup at hw
  obtain ⟨t, a₂, v₂, hw₁, hw⟩ := ran_bind hw
  obtain ⟨hv₂, first⟩ := labels _ a v t a₂ v₂ hv ha hw₁
  obtain ⟨t', a₃, v₃, hw, hv₃, ha₃, ho₃, guarding⟩ := h.guarded guards hv₂ first.fit hw
  have inside := (hin.onward first.onward).onward ho₃
  obtain ⟨i, x, hx, hb, hR⟩ | ⟨hb, hR⟩ := Way.groupBody_cases ρ isExpression g
  · obtain ⟨rfl, harrow⟩ : isExpression = true ∧ g.isArrow = true := by simpa using hx
    have direct : Direct X p n ρ.names (.stmt (.expr i x)) :=
      hg.below (by simp [Node.children, hb])
    simp only [harrow, hb, Bool.and_self] at hw
    obtain ⟨t₄, a₄, v₄, hw₂, hw⟩ := ran_bind hw
    obtain ⟨u, a₅, v₅, hw₃, hw⟩ := ran_bind hw
    obtain ⟨rfl, rfl, rfl⟩ := ran_pure hw
    obtain ⟨hv₄, value⟩ := h.expr ρ x (direct.below (by simp [Node.children, Node.ofStmt]))
      t' a₃ v₃ t₄ a₄ v₄ hv₃ ha₃ hw₂
    obtain ⟨rfl, left⟩ := led_atSwitch (ρ := ρ) value.fit (inside.onward value.onward) hw₃
    have body := value.andThen left
    exact ⟨hv₄, first.andThen (guarding (by rw [hR]; exact body)), exhaustive⟩
  · -- The statements, and what leaves the switch after them.
    obtain ⟨t₄, a₄, v₄, hw₂, hw₄⟩ : ∃ t₄ a₄ v₄, Ran (Flow.stmts g.body t') a₃ v₃ t₄ a₄ v₄ ∧
        Ran (if g.isArrow then
          (if isExpression then pure ⟨.dead, w.isExhaustive || isTotal g⟩
            else atSwitch false t₄ >>= fun _ => pure ⟨.dead, w.isExhaustive || isTotal g⟩)
          else pure ⟨t₄, w.isExhaustive || isTotal g⟩) a₄ v₄ w₁ a₁ v' := by
      rw [← exhaustive]
      split at hw
      · exact absurd ‹_› (hb _ _ ‹_›)
      · exact ran_bind hw
    obtain ⟨hv₄, body⟩ := sts t' a₃ v₃ t₄ a₄ v₄ hv₃ ha₃ hw₂
    suffices after : W v' ∧ Led X p ρ a₄ t₄ (Way.afterGroup isExpression g skip) a₁ w₁.fall ∧
        w₁.isExhaustive = (w.isExhaustive || isTotal g) by
      have whole := body.andThen after.2.1
      exact ⟨after.1, first.andThen (guarding (by rw [hR]; exact whole)), after.2.2⟩
    unfold Way.afterGroup
    cases harrow : g.isArrow with
    | false =>
      rw [harrow] at hw₄
      obtain ⟨rfl, rfl, rfl⟩ := ran_pure hw₄
      exact ⟨hv₄, led_skip body.fit, rfl⟩
    | true =>
      rw [harrow] at hw₄
      cases isExpression with
      | true =>
        obtain ⟨rfl, rfl, rfl⟩ := ran_pure hw₄
        exact ⟨hv₄, led_nothing body.fit, rfl⟩
      | false =>
        obtain ⟨u, a₅, v₅, hw₅, hw₆⟩ := ran_bind hw₄
        obtain ⟨rfl, rfl, rfl⟩ := ran_pure hw₆
        obtain ⟨rfl, left⟩ := led_atSwitch (ρ := ρ) body.fit (inside.onward body.onward) hw₅
        exact ⟨hv₄, left, rfl⟩

/-- The walk of groups knows how the runs end that fall into the first one, and those that enter one
of them from the selector. -/
theorem switchGroups {gs : List SwitchCase} {start : Inits} {w w' : SwitchWalk}
    (hgs : ∀ g ∈ gs, Direct X p n ρ.names (.switchCase g)) (hin : a.InSwitch isExpression)
    (hv : W v) (ha : Fit X p a)
    (hw : Ran (gs.foldlM (Flow.switchGroup isExpression start) w) a v w' a' v') :
    W v' ∧ Led X p ρ a w.fall (Way.fall ρ isExpression gs) a' w'.fall ∧
      Led X p ρ a start (Way.enter ρ isExpression gs) a' w'.fall ∧
      w'.isExhaustive = (w.isExhaustive || gs.any isTotal) := by
  induction gs generalizing a v w with
  | nil =>
    obtain ⟨rfl, rfl, rfl⟩ := ran_pure hw
    exact ⟨hv, led_skip ha, led_nothing ha, by simp⟩
  | cons g gs ih =>
    obtain ⟨w₁, a₁, v₁, hw₁, hw₂⟩ := ran_bind hw
    obtain ⟨hv₁, group, exhaustive⟩ := h.switchGroup hA (hgs g List.mem_cons_self) hin hv ha hw₁
    obtain ⟨hv', falls, enters, exhaustive'⟩ := ih
      (fun y hy => hgs y (List.mem_cons_of_mem _ hy)) (hin.onward group.onward) hv₁ group.fit hw₂
    have whole := (group.andThen falls).of_imp fun _ => Way.group_andThen
    refine ⟨hv', ?_, ?_, by rw [exhaustive', exhaustive, List.any_cons, Bool.or_assoc]⟩
    · unfold Way.fall
      cases harrow : g.isArrow with
      | true => exact whole.nothing
      | false =>
        rw [harrow] at whole
        exact whole.before fun hs => hs.weaken (Inits.weakens_merge_right _ _)
    · refine Led.either (whole.before fun hs => ?_) (enters.later group.onward)
      split
      · exact hs
      · exact hs.weaken (Inits.weakens_merge_left _ _)

theorem switch {selector : Expr} {gs : List SwitchCase}
    (hs : Direct X p n ρ.names (.expr selector))
    (hgs : ∀ g ∈ gs, Direct X p n ρ.names (.switchCase g)) :
    Leads X p W ρ (switchBody selector gs isExpression)
      (Way.switch X ρ isExpression selector gs) := by
  refine (h.expr ρ selector hs).bind fun s a v s' a' v' hv ha hw => ?_
  obtain ⟨⟨w, g⟩, a₁, v₁, hwf, hw₁⟩ := ran_bind hw
  obtain ⟨a₂, hwi, frame⟩ := ran_framed hwf
  have pushed : Fit X p (a.push (.switch isExpression .dead .dead)) := ha.push trivial
  obtain ⟨hv₁, -, enters, exhaustive⟩ := h.switchGroups hA hgs ⟨_, _, _, rfl⟩ hv pushed hwi
  obtain ⟨fs, hl, rfl⟩ := frame enters.fit enters.onward
  obtain ⟨b, y, rfl⟩ : ∃ b y, g = .switch isExpression b y := by
    have hg := hl.gains.weakens
    cases hg
    exact ⟨_, _, rfl⟩
  cases isExpression with
  | true =>
    obtain ⟨rfl, rfl, rfl⟩ := ran_pure hw₁
    have own : ∀ (j : Jump) (t : Inits) gs, (j == .yield) = true →
        Recorded j t (.switch true b y :: gs) → t.Weakens y := by
      rintro j t gs hj hrec
      obtain rfl := eq_of_beq hj
      exact hrec
    have ended := enters.absorbAll hl (fun _ _ _ h => h) own (Inits.weakens_merge_right y w.fall)
      (Inits.weakens_merge_left y w.fall)
    exact ⟨hv₁, ended.of_imp fun r => evaluated_mono fun r hr =>
      (absorb_either hr).elim (fun hr => hr) fun hr => by simp [absorb, nothing] at hr⟩
  | false =>
    obtain ⟨rfl, rfl, rfl⟩ := ran_pure hw₁
    have skips : Led X p ρ a s skip (a₂.around fs) s :=
      ⟨hl.fit, hl.onward, fun _ _ hs r hr => by
        subst hr
        exact hs⟩
    have passes : (Frame.switch false b y).LetsPass := fun _ _ _ h => h
    simp only [Bool.false_or] at exhaustive
    simp only [exhaustive, Way.groups, Bool.false_or, Bool.false_eq_true, if_false]
    split
    · refine ⟨hv₁, (enters.absorb hl passes (ends_switch b y) (Inits.weakens_merge_left _ _)
        (Inits.weakens_merge_right _ _)).of_imp fun r hr => ?_⟩
      exact (absorb_either hr).elim (fun hr => hr) fun hr => by simp [absorb, nothing] at hr
    · have left := enters.absorb hl passes (ends_switch b y) (u := (w.fall.merge b).merge s)
        ((Inits.weakens_merge_left _ _).trans (Inits.weakens_merge_left _ _))
        ((Inits.weakens_merge_right _ _).trans (Inits.weakens_merge_left _ _))
      have right := skips.weaken (Inits.weakens_merge_right (w.fall.merge b) s) IsPlain.skip
      refine ⟨hv₁, (left.either right).of_imp fun r hr => ?_⟩
      exact (absorb_either hr).imp_right fun hr => hr.elim And.left fun ⟨_, _, hr, _⟩ => nomatch hr

/-! ## The rules -/

variable (hX : X.Lawful)
include hX

/-- The walk of an expression knows how its runs end. -/
theorem exprRule {x : Expr} (hx : Direct X p (n + 1) ρ.names (.expr x)) :
    Leads X p W ρ (Flow.exprRule x) (Way.expr X p ρ x) := by
  have all : ∀ ys : List Expr, (∀ y ∈ ys, Node.expr y ∈ (Node.expr x).children) →
      Leads X p W ρ (Flow.exprs ys) (Way.exprs ρ ys) := fun ys hys =>
    h.exprs fun y hy => hx.child (hys y hy)
  have one : ∀ y, Node.expr y ∈ (Node.expr x).children →
      Leads X p W ρ (Visitor.expr y) (Ways.expr ρ y) := fun y hy => h.expr ρ y (hx.child hy)
  cases x with
  | paren i y | cast i t y | methodRef i y ts n =>
    exact one y (by simp [Node.children, Node.ofExpr])
  | name i n => exact leads_skip.calmFirst (calm_read hA n)
  | field i owner n =>
    unfold Flow.exprRule Way.expr
    by_cases ho : isThis owner
    · simp only [ho, if_true]
      exact leads_skip.calmFirst (calm_readField hA i n)
    · simp only [ho]
      exact one owner (by simp [Node.children, Node.ofExpr])
  | call i target ts n args =>
    have targets := all target.toList fun y hy => by simp_all [Node.children, Node.ofExpr]
    have values := all args fun y hy => by simp [Node.children, Node.ofExpr, hy]
    exact targets.bind (values.bind (leads_call hX hA i i))
  | newObject i outer ts t args body =>
    have outers := all outer.toList fun y hy => by simp_all [Node.children, Node.ofExpr]
    have values := all args fun y hy => by simp [Node.children, Node.ofExpr, hy]
    cases body with
    | none => exact outers.bind (values.bind (leads_call hX hA i i))
    | some d =>
      have inner : Direct X p n ρ.names (.typeDecl d) :=
        hx.child (by simp [Node.children, Node.ofExpr])
      exact inner.sensible.elim
  | newArray i t dims m init =>
    have sizes := all dims fun y hy => by simp [Node.children, Node.ofExpr, hy]
    have inits := all init.toList fun y hy => by simp_all [Node.children, Node.ofExpr]
    exact sizes.bind inits
  | arrayInit i elems => exact all elems fun y hy => by simp [Node.children, Node.ofExpr, hy]
  | index i array y =>
    exact (one array (by simp [Node.children, Node.ofExpr])).bind
      (one y (by simp [Node.children, Node.ofExpr]))
  | unary i op y isPostfix =>
    have asValue := (h.conditionOr hx leads_skip).valued
    have operand := one y (by simp [Node.children, Node.ofExpr])
    have changed : Leads X p W ρ (Flow.assignment y none true) (Way.assignment ρ y none) :=
      h.assignment hA (hx.child (by simp [Node.children, Node.ofExpr])) (by simp)
    cases op with
    | not => exact asValue
    | inc | dec => exact changed
    | _ => exact operand
  | binary i op l r =>
    have asValue := (h.conditionOr hx leads_skip).valued
    have operands := (one l (by simp [Node.children, Node.ofExpr])).bind
      (one r (by simp [Node.children, Node.ofExpr]))
    cases op with
    | condAnd | condOr => exact asValue
    | _ => exact operands
  | assign i op target value =>
    exact h.assignment hA (hx.child (by simp [Node.children, Node.ofExpr])) fun y hy =>
      hx.child (by simp_all [Node.children, Node.ofExpr])
  | conditional i cond yes no =>
    exact (h.condition ρ cond (hx.child (by simp [Node.children, Node.ofExpr]))).branch
      (one yes (by simp [Node.children, Node.ofExpr]))
      (one no (by simp [Node.children, Node.ofExpr]))
  | instanceOf i y t pattern =>
    have patterns := all pattern.toList fun y hy => by simp_all [Node.children, Node.ofExpr]
    exact (one y (by simp [Node.children, Node.ofExpr])).bind patterns
  | typePattern i m t n => exact leads_calm (quiet_bind n)
  | recordPattern i t subs => exact all subs fun y hy => by simp [Node.children, Node.ofExpr, hy]
  | lambda => exact hx.sensible.elim
  | switch i selector gs =>
    exact h.switch hA (hx.child (by simp [Node.children, Node.ofExpr])) fun g hg =>
      hx.child (by simp [Node.children, Node.ofExpr, hg])
  | _ => exact leads_skip

/-- The walk of a condition knows how its runs end. -/
theorem conditionRule {x : Expr} (hx : Direct X p (n + 1) ρ.names (.expr x)) :
    Leads X p W ρ (Flow.conditionRule x) (Way.condition X p ρ x) :=
  h.conditionOr hx.withoutParens (h.exprRule hA hX hx.withoutParens)

end Follows

end Javelin.Flow
