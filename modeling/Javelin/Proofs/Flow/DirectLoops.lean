import Javelin.Proofs.Flow.DirectExpressions

/-!
# How direct loops end

The walks of loops know how their runs end, if the walks of their parts do. Every round of a loop
ends like the first one, so one walk is enough.
-/

namespace Javelin.Flow

open Endings

variable {X : Exceptions} {p : Program} {W : World → Prop} {n : Nat} {ρ : Held}
  {a a' a₁ : Analysis} {v v' : World} {s s' t : Inits} {A B C T F : Endings} {r : Ending}
  {labels : List Text} {cond : Expr} {st : Stmt} {j : Jump}

/-! ## Endings of loops -/

namespace Endings

theorem turn_not_done {isOwn : Jump → Bool} : ¬ A.turn isOwn .done := by
  rintro (⟨-, h⟩ | ⟨-, h⟩ | ⟨-, h, -⟩)
  · cases h
  · cases h
  · simp [Ending.isAbrupt] at h

theorem andThen_not_done (hB : ¬ B .done) : ¬ (A.andThen B) .done := by
  rintro (⟨-, h⟩ | ⟨-, h⟩)
  · simp [Ending.isAbrupt] at h
  · exact hB h

theorem branch_not_done (hT : ¬ T .done) (hF : ¬ F .done) : ¬ (C.branch T F) .done := by
  rintro (⟨-, h⟩ | ⟨b, -, h⟩)
  · simp [Ending.isAbrupt] at h
  · cases b with
    | true => exact hT h
    | false => exact hF h

/-- The jumps that leave the body of a loop do not end at the loop. -/
theorem turn_jump {isOwn : Jump → Bool} (h : A.turn isOwn (.jump j)) :
    j ≠ .break none ∧ isOwn j = false := by
  obtain ⟨-, h⟩ | ⟨-, h⟩ | ⟨⟨-, -, h⟩ | ⟨_, -, -, h⟩, -, hb⟩ := h
  · cases h
  · cases h
  · exact ⟨fun hj => hb (hj ▸ rfl), h j rfl⟩
  · cases h

/-- Where a jump out of a condition and its branches comes from. -/
theorem jump_of_branch (hr : (C.branch T F) (.jump j)) :
    C (.jump j) ∨ T (.jump j) ∨ F (.jump j) := by
  obtain ⟨hr, -⟩ | ⟨b, -, hr⟩ := hr
  · exact .inl hr
  · cases b with
    | true => exact .inr (.inl hr)
    | false => exact .inr (.inr hr)

end Endings

/-- A jump that the body of a loop does not end goes on outward. -/
theorem recorded_of_turn {b k t : Inits} {gs : List Frame}
    (hr : A.turn (Run.continues labels) (.jump j))
    (hj : Recorded j t (.loop labels b k :: gs)) : Recorded j t gs :=
  recorded_loop hj (turn_jump hr).1 (turn_jump hr).2

/-- Exceptions pass the frame of a loop. -/
theorem loop_letsPass (b k : Inits) : (Frame.loop labels b k).LetsPass := fun _ _ _ h => h

theorem Left.loop_eq {ls : List LocalId} {b k : Inits} {g : Frame} {gs : List Frame}
    (h : Left X p ls a (.loop labels b k) a₁ g gs) :
    g = .loop labels g.loopExits.1 g.loopExits.2 :=
  h.gains.weakens.loop_eq

/-- The state in which the body of a loop starts. -/
theorem calm_loopBodyStart [Answers] (hA : X.Agrees W) {value : Option Bool} (q : Inits) :
    Calm W (loopBodyStart value st q) fun t =>
      t = if value == some false then .dead else q.whenTrue := by
  unfold loopBodyStart
  split
  · refine (calm_markUnreachable st).bind fun _ _ => ?_
    exact (calm_report hA (by decide) _ _).bind fun _ _ => calm_pure rfl
  · exact calm_pure rfl

/-- A step that depends on whether a condition is there, and what follows it. -/
theorem ran_optionBind {α β : Type} {x : Option Expr} {f : Expr → Analyzer β} {m : Analyzer β}
    {k : β → Analyzer α} {y : α} (hw : Ran (match x with
      | some z => f z >>= k
      | none => m >>= k) a v y a' v') :
    ∃ t a₁ v₁, Ran (match x with
      | some z => f z
      | none => m) a v t a₁ v₁ ∧ Ran (k t) a₁ v₁ y a' v' := by
  cases x <;> exact ran_bind hw

theorem LeadsAt.constantOptionBind {x : Option Expr} {k : Option Bool → Analyzer Inits} :
    LeadsAt X p W ρ (k (x.bind p.constantCondition)) s A → LeadsAt X p W ρ (match x with
      | some y => constantCondition y >>= k
      | none => pure none >>= k) s A := by
  intro hk
  cases x with
  | none => exact hk
  | some y => exact .constantBind hk

namespace Follows

variable [Visitor] [Ways] (h : Follows X p W n)
include h

theorem condition_jump {x : Expr} : ¬ Ways.condition ρ x (.jump j) := by
  intro hr
  obtain ⟨_, hr⟩ | ⟨_, hr⟩ := h.truth ρ x _ hr <;> cases hr

theorem test_jump {x : Option Expr} : ¬ Way.test ρ x (.jump j) := by
  cases x with
  | none => nofun
  | some x => exact h.condition_jump

theorem exprs_jump {xs : List Expr} : ¬ Way.exprs ρ xs (.jump j) := by
  induction xs with
  | nil => nofun
  | cons x xs ih =>
    rintro (⟨hr, -⟩ | ⟨-, hr⟩)
    · obtain hr | ⟨_, hr⟩ := h.value ρ x _ hr <;> cases hr
    · exact ih hr

/-- A test whose truth is as the constant says. -/
theorem test {x : Expr} (hx : Direct X p n ρ.names (.expr x)) {q : Inits} (hv : W v)
    (ha : Fit X p a) (hw : Ran (Visitor.condition x s) a v q a' v') :
    W v' ∧ Led X p ρ a s (Ways.condition ρ x) a'
      (.split (if p.constantCondition x == some false then .dead else q.whenTrue)
        (loopExit (p.constantCondition x) q)) := by
  obtain ⟨hv', led⟩ := h.condition ρ x hx s a v q a' v' hv ha hw
  refine ⟨hv', led.loopTest (fun b hb => ?_) h.not_done⟩
  cases hc : p.constantCondition x with
  | none => rfl
  | some b' => simp [h.constant ρ x b' b hc hb]

/-! ## Loops -/

theorem doLoop (hc : Direct X p n ρ.names (.expr cond)) (hst : Direct X p n ρ.names (.stmt st)) :
    Leads X p W ρ (Flow.doLoop labels st cond) (Way.doLoop ρ labels st cond) := by
  refine fun s => LeadsAt.calmBind (calm_assignedIn _) fun ns _ a v s' a' v' hv ha hw => ?_
  obtain ⟨⟨stop, g⟩, a₁, v₁, hwf, hw⟩ := ran_bind hw
  obtain ⟨a₂, hws, frame⟩ := ran_framed hwf
  have pushed : Fit X p (a.push (.loop labels .dead .dead)) := ha.push trivial
  obtain ⟨hv₁, body⟩ := h.stmt ρ [] st hst _ _ v stop a₂ v₁ hv pushed hws
  obtain ⟨gs, hl, rfl⟩ := frame body.fit body.onward
  obtain ⟨b, k, rfl⟩ : ∃ b k, g = .loop labels b k := ⟨_, _, hl.loop_eq⟩
  have turned := (body.turn hl.frames).pop hl (loop_letsPass b k) fun j t hrj hj =>
    recorded_of_turn hrj hj
  obtain ⟨q, a₃, v₃, hwc, hw⟩ := ran_bind hw
  obtain ⟨hv₃, test⟩ := h.test hc hv₁ hl.fit hwc
  have hw : Ran (pure ((loopExit (a₃.program.constantCondition cond) q).merge b)) a₃ v₃ s' a' v' :=
    hw
  rw [test.fit.program] at hw
  obtain ⟨rfl, rfl, rfl⟩ := ran_pure hw
  have round := turned.thenTest test h.not_done (Inits.weakens_merge_right _ _)
    (Inits.weakens_merge_left _ _)
  exact ⟨hv₃, round.rounds fun hs => hs.allow ns⟩

theorem inits {sts : List Stmt} (hsts : ∀ st ∈ sts, Direct X p n ρ.names (.stmt st)) :
    Leads X p W ρ (fun s => sts.foldlM (fun s st => Visitor.stmt [] st s) s) (Way.stmts ρ sts) := by
  induction sts with
  | nil => exact leads_skip
  | cons st sts ih =>
    exact (h.stmt ρ [] st (hsts st List.mem_cons_self)).bind
      (ih fun y hy => hsts y (List.mem_cons_of_mem _ hy))

/-- The test of a for loop. -/
theorem forTest {cond : Option Expr} (hc : ∀ x ∈ cond, Direct X p n ρ.names (.expr x)) {q : Inits}
    (hv : W v) (ha : Fit X p a)
    (hw : Ran (match cond with
      | some x => Visitor.condition x s
      | none => pure (.split s .dead)) a v q a' v') :
    W v' ∧ Led X p ρ a s (Way.test ρ cond) a'
      (.split (if cond.bind p.constantCondition == some false then .dead else q.whenTrue)
        (loopExit (cond.bind p.constantCondition) q)) := by
  cases cond with
  | none =>
    obtain ⟨rfl, rfl, rfl⟩ := ran_pure hw
    exact ⟨hv, led_truth ha (.refl s)⟩
  | some x => exact h.test (hc x rfl) hv ha hw

theorem forEachLoop {d : VarDecl} {iterable : Expr}
    (hx : Direct X p n ρ.names (.expr iterable)) (hst : Direct X p n ρ.names (.stmt st)) :
    Leads X p W ρ (Flow.forEachLoop labels d iterable st)
      (Way.forEachLoop ρ labels iterable st) := by
  refine (h.expr ρ iterable hx).bind fun s => LeadsAt.calmBind (calm_assignedIn _) fun ns _ => ?_
  intro a v s' a' v' hv ha hw
  obtain ⟨⟨stop, g⟩, a₁, v₁, hwf, hw⟩ := ran_bind hw
  obtain ⟨rfl, rfl, rfl⟩ := ran_pure hw
  obtain ⟨a₂, hwi, frame⟩ := ran_framed hwf
  obtain ⟨start, a₃, v₃, hwb, hws⟩ := ran_bind hwi
  have pushed : Fit X p (a.push (.loop labels .dead .dead)) := ha.push trivial
  obtain ⟨hv₃, same, live⟩ := quiet_binds VarDeclarator.name d.vars _ _ _ _ _ _ hv hwb
  obtain ⟨hv', body⟩ := h.stmt ρ [] st hst _ _ _ stop _ _ hv₃ (same.fit pushed) hws
  obtain ⟨gs, hl, rfl⟩ := frame body.fit (same.onward.trans body.onward)
  obtain ⟨b, k, rfl⟩ : ∃ b k, g = .loop labels b k := ⟨_, _, hl.loop_eq⟩
  have turned := ((body.unmoved same).turn hl.frames).before live
  have goes := turned.weakenExit (u := (s.allow ns).merge b) Endings.turn_not_done
    (Inits.weakens_merge_right _ _)
  have ends : Led X p ρ a₂ (s.allow ns) (finish (.truth false)) a₂
      (.split (stop.merge k) ((s.allow ns).merge b)) :=
    led_truth body.fit (Inits.weakens_merge_left _ _)
  have popped := ((ends.later goes.onward).either goes).pop hl (loop_letsPass b k)
    fun j t hrj hj => by
      obtain hrj | hrj := hrj
      · exact nomatch hrj
      · exact recorded_of_turn hrj hj
  exact ⟨hv', popped.rounds fun hs => hs.allow ns⟩

variable [Answers] (hA : X.Agrees W)
include hA

theorem whileLoop (hc : Direct X p n ρ.names (.expr cond))
    (hst : Direct X p n ρ.names (.stmt st)) :
    Leads X p W ρ (Flow.whileLoop labels cond st) (Way.whileLoop ρ labels cond st) := by
  refine fun s => LeadsAt.calmBind (calm_assignedIn _) fun ns _ => LeadsAt.constantBind ?_
  intro a v s' a' v' hv ha hw
  obtain ⟨⟨q, g⟩, a₁, v₁, hwf, hw⟩ := ran_bind hw
  obtain ⟨rfl, rfl, rfl⟩ := ran_pure hw
  obtain ⟨a₂, hwi, frame⟩ := ran_framed hwf
  obtain ⟨_, a₃, v₃, hwc, hw⟩ := ran_bind hwi
  obtain ⟨start, a₄, v₄, hwb, hw⟩ := ran_bind hw
  obtain ⟨stop, a₅, v₅, hws, hw⟩ := ran_bind hw
  obtain ⟨rfl, rfl, rfl⟩ := ran_pure hw
  have pushed : Fit X p (a.push (.loop labels .dead .dead)) := ha.push trivial
  obtain ⟨hv₃, test⟩ := h.test hc hv pushed hwc
  obtain ⟨hv₄, same, rfl⟩ := calm_loopBodyStart hA _ _ _ _ _ _ hv₃ hwb
  obtain ⟨hv₅, body⟩ := h.stmt ρ [] st hst _ _ _ stop _ _ hv₄ (same.fit test.fit) hws
  obtain ⟨gs, hl, rfl⟩ := frame body.fit (test.onward.trans (same.onward.trans body.onward))
  obtain ⟨b, k, rfl⟩ : ∃ b k, g = .loop labels b k := ⟨_, _, hl.loop_eq⟩
  have turned := (body.unmoved same).turn hl.frames
  have round := test.thenTest turned Endings.turn_not_done (Inits.weakens_merge_left _ _)
    (Inits.weakens_merge_right _ _)
  have popped := round.pop hl (loop_letsPass b k) fun j t hrj hj => by
    obtain hrj | hrj | hrj := Endings.jump_of_branch hrj
    · exact absurd hrj h.condition_jump
    · exact recorded_of_turn hrj hj
    · exact nomatch hrj
  exact ⟨hv₅, popped.rounds fun hs => hs.allow ns⟩

theorem forLoop {init : List Stmt} {cond : Option Expr} {update : List Expr}
    (hi : ∀ st ∈ init, Direct X p n ρ.names (.stmt st))
    (hc : ∀ x ∈ cond, Direct X p n ρ.names (.expr x))
    (hu : ∀ x ∈ update, Direct X p n ρ.names (.expr x)) (hst : Direct X p n ρ.names (.stmt st)) :
    Leads X p W ρ (Flow.forLoop labels init cond update st)
      (Way.forLoop ρ labels init cond update st) := by
  refine (h.inits hi).bind fun s => LeadsAt.calmBind (calm_assignedIn _) fun ns _ => ?_
  refine LeadsAt.constantOptionBind ?_
  intro a v s' a' v' hv ha hw
  obtain ⟨⟨q, g⟩, a₁, v₁, hwf, hw⟩ := ran_bind hw
  obtain ⟨rfl, rfl, rfl⟩ := ran_pure hw
  obtain ⟨a₂, hwi, frame⟩ := ran_framed hwf
  obtain ⟨_, a₃, v₃, hwc, hw⟩ := ran_optionBind hwi
  obtain ⟨start, a₄, v₄, hwb, hw⟩ := ran_bind hw
  obtain ⟨stop, a₅, v₅, hws, hw⟩ := ran_bind hw
  have hw := ran_getBind hw
  obtain ⟨next, a₆, v₆, hwu, hw⟩ := ran_bind hw
  obtain ⟨rfl, rfl, rfl⟩ := ran_pure hw
  have pushed : Fit X p (a.push (.loop labels .dead .dead)) := ha.push trivial
  obtain ⟨hv₃, test⟩ := h.forTest hc hv pushed hwc
  obtain ⟨hv₄, same, rfl⟩ := calm_loopBodyStart hA _ _ _ _ _ _ hv₃ hwb
  obtain ⟨hv₅, body⟩ := h.stmt ρ [] st hst _ _ _ stop _ _ hv₄ (same.fit test.fit) hws
  have body := body.unmoved same
  -- The frame of the loop after the body, where the breaks and continues are, and at the end.
  obtain ⟨g₁, gs₁, hl₁⟩ := left body.fit (test.onward.trans body.onward)
  obtain ⟨b₁, k₁, rfl⟩ : ∃ b k, g₁ = .loop labels b k := ⟨_, _, hl₁.loop_eq⟩
  have turned := body.turn hl₁.frames
  rw [hl₁.frames] at hwu
  obtain ⟨hv₆, updates⟩ := h.exprs hu _ _ _ next _ _ hv₅ body.fit hwu
  have step := updates.andThen (led_truth (b := true) (u := .dead) updates.fit (.refl next))
  obtain ⟨gs, hl, rfl⟩ := frame step.fit (test.onward.trans (body.onward.trans updates.onward))
  obtain ⟨b, k, rfl⟩ : ∃ b k, g = .loop labels b k := ⟨_, _, hl.loop_eq⟩
  have breaks : b₁.Weakens b := by
    have later := updates.onward.frames.weaken
    rw [hl₁.frames, hl.frames] at later
    cases later with
    | cons hg _ => cases hg with | loop hb _ => exact hb
  have stepping : ¬ ((Way.exprs ρ update).andThen (finish (.truth true))) .done :=
    Endings.andThen_not_done nofun
  have again := turned.thenTest step stepping breaks (Inits.dead_weakens _)
  have round := test.thenTest again (Endings.branch_not_done stepping nofun)
    (Inits.weakens_merge_left _ _) (Inits.weakens_merge_right _ _)
  have popped := round.pop hl (loop_letsPass b k) fun j t hrj hj => by
    obtain hrj | hrj | hrj := Endings.jump_of_branch hrj
    · exact absurd hrj h.test_jump
    · obtain hrj | hrj | hrj := Endings.jump_of_branch hrj
      · exact recorded_of_turn hrj hj
      · obtain ⟨hrj, -⟩ | ⟨-, hrj⟩ := hrj
        · exact absurd hrj h.exprs_jump
        · cases hrj
      · exact nomatch hrj
    · exact nomatch hrj
  exact ⟨hv₆, popped.rounds fun hs => hs.allow ns⟩

end Follows

end Javelin.Flow
