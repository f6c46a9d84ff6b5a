import Javelin.Proofs.Flow.Switches

/-!
# Loops are followed

A loop is walked once, from a state that allows for what its body assigns. That state covers the
start of every round, because a round changes nothing else (`Sound.rounds`).
-/

namespace Javelin.Flow

open Behavior

variable {c : Concern} {p : Program} {F : Forms} {D : List Symbol} {a a' a₁ : Analysis}
  {s s' : Inits} {labels : List Text} {cond : Expr} {st : Stmt}

/-! ## What a loop assigns -/

theorem walks_targetSlot {x : Expr} {n : Option Nat} (hw : Walks (targetSlot x) a n a') :
    n = (a.program.target? x).bind (a.slots[·]?) ∧ a' = a := by
  have hw := walks_getBind hw
  cases hv : a.program.target? x with
  | none =>
    rw [hv] at hw
    exact walks_pure hw
  | some v =>
    rw [hv] at hw
    exact walks_gets hw

theorem walks_filterMapM_targetSlot {xs : List Expr} {ns : List Nat}
    (hw : Walks (xs.filterMapM targetSlot) a ns a') :
    ns = xs.filterMap (fun x => (a.program.target? x).bind (a.slots[·]?)) ∧ a' = a := by
  induction xs generalizing ns with
  | nil => exact walks_pure hw
  | cons x xs ih =>
    rw [List.filterMapM_cons] at hw
    obtain ⟨n, a₁, hw₁, hw⟩ := walks_bind hw
    obtain ⟨rfl, rfl⟩ := walks_targetSlot hw₁
    cases hn : (a₁.program.target? x).bind (a₁.slots[·]?) with
    | none =>
      rw [hn] at hw
      simpa [hn] using ih hw
    | some n =>
      rw [hn] at hw
      obtain ⟨ms, a₂, hw₁, hw⟩ := walks_bind hw
      obtain ⟨rfl, rfl⟩ := walks_pure hw
      obtain ⟨rfl, rfl⟩ := ih hw₁
      simp [hn]

/-- The slots of all variables that parts assign. -/
theorem walks_assignedIn {parts : List Node} {ns : List Nat} (ht : Tidy p a)
    (hw : Walks (assignedIn parts) a ns a') :
    a' = a ∧ (∀ n ∈ ns, n < a.nextSlot) ∧
      ∀ v n, (∃ q ∈ parts, Assigns p q v) → a.slots[v]? = some n → n ∈ ns := by
  obtain ⟨rfl, rfl⟩ := walks_filterMapM_targetSlot hw
  rw [ht.program]
  refine ⟨rfl, fun n hn => ?_, ?_⟩
  · obtain ⟨x, -, hx⟩ := List.mem_filterMap.1 hn
    obtain ⟨v, -, hv⟩ := Option.bind_eq_some_iff.1 hx
    exact ht.below v n hv
  · rintro v n ⟨q, hq, t, ht, hv⟩ hn
    refine List.mem_filterMap.2 ⟨t, List.mem_flatMap.2 ⟨q, hq, ht⟩, ?_⟩
    rw [hv]
    exact hn

/-! ## Rounds -/

/-- The start of the body after the condition. -/
theorem walks_loopBodyStart {value : Option Bool} {q t : Inits}
    (hw : Walks (loopBodyStart value st q) a t a') :
    t = (if value == some false then .dead else q.whenTrue) ∧ Kept a a' := by
  unfold loopBodyStart at hw
  split at hw <;> rename_i hv
  · obtain ⟨u, a₁, hw₁, hw⟩ := walks_bind hw
    obtain ⟨u', a₂, hw₂, hw⟩ := walks_bind hw
    obtain ⟨rfl, rfl⟩ := walks_pure hw
    exact ⟨by simp [hv], (keeps_markUnreachable st _ _ _ hw₁).trans (keeps_report _ _ _ _ _ _ hw₂)⟩
  · obtain ⟨rfl, rfl⟩ := walks_pure hw
    exact ⟨by simp [hv], .refl _⟩

/-- A step that depends on whether the condition is there, and what follows it. -/
theorem walks_optionBind {α β : Type} {x : Option Expr} {f : Expr → Analyzer β} {m : Analyzer β}
    {k : β → Analyzer α} {r : α} (hw : Walks (match x with
      | some y => f y >>= k
      | none => m >>= k) a r a') :
    ∃ t a₁, Walks (match x with
      | some y => f y
      | none => m) a t a₁ ∧ Walks (k t) a₁ r a' := by
  cases x <;> exact walks_bind hw

theorem turn_not_done {B : Behavior} {isOwn : Jump → Bool} (es : List Event) :
    ¬ B.turn isOwn es .done := by
  rintro (⟨-, h⟩ | ⟨-, h⟩ | ⟨-, h, -⟩)
  · cases h
  · cases h
  · simp [Outcome.isAbrupt] at h

theorem again_not_done {b : Bool} (es : List Event) : ¬ finish (.truth b) es .done := by
  rintro ⟨-, ⟨⟩⟩

theorem andThen_not_done {B C : Behavior} (hC : ∀ es, ¬ C es .done) (es : List Event) :
    ¬ (B.andThen C) es .done := by
  rintro (⟨-, h⟩ | ⟨_, e₂, -, -, h⟩)
  · simp [Outcome.isAbrupt] at h
  · exact hC e₂ h

theorem branch_not_done {C T F : Behavior} (hT : ∀ es, ¬ T es .done) (hF : ∀ es, ¬ F es .done)
    (es : List Event) : ¬ (C.branch T F) es .done := by
  rintro (⟨-, h⟩ | ⟨_, e₂, b, -, -, h⟩)
  · simp [Outcome.isAbrupt] at h
  · cases b with
    | true => exact hT e₂ h
    | false => exact hF e₂ h

/-- Where a jump out of a condition and its branches comes from. -/
theorem jump_of_branch {C T F : Behavior} {es : List Event} {j : Jump}
    (hr : (C.branch T F) es (.jump j)) :
    C es (.jump j) ∨ (∃ e, T e (.jump j)) ∨ ∃ e, F e (.jump j) := by
  obtain ⟨hr, -⟩ | ⟨e₁, e₂, b, -, -, hr⟩ := hr
  · exact .inl hr
  · cases b with
    | true => exact .inr (.inl ⟨e₂, hr⟩)
    | false => exact .inr (.inr ⟨e₂, hr⟩)

theorem not_finish_jump {b : Bool} {es : List Event} {j : Jump} :
    ¬ finish (.truth b) es (.jump j) := by
  rintro ⟨-, h⟩
  cases h

/-- A jump that the body of a loop does not end goes on outward. -/
theorem recorded_turn {B : Behavior} {b k t : Inits} {es : List Event} {j : Jump}
    {gs : List Frame} (hr : B.turn (Run.continues labels) es (.jump j))
    (hj : Recorded j t (.loop labels b k :: gs)) : Recorded j t gs :=
  recorded_loop hj (turn_jump hr).1 (turn_jump hr).2

theorem tracks_binds (vs : List VarDeclarator) :
    Tracks c p (vs.flatMap fun v => (p.declared? v.name).toList)
      (fun s => vs.foldlM (fun s v => bind v.name s) s) (Run.binds p vs) := by
  induction vs with
  | nil => exact tracks_skip
  | cons v vs ih => exact (tracks_bind v.name).bind ih

theorem binds_jump {vs : List VarDeclarator} {es : List Event} {j : Jump} :
    ¬ Run.binds p vs es (.jump j) := by
  induction vs generalizing es with
  | nil => rintro ⟨-, ⟨⟩⟩
  | cons v vs ih =>
    rintro (⟨hr, -⟩ | ⟨_, _, -, -, hr⟩)
    · unfold Run.bind at hr
      cases hv : p.declared? v.name with
      | none =>
        rw [hv] at hr
        cases hr.2
      | some w =>
        rw [hv] at hr
        cases hr.2
    · exact ih hr

namespace Parts

variable [Visitor] [Meaning] (h : Parts c p F)
include h

theorem body {labels : List Text} {st : Stmt} (hst : F.stmt st) :
    Tracks c p (declarations p (.stmt st)) (Visitor.stmt labels st) (Run.body p labels st) :=
  (h.stmt labels st hst).within _

theorem condition_jump {x : Expr} {es : List Event} {j : Jump} :
    ¬ (Meaning.condition x : Behavior) es (.jump j) := by
  intro hr
  obtain ⟨_, hr⟩ | hr := h.truth x es _ hr <;> cases hr

theorem test_jump {x : Option Expr} {es : List Event} {j : Jump} : ¬ Run.test x es (.jump j) := by
  cases x with
  | none => exact not_finish_jump
  | some x => exact h.condition_jump

theorem exprs_jump {xs : List Expr} {es : List Event} {j : Jump} :
    ¬ Run.exprs xs es (.jump j) := by
  induction xs generalizing es with
  | nil => rintro ⟨-, ⟨⟩⟩
  | cons x xs ih =>
    rintro (⟨hr, -⟩ | ⟨_, _, -, -, hr⟩)
    · obtain hr | hr := h.value x es _ hr <;> cases hr
    · exact ih hr

/-- A test whose truth is as the constant says. -/
theorem test {x : Expr} (hx : F.expr x) {q : Inits}
    (hw : Walks (Visitor.condition x s) a q a') (hr : Ready p (declarations p (.expr x)) a s) :
    Sound c p (declarations p (.expr x)) a s (Meaning.condition x) a'
      (.split (if p.constantCondition x == some false then .dead else q.whenTrue)
        (loopExit (p.constantCondition x) q)) := by
  refine (h.condition x hx s a q a' hw hr).loopTest (fun es b hb => ?_) fun es hd => ?_
  · cases hc : p.constantCondition x with
    | none => rfl
    | some b' => simp [h.constant x es b' b hc hb]
  · exact h.not_done es hd

/-! ## The forms of loops -/

theorem whileLoop {labels : List Text} (hc : F.expr cond) (hst : F.stmt st) :
    Tracks c p (declarations p (.expr cond) ++ declarations p (.stmt st))
      (Flow.whileLoop labels cond st) (Run.whileLoop p labels cond st) := by
  intro s a s' a' hw hr
  obtain ⟨ns, a₀, hwn, hw₁⟩ := walks_bind hw
  obtain ⟨rfl, hn, hW⟩ := walks_assignedIn hr.tidy hwn
  have hw₂ := walks_constantBind hw₁
  rw [hr.tidy.program] at hw₂
  obtain ⟨⟨q, g⟩, a₁, hwf, hw₃⟩ := walks_bind hw₂
  obtain ⟨rfl, rfl⟩ := walks_pure hw₃
  obtain ⟨a₂, hwi, frame⟩ := walks_framed hwf
  obtain ⟨_, a₃, hwc, hw₄⟩ := walks_bind hwi
  obtain ⟨start, a₄, hwb, hw₅⟩ := walks_bind hw₄
  obtain ⟨stop, _, hws, hw₆⟩ := walks_bind hw₅
  obtain ⟨rfl, rfl⟩ := walks_pure hw₆
  obtain ⟨rfl, kept⟩ := walks_loopBodyStart hwb
  have pushed := hr.push (f := .loop labels .dead .dead) ⟨trivial, trivial⟩
  have ready : Ready p _ _ (s.allow ns) := { pushed with below := hr.below.allow hn }
  have test := h.test hc hwc ready.left
  have body := Sound.keepBefore kept
    (h.body hst _ a₄ stop _ hws ((ready.right test test.below.1).kept kept))
  obtain ⟨gs, hf, rfl⟩ := frame body.tidy (test.grows.trans body.grows)
  obtain ⟨b, k, rfl⟩ : ∃ b k, g = .loop labels b k := ⟨_, _, hf.weakens.loop_eq⟩
  have turned := body.turn hf.frames
  have exit := test.below.2.mono body.grows.nextSlot
  have round := test.thenTest turned turn_not_done (Inits.weakens_merge_left _ _)
    (Inits.weakens_merge_right _ _) (exit.merge turned.below.2)
  have popped := round.pop hf fun es j t hrj hj => by
    obtain hrj | ⟨e, hrj⟩ | ⟨e, hrj⟩ := jump_of_branch hrj
    · exact absurd hrj h.condition_jump
    · exact recorded_turn hrj hj
    · exact absurd hrj not_finish_jump
  refine popped.rounds (Settles.branch ?_ (h.settling.turn ?_) (settles_finish _)) hW
  · exact h.settling.ofCondition fun v hv => ⟨_, by simp, hv⟩
  · exact fun v hv => ⟨_, by simp, hv⟩

theorem doLoop {labels : List Text} (hc : F.expr cond) (hst : F.stmt st) :
    Tracks c p (declarations p (.stmt st) ++ declarations p (.expr cond))
      (Flow.doLoop labels st cond) (Run.doLoop p labels st cond) := by
  intro s a s' a' hw hr
  obtain ⟨ns, a₀, hwn, hw₁⟩ := walks_bind hw
  obtain ⟨rfl, hn, hW⟩ := walks_assignedIn hr.tidy hwn
  obtain ⟨⟨stop, g⟩, a₁, hwf, hw₂⟩ := walks_bind hw₁
  obtain ⟨a₂, hws, frame⟩ := walks_framed hwf
  have pushed := hr.push (f := .loop labels .dead .dead) ⟨trivial, trivial⟩
  have ready : Ready p _ _ (s.allow ns) := { pushed with below := hr.below.allow hn }
  have body := h.body hst _ _ stop a₂ hws ready.left
  obtain ⟨gs, hf, rfl⟩ := frame body.tidy body.grows
  obtain ⟨b, k, rfl⟩ : ∃ b k, g = .loop labels b k := ⟨_, _, hf.weakens.loop_eq⟩
  have turned := (body.turn hf.frames).pop hf fun es j t hrj hj => recorded_turn hrj hj
  obtain ⟨q, a₃, hwc, hw₃⟩ := walks_bind hw₂
  have test := h.test hc hwc (hr.right turned turned.below.1)
  have hw₄ := walks_constantBind hw₃
  rw [test.tidy.program] at hw₄
  obtain ⟨rfl, rfl⟩ := walks_pure hw₄
  have round := turned.thenTest test h.not_done (Inits.weakens_merge_right _ _)
    (Inits.weakens_merge_left _ _)
    (test.below.2.merge (turned.below.2.mono test.grows.nextSlot))
  refine round.rounds (Settles.branch (h.settling.turn ?_) ?_ (settles_finish _)) hW
  · exact fun v hv => ⟨_, by simp, hv⟩
  · exact h.settling.ofCondition fun v hv => ⟨_, by simp, hv⟩

theorem inits {sts : List Stmt} (hsts : ∀ st ∈ sts, F.stmt st) :
    Tracks c p (declaredInStmts p sts)
      (fun s => sts.foldlM (fun s st => Visitor.stmt [] st s) s) (Run.stmts sts) := by
  induction sts with
  | nil => exact tracks_skip
  | cons st sts ih =>
    have first := h.stmt [] st (hsts st List.mem_cons_self)
    exact first.bind (ih fun y hy => hsts y (List.mem_cons_of_mem _ hy))

/-- The test of a for loop. -/
theorem forTest {cond : Option Expr} (hc : ∀ x ∈ cond, F.expr x) {q : Inits}
    (hw : Walks (match cond with
      | some x => Visitor.condition x s
      | none => pure (.split s .dead)) a q a')
    (hr : Ready p (declaredInExprs p cond.toList) a s) :
    Sound c p (declaredInExprs p cond.toList) a s (Run.test cond) a'
      (.split (if cond.bind p.constantCondition == some false then .dead else q.whenTrue)
        (loopExit (cond.bind p.constantCondition) q)) := by
  cases cond with
  | none =>
    obtain ⟨rfl, rfl⟩ := walks_pure hw
    exact sound_again hr
  | some x =>
    have single : declaredInExprs p (some x).toList = declarations p (.expr x) := by
      simp [declaredInExprs]
    rw [single] at hr ⊢
    exact h.test (hc x rfl) hw hr

theorem forLoop {labels : List Text} {init : List Stmt} {cond : Option Expr} {update : List Expr}
    (hi : ∀ st ∈ init, F.stmt st) (hc : ∀ x ∈ cond, F.expr x) (hu : ∀ x ∈ update, F.expr x)
    (hst : F.stmt st) :
    Tracks c p (declaredInStmts p init ++ (declaredInExprs p cond.toList ++
        (declarations p (.stmt st) ++ declaredInExprs p update)))
      (Flow.forLoop labels init cond update st) (Run.forLoop p labels init cond update st) := by
  refine ((h.inits hi).bind ?_).within _
  intro s a s' a' hw hr
  obtain ⟨ns, a₀, hwn, hw₁⟩ := walks_bind hw
  obtain ⟨rfl, hn, hW⟩ := walks_assignedIn hr.tidy hwn
  obtain ⟨value, a₁, hwv, hw₂⟩ := walks_optionBind hw₁
  obtain ⟨rfl, rfl⟩ : value = cond.bind p.constantCondition ∧ a₁ = a₀ := by
    cases cond with
    | none => exact walks_pure hwv
    | some x =>
      rw [← hr.tidy.program]
      exact walks_gets hwv
  obtain ⟨⟨q, g⟩, a₂, hwf, hw₃⟩ := walks_bind hw₂
  obtain ⟨rfl, rfl⟩ := walks_pure hw₃
  obtain ⟨a₃, hwi, frame⟩ := walks_framed hwf
  obtain ⟨_, a₄, hwc, hw₄⟩ := walks_optionBind hwi
  obtain ⟨start, a₅, hwb, hw₅⟩ := walks_bind hw₄
  obtain ⟨stop, a₆, hws, hw₆⟩ := walks_bind hw₅
  have hw₇ := walks_getBind hw₆
  obtain ⟨next, _, hwu, hw₈⟩ := walks_bind hw₇
  obtain ⟨rfl, rfl⟩ := walks_pure hw₈
  obtain ⟨rfl, kept⟩ := walks_loopBodyStart hwb
  have pushed := hr.push (f := .loop labels .dead .dead) ⟨trivial, trivial⟩
  have ready : Ready p _ _ (s.allow ns) := { pushed with below := hr.below.allow hn }
  have test := h.forTest hc hwc ready.left
  have ready' := ready.right test test.below.1
  have body := Sound.keepBefore kept (h.body hst _ a₅ stop a₆ hws (ready'.left.kept kept))
  -- The frame of the loop after the body, where the breaks and continues are, and at the end.
  obtain ⟨g₁, gs₁, hf₁⟩ := framed body.tidy (test.grows.trans body.grows)
  obtain ⟨b₁, k₁, rfl⟩ : ∃ b k, g₁ = .loop labels b k := ⟨_, _, hf₁.weakens.loop_eq⟩
  have turned := body.turn hf₁.frames
  rw [hf₁.frames] at hwu
  have updates := h.exprs hu _ a₆ next _ hwu (ready'.right turned turned.below.1)
  have step := updates.andThen (sound_again (D := []) updates.ready)
  rw [List.append_nil] at step
  obtain ⟨gs, hf, rfl⟩ := frame step.tidy (test.grows.trans (body.grows.trans updates.grows))
  obtain ⟨b, k, rfl⟩ : ∃ b k, g = .loop labels b k := ⟨_, _, hf.weakens.loop_eq⟩
  have breaks : b₁.Weakens b := by
    have later := updates.grows.frames
    rw [hf₁.frames, hf.frames] at later
    cases later with
    | cons hg _ => cases hg with | loop hb _ => exact hb
  have stepping := andThen_not_done (B := Run.exprs update) (again_not_done (b := true))
  have again := turned.thenTest step stepping breaks (Inits.dead_weakens _) hf.below.1
  have exit := test.below.2.mono again.grows.nextSlot
  have round := test.thenTest again (branch_not_done stepping again_not_done)
    (Inits.weakens_merge_left _ _) (Inits.weakens_merge_right _ _) (exit.merge hf.below.1)
  have popped := round.pop hf fun es j t hrj hj => by
    obtain hrj | ⟨e, hrj⟩ | ⟨e, hrj⟩ := jump_of_branch hrj
    · exact absurd hrj h.test_jump
    · obtain hrj | ⟨e, hrj⟩ | ⟨e, hrj⟩ := jump_of_branch hrj
      · exact recorded_turn hrj hj
      · obtain ⟨hrj, -⟩ | ⟨_, _, -, -, -, hrj⟩ := hrj
        · exact absurd hrj h.exprs_jump
        · cases hrj
      · exact absurd hrj not_finish_jump
    · exact absurd hrj not_finish_jump
  refine popped.rounds (h.settling.forRound ?_ ?_ ?_) hW
  · exact fun x hx v hv => ⟨.expr x, by simp [Option.mem_def.1 hx], hv⟩
  · exact fun x hx v hv => ⟨.expr x, by simp [hx], hv⟩
  · exact fun v hv => ⟨.stmt st, by simp, hv⟩

theorem forEachLoop {labels : List Text} {d : VarDecl} {iterable : Expr} (hx : F.expr iterable)
    (hst : F.stmt st) :
    Tracks c p (declarations p (.expr iterable) ++ (d.vars.flatMap
        (fun v => (p.declared? v.name).toList) ++ declarations p (.stmt st)))
      (Flow.forEachLoop labels d iterable st) (Run.forEachLoop p labels d iterable st) := by
  refine (h.expr iterable hx).bind ?_
  intro s a s' a' hw hr
  obtain ⟨ns, a₀, hwn, hw₁⟩ := walks_bind hw
  obtain ⟨rfl, hn, hW⟩ := walks_assignedIn hr.tidy hwn
  obtain ⟨⟨stop, g⟩, a₁, hwf, hw₂⟩ := walks_bind hw₁
  obtain ⟨rfl, rfl⟩ := walks_pure hw₂
  obtain ⟨a₂, hwi, frame⟩ := walks_framed hwf
  obtain ⟨start, a₃, hwb, hws⟩ := walks_bind hwi
  have pushed := hr.push (f := .loop labels .dead .dead) ⟨trivial, trivial⟩
  have ready : Ready p _ _ (s.allow ns) := { pushed with below := hr.below.allow hn }
  have bound := tracks_binds (c := c) d.vars _ _ start a₃ hwb ready.left
  have body := h.body hst start a₃ stop a₂ hws (ready.right bound bound.below)
  obtain ⟨gs, hf, rfl⟩ := frame body.tidy (bound.grows.trans body.grows)
  obtain ⟨b, k, rfl⟩ : ∃ b k, g = .loop labels b k := ⟨_, _, hf.weakens.loop_eq⟩
  have turned := (bound.andThen (body.turn hf.frames)).within (declaredBy p (.locals d))
  have exit := (ready.below.mono turned.grows.nextSlot).merge hf.below.1
  have goes := turned.weakenExit (u := (s.allow ns).merge b)
    (fun es hd => by
      obtain ⟨e, -, hd⟩ := hd
      exact andThen_not_done turn_not_done e hd)
    (Inits.weakens_merge_right _ _) exit
  have ends := (sound_exit (c := c) (D := []) turned.tidy turned.below.1 exit
    (Inits.weakens_merge_left _ _)).later turned.grows
  rw [List.append_nil] at ends
  have popped := (ends.either goes).pop hf fun es j t hrj hj => by
    obtain hrj | ⟨e, -, ⟨hrj, -⟩ | ⟨_, _, -, -, hrj⟩⟩ := hrj
    · exact absurd hrj not_finish_jump
    · exact absurd hrj binds_jump
    · exact recorded_turn hrj hj
  exact popped.rounds (h.settling.forEachRound fun v hv => ⟨_, by simp, hv⟩) hW

end Parts

end Javelin.Flow

/-!
## Try statements are followed

The handlers of a try statement start in a state that knows what is certain at its start, and allows
for what may be assigned where its body ends. The first is right wherever the body throws. The
second says nothing of a body that cannot complete, so it covers a store in which the body throws
only if what the body assigned until then is also assigned by some run that completes it
(`Recoverable`).
-/

namespace Javelin.Flow

open Behavior

variable {c : Concern} {p : Program} {F : Forms} {D : List Symbol} {a a' a₁ : Analysis}
  {s s' : Inits}

/-- Whether a final variable that the protected part of a try statement assigns before it throws is
also assigned by a run that completes the part, among all runs that the walk follows. -/
def Recoverable (c : Concern) (p : Program) (F : Forms) [Visitor] [Meaning] (rs : List Stmt)
    (b : Block) : Prop :=
  c = .writes → ∀ (σ : Store) es v, Run.attempt p rs b es .throw → p.isFinal v →
    σ v ≠ .assigned → σ.after es v = .assigned →
    ∃ M : Meaning, @Parts c p F _ M ∧
      ∃ e, @Run.attempt p M rs b e .done ∧ σ.after e v = .assigned

theorem stmts_truth [Meaning] {sts : List Stmt} {es : List Event} {b : Bool} :
    ¬ Run.stmts sts es (.truth b) := by
  induction sts generalizing es with
  | nil => rintro ⟨-, ⟨⟩⟩
  | cons st sts ih =>
    rintro (⟨-, hr⟩ | ⟨_, _, -, -, hr⟩)
    · simp [Outcome.isAbrupt] at hr
    · exact ih hr

theorem catchBody_truth [Meaning] {g : CatchClause} {es : List Event} {b : Bool} :
    ¬ Run.catchBody p g es (.truth b) := by
  rintro ⟨_, -, ⟨-, hr⟩ | ⟨_, _, -, -, _, -, hr⟩⟩
  · simp [Outcome.isAbrupt] at hr
  · exact stmts_truth hr

namespace Parts

variable [Visitor] [Meaning] (h : Parts c p F)
include h

/-! ## Declarations of variables -/

/-- The declaration of a variable. Afterwards the variable is tracked. -/
theorem declarator {v : VarDeclarator} (hv : ∀ x ∈ v.init, F.expr x)
    (hw : Walks (Flow.declarator v s) a s' a') (hr : Ready p (declarations p (.declarator v)) a s) :
    Sound c p (declarations p (.declarator v)) a s (Run.declarator p v) a' s' ∧
      ∀ w, p.declared? v.name = some w → ∃ n, a'.slots[w]? = some n := by
  rw [declarations_declarator] at hr ⊢
  obtain ⟨m, a₁, hw₁, hw₂⟩ := walks_bind hw
  unfold Run.declarator
  obtain ⟨hd, rfl, rfl⟩ | ⟨w, hd, rfl, rfl⟩ := walks_trackLocal hr hw₁ <;> rw [hd] at hr ⊢
  · refine ⟨?_, by simp⟩
    cases hx : v.init with
    | none =>
      rw [hx] at hw₂ hr
      obtain ⟨rfl, rfl⟩ := walks_pure hw₂
      exact sound_skip hr
    | some x =>
      rw [hx] at hw₂ hr
      have value := (h.expr x (hv x hx)).bindPure s a₁ s' a' hw₂
      simpa [declaredInExprs] using value (by simpa [declaredInExprs] using hr)
  · have entered := sound_enter (c := c) (v := w) hr.left (declared_eq_var hd)
    cases hx : v.init with
    | none =>
      rw [hx] at hw₂
      obtain ⟨rfl, rfl⟩ := walks_pure hw₂
      refine ⟨by simpa using entered, ?_⟩
      rintro _ ⟨⟩
      exact ⟨_, tracked_self a w⟩
    | some x =>
      rw [hx] at hw₂ hr
      obtain ⟨t, a₂, hw₃, hw₄⟩ := walks_bind hw₂
      obtain ⟨rfl, rfl⟩ := walks_pure hw₄
      have ready := hr.right entered entered.below
      simp only [declaredInExprs, Option.toList_some, List.flatMap_singleton] at ready ⊢
      have value := h.expr x (hv x hx) _ _ t _ hw₃ ready
      have slot := value.grows.kept w _ (tracked_self a w)
      have filled := sound_init (c := c) (D := []) value.tidy value.below slot
      refine ⟨by simpa using entered.andThen (value.andThen filled), ?_⟩
      rintro _ ⟨⟩
      exact ⟨_, slot⟩

theorem declarators {vs : List VarDeclarator} (hvs : ∀ v ∈ vs, ∀ x ∈ v.init, F.expr x)
    (hw : Walks (vs.foldlM (fun s v => Flow.declarator v s) s) a s' a')
    (hr : Ready p (vs.flatMap fun v => declarations p (.declarator v)) a s) :
    Sound c p (vs.flatMap fun v => declarations p (.declarator v)) a s (Run.declarators p vs) a' s' ∧
      ∀ v ∈ vs, ∀ w, p.declared? v.name = some w → ∃ n, a'.slots[w]? = some n := by
  induction vs generalizing s a with
  | nil =>
    obtain ⟨rfl, rfl⟩ := walks_pure hw
    exact ⟨sound_skip hr, by simp⟩
  | cons v vs ih =>
    obtain ⟨t, a₁, hw₁, hw₂⟩ := walks_bind hw
    obtain ⟨first, tracked⟩ := h.declarator (hvs v List.mem_cons_self) hw₁ hr.left
    obtain ⟨rest, tracked'⟩ := ih (fun u hu => hvs u (List.mem_cons_of_mem _ hu)) hw₂
      (hr.right first first.below)
    refine ⟨first.andThen rest, List.forall_mem_cons.2 ⟨fun w hw => ?_, tracked'⟩⟩
    obtain ⟨n, hn⟩ := tracked w hw
    exact ⟨n, rest.grows.kept w n hn⟩

theorem locals {d : VarDecl} (hd : F.decl d) :
    Tracks c p (declarations p (.stmt (.locals d))) (Flow.locals d) (Run.declarators p d.vars) := by
  intro s a s' a' hw hr
  rw [declarations_locals] at hr ⊢
  exact (h.declarators hd hw hr).1

/-- The variables of a declaration are tracked after it. -/
theorem trackedLocals {d : VarDecl} (hd : F.decl d) (hw : Walks (Flow.locals d s) a s' a')
    (hr : Ready p (declarations p (.stmt (.locals d))) a s) :
    ∀ v ∈ declaredBy p (.locals d), ∃ n, a'.slots[v]? = some n := by
  rw [declarations_locals] at hr
  intro w hw'
  obtain ⟨v, hv, hd'⟩ := List.mem_filterMap.1 hw'
  exact (h.declarators hd hw hr).2 v hv w hd'

/-! ## The protected part -/

variable [Answers]

theorem resources {rs : List Stmt} (hrs : ∀ r ∈ rs, F.resource r) :
    Tracks c p (rs.flatMap fun r => declarations p r.resourceNode) (Flow.resources rs)
      (Run.resources p rs) := by
  induction rs with
  | nil => exact tracks_skip
  | cons r rs ih =>
    have hr := hrs r List.mem_cons_self
    have rest := ih fun u hu => hrs u (List.mem_cons_of_mem _ hu)
    cases r with
    | locals d =>
      refine Tracks.bind ((h.locals hr).keepAfter (keeps_forIn _ fun v _ => ?_)) rest
      refine (still_known _).keeps.bind fun w => ?_
      split
      · refine (still_lift _).keeps.bind fun e => ?_
        exact (keeps_thrownByClose _ _).bind fun _ => keeps_pure _
      · exact keeps_pure _
    | expr i x =>
      refine Tracks.bind ((h.expr x hr).keepAfter ?_) rest
      exact fun a r a' hw => keeps_thrownByClose _ _ a r a' hw
    | _ => exact hr.elim

theorem attempt {rs : List Stmt} {b : Block} (hrs : ∀ r ∈ rs, F.resource r) (hb : F.block b) :
    Tracks c p ((rs.flatMap fun r => declarations p r.resourceNode) ++ declaredInStmts p b.stmts)
      (fun s => Flow.resources rs s >>= Flow.block b) (Run.attempt p rs b) :=
  (((h.resources hrs).bind (h.block hb)).within _).exposed

/-! ## Handlers -/

theorem catchBody {g : CatchClause} (hg : F.block g.body) (handler : Handler) (start stop : Inits) :
    TracksAt c p (declarations p (.catchClause g)) (Flow.catchBody g handler start stop)
      (start.allowFrom stop) (Run.catchBody p g) := by
  rw [declarations_catchClause]
  intro a s' a' hw hr
  obtain ⟨_, a₁, hw₁, hw₂⟩ := walks_bind hw
  have kept := keeps_checkHandler handler _ _ _ hw₁
  obtain ⟨t, a₂, hw₃, hw₄⟩ := walks_bind hw₂
  have entered := Sound.keepBefore kept (tracks_bind (c := c) _ _ _ _ _ hw₃ (hr.left.kept kept))
  have hw₅ := walks_knownBind hw₄
  -- Noting what the parameter stands for changes nothing of concern.
  obtain ⟨a₃, noted, hw₆⟩ : ∃ a₃, Kept a₂ a₃ ∧ Walks (Flow.block g.body t) a₃ s' a' := by
    split at hw₅
    · refine ⟨_, ?_, walks_modifyBind hw₅⟩
      exact ⟨rfl, rfl, rfl, FramesWeaken.refl _, fun hf => hf, fun _ => Nat.le_refl _⟩
    · exact ⟨a₂, .refl a₂, hw₅⟩
  have body := h.block hg t a₃ s' a' hw₆ ((hr.right entered entered.below).kept noted)
  exact (entered.andThen (body.keepBefore noted)).within _

/-- The clauses in order, each from the same state. -/
theorem catches {gs : List (CatchClause × Handler)} {start stop out : Inits}
    (hgs : ∀ g ∈ gs, F.block g.1.body)
    (hw : Walks (gs.foldlM (fun out (g, handler) => do
      return out.merge (← Flow.catchBody g handler start stop)) out) a s' a')
    (hr : Ready p (gs.flatMap fun g => declarations p (.catchClause g.1)) a (start.allowFrom stop))
    (ho : out.Below a.nextSlot) :
    Sound c p (gs.flatMap fun g => declarations p (.catchClause g.1)) a (start.allowFrom stop)
        (Run.catchBodies p (gs.map Prod.fst)) a' s' ∧ out.Weakens s' := by
  induction gs generalizing out a with
  | nil =>
    obtain ⟨rfl, rfl⟩ := walks_pure hw
    exact ⟨sound_nothing hr.tidy ho, .refl _⟩
  | cons g gs ih =>
    obtain ⟨t, a₁, hw₁, hw₂⟩ := walks_bind hw
    obtain ⟨t, a₁, hw₁, hw₃⟩ := walks_bind hw₁
    obtain ⟨rfl, rfl⟩ := walks_pure hw₃
    have first := h.catchBody (hgs g List.mem_cons_self) g.2 start stop a t a₁ hw₁ hr.left
    obtain ⟨rest, weaker⟩ := ih (fun u hu => hgs u (List.mem_cons_of_mem _ hu)) hw₂
      (hr.right first (hr.below.mono first.grows.nextSlot))
      ((ho.mono first.grows.nextSlot).merge first.below)
    have own := (first.earlier rest.grows rest.tidy).weaken
      ((Inits.weakens_merge_right _ _).trans weaker) rest.below fun _ _ => catchBody_truth
    exact ⟨own.either (rest.later first.grows), (Inits.weakens_merge_left _ _).trans weaker⟩

/-- The state in which the handlers start covers the stores in which the protected part throws. -/
theorem covers_handlers {rs : List Stmt} {b : Block} {stop : Inits} {σ : Store} {es : List Event}
    (hrs : ∀ r ∈ rs, F.resource r) (hb : F.block b) (hrec : Recoverable c p F rs b)
    (hw : Walks (Flow.resources rs s >>= Flow.block b) a stop a')
    (hr : Ready p ((rs.flatMap fun r => declarations p r.resourceNode) ++
      declaredInStmts p b.stmts) a s) (hq : c.count a' = c.count a) (hσ : Covers c p a.slots s σ)
    (hthrow : Run.attempt p rs b es .throw) :
    Covers c p a'.slots (s.allowFrom stop) (σ.after es) := by
  have settled : (Run.attempt p rs b).Settles (fun _ => True) [] :=
    h.settling.attempt (fun _ _ _ _ => trivial) fun _ _ => trivial
  have grows := (h.attempt hrs hb s a stop a' hw hr).grows
  refine (grows.covers hσ).allowFrom (settled es _ hthrow σ) ?_
  rintro rfl v n hfin hn hv hv'
  obtain ⟨M, hM, e, hdone, hassigned⟩ := hrec rfl σ es v hthrow hfin hv hv'
  obtain ⟨-, x, y, hstop, fits⟩ := (hM.attempt hrs hb s a stop a' hw hr).runs hq σ e .done hσ hdone
  exact ⟨x, y, by rw [hstop]; rfl, fits.tracked v n hn hfin hassigned⟩

theorem tryCatch {rs : List Stmt} {b : Block} {gs : List CatchClause}
    (hrs : ∀ r ∈ rs, F.resource r) (hb : F.block b) (hgs : ∀ g ∈ gs, F.block g.body)
    (hrec : gs ≠ [] → Recoverable c p F rs b) :
    Tracks c p (((rs.flatMap fun r => declarations p r.resourceNode) ++
        declaredInStmts p b.stmts) ++ gs.flatMap fun g => declarations p (.catchClause g))
      (Flow.tryCatch rs b gs) (Run.tryCatch p rs b gs) := by
  intro s a s' a' hw hr
  obtain ⟨handlers, a₀, hwh, hw₁⟩ := walks_bind hw
  obtain rfl := still_mapM still_handlerOf _ _ _ hwh
  have length := length_of_walks_mapM hwh
  obtain ⟨⟨stop, g⟩, a₁, hwf, hw₂⟩ := walks_bind hw₁
  obtain ⟨a₂, hwi, frame⟩ := walks_framed hwf
  have ready := hr.left.push (f := .handlers handlers) trivial
  have inside := h.attempt hrs hb s _ stop a₂ hwi ready
  obtain ⟨fs, hf, rfl⟩ := frame inside.tidy inside.grows
  obtain ⟨hs, rfl, length'⟩ : ∃ hs, g = .handlers hs ∧ handlers.length = hs.length := by
    have hg := hf.weakens
    cases hg with | handlers hlen => exact ⟨_, rfl, hlen⟩
  have popped := inside.pop hf fun es j t _ hj => by cases j <;> exact hj
  have firsts : (gs.zip hs).map Prod.fst = gs := List.map_fst_zip (by omega)
  have declared : ((gs.zip hs).flatMap fun g => declarations p (.catchClause g.1)) =
      gs.flatMap fun g => declarations p (.catchClause g) := by
    conv => rhs; rw [← firsts, List.flatMap_map]
  have entry := (hr.below.mono inside.grows.nextSlot).allowFrom inside.below
  have blocks : ∀ g ∈ gs.zip hs, F.block g.1.body := fun g hg =>
    hgs g.1 (List.of_mem_zip hg).1
  have clauses := h.catches blocks hw₂
  rw [declared, firsts] at clauses
  obtain ⟨rest, weaker⟩ := clauses (hr.right popped entry) popped.below
  refine popped.handled rest weaker fun hq σ es hσ hthrow hH => ?_
  have some_clause : gs ≠ [] := by
    rintro rfl
    obtain ⟨_, _, hH⟩ := hH
    exact hH
  change Covers c p a₂.slots _ _
  exact h.covers_handlers hrs hb (hrec some_clause) hwi ready hq hσ hthrow

/-- A try statement. Its final block is walked before the other parts. -/
theorem tryStatement {rs : List Stmt} {b : Block} {gs : List CatchClause} {last : Option Block}
    (hrs : ∀ r ∈ rs, F.resource r) (hb : F.block b) (hgs : ∀ g ∈ gs, F.block g.body)
    (hlast : ∀ l ∈ last, F.block l) (hrec : gs ≠ [] → Recoverable c p F rs b) :
    Tracks c p ((last.toList.flatMap fun l => declaredInStmts p l.stmts) ++
        (((rs.flatMap fun r => declarations p r.resourceNode) ++ declaredInStmts p b.stmts) ++
          gs.flatMap fun g => declarations p (.catchClause g)))
      (Flow.tryStatement rs b gs last) (Run.tryStatement p rs b gs last) := by
  have main := h.tryCatch hrs hb hgs hrec
  cases last with
  | none => exact main.sublist (by simp)
  | some l =>
    intro s a s' a' hw hr
    simp only [Option.toList_some, List.flatMap_singleton] at hr ⊢
    obtain ⟨ns, a₀, hwn, hw₁⟩ := walks_bind hw
    obtain ⟨rfl, hn, hW⟩ := walks_assignedIn hr.tidy hwn
    obtain ⟨stop, a₁, hwl, hw₂⟩ := walks_bind hw₁
    have final := h.block (hlast l rfl) _ a₀ stop a₁ hwl
      { hr.left with below := hr.below.allow hn }
    obtain ⟨⟨out, g⟩, a₂, hwf, hw₃⟩ := walks_bind hw₂
    obtain ⟨rfl, rfl⟩ := walks_pure hw₃
    obtain ⟨a₃, hwi, frame⟩ := walks_framed hwf
    have ready := (hr.right final (hr.below.mono final.grows.nextSlot)).push
      (f := .finally l.info stop.isReachable stop) final.below
    have inside := main s _ out a₃ hwi ready
    obtain ⟨fs, hf, rfl⟩ := frame inside.tidy inside.grows
    refine final.ensured inside hf (h.settling.tryCatch ?_ ?_ ?_)
      (h.settling.block (Covered.self _)) hW
    · exact fun r hr v hv => ⟨_, List.mem_append_left _ (List.mem_cons_of_mem _
        (List.mem_map_of_mem hr)), hv⟩
    · exact fun v hv => ⟨_, by simp, hv⟩
    · exact fun g hg v hv => ⟨_, List.mem_append_right _ (List.mem_map_of_mem hg), hv⟩

end Parts

end Javelin.Flow
