import Javelin.Proofs.Flow.Variables

/-!
# Switches are followed

Statements in order, and the groups of a switch. A group is entered from the selector, where the
variables of the groups before it are in scope without values, or from the group before it. The
state at the selector knows nothing of those variables, so it covers both.
-/

namespace Javelin.Flow

open Behavior

variable {c : Concern} {p : Program} {F : Forms} {D : List Symbol} {a a' a₁ : Analysis}
  {s s' : Inits} {isExpression : Bool}

/-! ## Statements in order -/

/-- The walk of a statement and of those after it. -/
theorem walks_stmtsFrom [Visitor] {st : Stmt} {sts : List Stmt} {isReported : Bool}
    (hw : Walks (stmtsFrom isReported (st :: sts) s) a s' a') :
    ∃ a₀ t a₁ isReported', Kept a a₀ ∧ Walks (Visitor.stmt [] st s) a₀ t a₁ ∧
      Walks (stmtsFrom isReported' sts t) a₁ s' a' := by
  unfold stmtsFrom at hw
  split at hw
  · obtain ⟨t, a₁, hw₁, hw₂⟩ := walks_bind hw
    exact ⟨a, t, a₁, isReported, .refl a, hw₁, hw₂⟩
  · obtain ⟨_, a₀, mark, hw⟩ := walks_bind hw
    have marked := keeps_markUnreachable st _ _ _ mark
    cases isReported with
    | true =>
      obtain ⟨t, a₁, hw₁, hw₂⟩ := walks_bind hw
      exact ⟨a₀, t, a₁, true, marked, hw₁, hw₂⟩
    | false =>
      obtain ⟨_, a₂, told, hw⟩ := walks_bind hw
      obtain ⟨t, a₁, hw₁, hw₂⟩ := walks_bind hw
      exact ⟨a₂, t, a₁, true, marked.trans (keeps_report _ _ _ _ _ _ told), hw₁, hw₂⟩

/-! ## Groups -/

/-- The kinds of groups: how each runs, with `R` for what follows it. -/
inductive GroupKind [Meaning] (isExpression : Bool) (g : SwitchCase) : Prop
  | value (i : Info) (x : Expr) (hx : isExpression) (ha : g.isArrow) (hb : g.body = [.expr i x])
      (hR : ∀ R, Run.group isExpression g R = (Run.exprs g.labels).andThen
        ((Meaning.expr x).andThen (finish (.jump .yield))))
  | block (hx : isExpression) (ha : g.isArrow) (hb : ∀ i x, g.body ≠ [.expr i x])
      (hR : ∀ R, Run.group isExpression g R =
        (Run.exprs g.labels).andThen ((Run.stmts g.body).andThen nothing))
  | arrow (hx : isExpression = false) (ha : g.isArrow)
      (hR : ∀ R, Run.group isExpression g R = (Run.exprs g.labels).andThen
        ((Run.stmts g.body).andThen (finish (.jump (.break none)))))
  | open (ha : g.isArrow = false)
      (hR : ∀ R, Run.group isExpression g R =
        (Run.exprs g.labels).andThen ((Run.stmts g.body).andThen R))

theorem groupKind [Meaning] (isExpression : Bool) (g : SwitchCase) : GroupKind isExpression g := by
  cases ha : g.isArrow with
  | false => exact .open ha fun R => by simp [Run.group, ha]
  | true =>
    cases isExpression with
    | false => exact .arrow rfl ha fun R => by simp [Run.group, ha]
    | true =>
      by_cases hb : ∃ i x, g.body = [.expr i x]
      · obtain ⟨i, x, hb⟩ := hb
        exact .value i x rfl ha hb fun R => by simp [Run.group, ha, hb]
      · simp only [not_exists] at hb
        refine .block rfl ha hb fun R => ?_
        unfold Run.group
        split <;> simp_all

theorem isAbrupt_of_andThen {B C : Behavior} {es : List Event} {r : Outcome}
    (hr : (B.andThen C) es r) (hC : ∀ es r, C es r → r.isAbrupt) : r.isAbrupt := by
  obtain ⟨-, habrupt⟩ | ⟨_, e₂, -, -, hr⟩ := hr
  · exact habrupt
  · exact hC e₂ r hr

/-- A run of a group and of what follows it goes on from the end of the group. -/
theorem group_andThen [Meaning] {g : SwitchCase} {R : Behavior} {es : List Event} {r : Outcome}
    (hr : Run.group isExpression g R es r) : ((Run.group isExpression g .skip).andThen R) es r := by
  have jumps : ∀ (B : Behavior) j es r, (B.andThen (finish (.jump j))) es r → r.isAbrupt :=
    fun B j es r hr => isAbrupt_of_andThen hr fun es r h => by
      obtain ⟨-, rfl⟩ := h
      rfl
  cases groupKind isExpression g with
  | value i x hx ha hb hR =>
    rw [hR] at hr ⊢
    exact .inl ⟨hr, isAbrupt_of_andThen hr (jumps _ _)⟩
  | block hx ha hb hR =>
    rw [hR] at hr ⊢
    exact .inl ⟨hr, isAbrupt_of_andThen hr fun _ _ hr =>
      isAbrupt_of_andThen hr fun _ _ h => h.elim⟩
  | arrow hx ha hR =>
    rw [hR] at hr ⊢
    exact .inl ⟨hr, isAbrupt_of_andThen hr (jumps _ _)⟩
  | «open» ha hR =>
    rw [hR] at hr ⊢
    obtain ⟨hr, habrupt⟩ | ⟨e₁, e₂, rfl, hr₁, hr⟩ := hr
    · exact .inl ⟨.inl ⟨hr, habrupt⟩, habrupt⟩
    · obtain ⟨hr, habrupt⟩ | ⟨f₁, f₂, rfl, hr₂, hr₃⟩ := hr
      · exact .inl ⟨.inr ⟨e₁, e₂, rfl, hr₁, .inl ⟨hr, habrupt⟩⟩, habrupt⟩
      · refine .inr ⟨e₁ ++ f₁, f₂, by simp, .inr ⟨e₁, f₁, rfl, hr₁, ?_⟩, hr₃⟩
        exact .inr ⟨f₁, [], by simp, hr₂, rfl, rfl⟩

theorem absorb_within_either {B C : Behavior} {vs : List Symbol} {isOwn : Jump → Bool}
    {es : List Event} {r : Outcome} (hr : ((B.either C).within vs).absorb isOwn es r) :
    (((B.within vs).absorb isOwn).either ((C.within vs).absorb isOwn)) es r := by
  obtain ⟨⟨e, rfl, hr⟩, hother⟩ | ⟨j, hown, ⟨e, rfl, hr⟩, rfl⟩ := hr
  · exact hr.imp (fun hr => .inl ⟨⟨e, rfl, hr⟩, hother⟩) fun hr => .inl ⟨⟨e, rfl, hr⟩, hother⟩
  · exact hr.imp (fun hr => .inr ⟨j, hown, ⟨e, rfl, hr⟩, rfl⟩) fun hr =>
      .inr ⟨j, hown, ⟨e, rfl, hr⟩, rfl⟩

/-- Whether the innermost frame is that of a switch. -/
def Analysis.InSwitch (isExpression : Bool) (a : Analysis) : Prop :=
  ∃ b y gs, a.frames = .switch isExpression b y :: gs

theorem Analysis.InSwitch.weaken (ha : a.InSwitch isExpression)
    (hw : FramesWeaken a.frames a'.frames) : a'.InSwitch isExpression := by
  obtain ⟨b, y, gs, hf⟩ := ha
  rw [hf] at hw
  cases hfs : a'.frames with
  | nil =>
    rw [hfs] at hw
    cases hw
  | cons f fs =>
    rw [hfs] at hw
    cases hw with
    | cons hw _ =>
      cases hw
      exact ⟨_, _, _, hfs⟩

theorem Analysis.InSwitch.grow (ha : a.InSwitch isExpression) (hg : Grows c D a a') :
    a'.InSwitch isExpression :=
  ha.weaken hg.frames

/-- What leaves a group with an arrow. -/
def groupJump (isExpression : Bool) : Jump := if isExpression then .yield else .break none

/-- A group with an arrow leaves its state at the switch. -/
theorem sound_atSwitch {u : Unit} (ha : a.InSwitch isExpression)
    (hw : Walks (atSwitch isExpression s) a u a') (hr : Ready p D a s) :
    Sound c p D a s (.finish (.jump (groupJump isExpression))) a' .dead := by
  obtain ⟨b, y, gs, hf⟩ := ha
  have hw := walks_modify hw
  have hb := hr.tidy.frames
  rw [hf] at hw hb
  simp only [List.mem_cons, forall_eq_or_imp] at hb
  obtain ⟨⟨hb, hy⟩, hgs⟩ := hb
  subst hw
  cases isExpression with
  | true =>
    refine sound_jump hr ⟨rfl, rfl, rfl, ?_, fun _ => ?_, fun _ => Nat.le_refl _⟩ ?_ trivial
    · rw [hf]
      exact .cons (.switch (.refl _) (Inits.weakens_merge_left _ _)) (FramesWeaken.refl _)
    · simpa using ⟨⟨hb, hy.merge hr.below⟩, hgs⟩
    · exact Inits.weakens_merge_right _ _
  | false =>
    refine sound_jump hr ⟨rfl, rfl, rfl, ?_, fun _ => ?_, fun _ => Nat.le_refl _⟩ ?_ trivial
    · rw [hf]
      exact .cons (.switch (Inits.weakens_merge_left _ _) (.refl _)) (FramesWeaken.refl _)
    · simpa using ⟨⟨hb.merge hr.below, hy⟩, hgs⟩
    · exact Inits.weakens_merge_right _ _

namespace Parts

variable [Visitor] [Meaning] (h : Parts c p F)
include h

theorem stmtsFrom {sts : List Stmt} (hsts : ∀ st ∈ sts, F.stmt st) (isReported : Bool) :
    Tracks c p (declaredInStmts p sts) (Flow.stmtsFrom isReported sts) (Run.stmts sts) := by
  induction sts generalizing isReported with
  | nil => exact tracks_skip
  | cons st sts ih =>
    intro s a s' a' hw hr
    obtain ⟨a₀, t, a₁, isReported', kept, hw₁, hw₂⟩ := walks_stmtsFrom hw
    have hr := hr.kept kept
    have first := h.stmt [] st (hsts st List.mem_cons_self) s a₀ t a₁ hw₁ hr.left
    have rest := ih (fun y hy => hsts y (List.mem_cons_of_mem _ hy)) isReported' t a₁ s' a' hw₂
      (hr.right first first.below)
    exact .keepBefore kept (first.andThen rest)

theorem stmts {sts : List Stmt} (hsts : ∀ st ∈ sts, F.stmt st) :
    Tracks c p (declaredInStmts p sts) (Flow.stmts sts) (Run.stmts sts) :=
  fun s => h.stmtsFrom hsts _ s

theorem block {b : Block} (hb : F.block b) :
    Tracks c p (declaredInStmts p b.stmts) (Flow.block b) (Run.block p b) :=
  (h.stmts hb).within _

/-- The variables that statements bring into scope are tracked after them. -/
theorem trackedAfter {sts : List Stmt} (hsts : ∀ st ∈ sts, F.stmt st) {isReported : Bool}
    (hw : Walks (Flow.stmtsFrom isReported sts s) a s' a')
    (hr : Ready p (declaredInStmts p sts) a s) :
    ∀ v ∈ declaredIn p sts, ∃ n, a'.slots[v]? = some n := by
  induction sts generalizing s a isReported with
  | nil => simp [declaredIn]
  | cons st sts ih =>
    obtain ⟨a₀, t, a₁, isReported', kept, hw₁, hw₂⟩ := walks_stmtsFrom hw
    have hr := hr.kept kept
    have first := h.stmt [] st (hsts st List.mem_cons_self) s a₀ t a₁ hw₁ hr.left
    have hsts' := fun y hy => hsts y (List.mem_cons_of_mem st hy)
    have ready := hr.right first first.below
    have rest := h.stmtsFrom hsts' isReported' t a₁ s' a' hw₂ ready
    intro v hv
    simp only [declaredIn, List.flatMap_cons, List.mem_append] at hv
    obtain hv | hv := hv
    · obtain ⟨n, hn⟩ := h.declared [] st s a₀ t a₁ (hsts st List.mem_cons_self) hw₁ hr.left v hv
      exact ⟨n, rest.grows.kept v n hn⟩
    · exact ih hsts' hw₂ ready v hv

/-! ## Switches -/

theorem isExhaustive_eq {xs : List Expr} (hxs : ∀ x ∈ xs, F.expr x) (b : Bool) :
    (b || xs.any fun
      | .typePattern .. | .recordPattern .. => true
      | _ => false) = b := by
  rw [Bool.or_eq_left_iff_imp, List.any_eq_true]
  rintro ⟨x, hx, hpattern⟩
  have := h.patternFree x (hxs x hx)
  cases x <;> simp_all [isPattern]

/-- What is known after the walk of one group. -/
theorem switchGroup {g : SwitchCase} {start : Inits} {w w₁ : SwitchWalk} (hg : F.group g)
    (ha : a.InSwitch isExpression)
    (hw : Walks (Flow.switchGroup isExpression start w g) a w₁ a₁)
    (hr : Ready p (declarations p (.switchCase g)) a
      (if g.isArrow then start else start.merge w.fall)) :
    Sound c p (declarations p (.switchCase g)) a (if g.isArrow then start else start.merge w.fall)
        (Run.group isExpression g .skip) a₁ w₁.fall ∧
      (∀ v ∈ declaredIn p g.body, ∃ n, a₁.slots[v]? = some n) ∧
      w₁.isExhaustive = (w.isExhaustive || g.isDefault) := by
  obtain ⟨hl, hguard, hsts⟩ := hg
  rw [declarations_switchCase, hguard] at hr ⊢
  simp only [Option.toList_none, declaredInExprs_nil, List.nil_append] at hr ⊢
  unfold Flow.switchGroup at hw
  have exhaustive := h.isExhaustive_eq hl (w.isExhaustive || g.isDefault)
  obtain ⟨t, a₂, hw₁, hw⟩ := walks_bind hw
  rw [hguard] at hw
  have hw := walks_pureBind hw
  have labels := h.exprs hl _ a t a₂ hw₁ hr.left
  have ready := hr.right labels labels.below
  have inside := ha.grow labels.grows
  cases groupKind isExpression g with
  | value i x hx harrow hb hR =>
    subst hx
    rw [hR]
    simp only [harrow, hb, Bool.and_self] at hw hsts ready ⊢
    obtain ⟨t', a₃, hw₂, hw⟩ := walks_bind hw
    obtain ⟨u, a₄, hw₃, hw⟩ := walks_bind hw
    obtain ⟨rfl, rfl⟩ := walks_pure hw
    rw [declaredInStmts_single] at ready ⊢
    have body := h.expr x (h.ofExprStmt i x (hsts _ List.mem_cons_self)) t a₂ t' a₃ hw₂ ready
    have left := sound_atSwitch (c := c) (D := []) (inside.grow body.grows) hw₃ body.ready
    refine ⟨?_, by simp [declaredIn, declaredBy], exhaustive⟩
    simpa [harrow, groupJump] using labels.andThen (body.andThen left)
  | block hx harrow hb hR =>
    subst hx
    rw [hR]
    split at hw
    · rename_i x _ hx
      exact absurd hx (hb _ x)
    · simp only [harrow, if_true] at hw
      obtain ⟨t', a₃, hw₂, hw⟩ := walks_bind hw
      obtain ⟨rfl, rfl⟩ := walks_pure hw
      have body := h.stmts hsts t a₂ t' _ hw₂ ready
      have left : Sound c p [] a₁ t' nothing a₁ .dead := sound_nothing body.tidy trivial
      refine ⟨?_, h.trackedAfter hsts hw₂ ready, exhaustive⟩
      simpa using labels.andThen (body.andThen left)
  | arrow hx harrow hR =>
    subst hx
    rw [hR]
    simp only [harrow, if_true, Bool.false_and, Bool.false_eq_true, if_false] at hw
    obtain ⟨t', a₃, hw₂, hw⟩ := walks_bind hw
    obtain ⟨u, a₄, hw₃, hw⟩ := walks_bind hw
    obtain ⟨rfl, rfl⟩ := walks_pure hw
    have body := h.stmts hsts t a₂ t' a₃ hw₂ ready
    have left := sound_atSwitch (c := c) (D := []) (inside.grow body.grows) hw₃ body.ready
    refine ⟨?_, fun v hv => ?_, exhaustive⟩
    · simpa [groupJump] using labels.andThen (body.andThen left)
    · obtain ⟨n, hn⟩ := h.trackedAfter hsts hw₂ ready v hv
      exact ⟨n, left.grows.kept v n hn⟩
  | «open» harrow hR =>
    rw [hR]
    simp only [harrow, Bool.and_false, Bool.false_eq_true, if_false] at hw
    obtain ⟨t', a₃, hw₂, hw⟩ := walks_bind hw
    obtain ⟨rfl, rfl⟩ := walks_pure hw
    have body := h.stmts hsts t a₂ t' _ hw₂ ready
    refine ⟨?_, h.trackedAfter hsts hw₂ ready, exhaustive⟩
    simpa using labels.andThen (body.andThen (sound_skip (D := []) body.ready))

/-- The walk of groups follows the runs that fall into the first one, and those that enter one of
them from the selector. -/
theorem switchGroups {gs : List SwitchCase} {start : Inits} {w w' : SwitchWalk} {k : Nat}
    (declared : List Symbol) (hgs : ∀ g ∈ gs, F.group g) (ha : a.InSwitch isExpression)
    (hw : Walks (gs.foldlM (Flow.switchGroup isExpression start) w) a w' a')
    (hr : Ready p (declaredInGroups p gs) a w.fall) (hk : start.Below k) (hak : k ≤ a.nextSlot)
    (hd : ∀ v ∈ declared, ∃ n, a.slots[v]? = some n ∧ k ≤ n) :
    Sound c p (declaredInGroups p gs) a w.fall (Run.fall isExpression gs) a' w'.fall ∧
      Sound c p (declaredInGroups p gs) a start (Run.enter p isExpression declared gs) a' w'.fall ∧
      w'.isExhaustive = (w.isExhaustive || gs.any SwitchCase.isDefault) := by
  induction gs generalizing a w declared with
  | nil =>
    obtain ⟨rfl, rfl⟩ := walks_pure hw
    exact ⟨sound_skip hr, sound_nothing hr.tidy hr.below, by simp⟩
  | cons g gs ih =>
    have hg := hgs g List.mem_cons_self
    obtain ⟨w₁, a₁, hw₁, hw₂⟩ := walks_bind hw
    have entry : (if g.isArrow then start else start.merge w.fall).Below a.nextSlot := by
      split
      · exact hk.mono hak
      · exact (hk.mono hak).merge hr.below
    have start_entry : start.Weakens (if g.isArrow then start else start.merge w.fall) := by
      split
      · exact .refl _
      · exact Inits.weakens_merge_left _ _
    have ready : Ready p (declarations p (.switchCase g)) a _ := { hr.left with below := entry }
    obtain ⟨group, tracked, exhaustive⟩ := h.switchGroup hg ha hw₁ ready
    have declared₁ : ∀ v ∈ declared ++ declaredIn p g.body, ∃ n, a₁.slots[v]? = some n ∧ k ≤ n := by
      intro v hv
      obtain hv | hv := List.mem_append.1 hv
      · obtain ⟨n, hn, hkn⟩ := hd v hv
        exact ⟨n, group.grows.kept v n hn, hkn⟩
      · obtain ⟨n, hn⟩ := tracked v hv
        have fresh : a.slots[v]? = none := by
          refine ready.fresh v ?_
          rw [declarations_switchCase]
          simp [mem_declaredInStmts_of_declaredIn hv]
        exact ⟨n, hn, Nat.le_trans hak (group.grows.fresh v n fresh hn).2.1⟩
    obtain ⟨falls, enters, exhaustive'⟩ := ih _ (fun y hy => hgs y (List.mem_cons_of_mem _ hy))
      (ha.grow group.grows) hw₂ (hr.right group group.below)
      (Nat.le_trans hak group.grows.nextSlot) declared₁
    have whole := (group.andThen falls).of_imp (fun _ _ => group_andThen)
    refine ⟨?_, ?_, by simp [exhaustive', exhaustive, Bool.or_assoc]⟩
    · unfold Run.fall
      split <;> rename_i harrow
      · exact whole.nothing
      · simp only [harrow] at whole
        exact whole.before (Inits.weakens_merge_right _ _)
    · have opened : Sound c p [] a start (emit (declared.map .enter)) a start := by
        refine ⟨hr.tidy, hk.mono hak, .refl a, ?_⟩
        rintro - σ _ _ hσ ⟨rfl, rfl⟩
        exact ⟨Concern.safe_enter declared, hσ.enter hk hd⟩
      have first := opened.andThen (whole.before start_entry)
      exact Sound.either first (enters.later group.grows)

theorem switch {selector : Expr} {gs : List SwitchCase} (hx : F.expr selector)
    (hgs : ∀ g ∈ gs, F.group g) :
    Tracks c p (declarations p (.expr selector) ++ declaredInGroups p gs)
      (Flow.switchBody selector gs isExpression) (Run.switch p isExpression selector gs) := by
  refine (h.expr selector hx).bind ?_
  intro s a s' a' hw hr
  obtain ⟨⟨w, g⟩, a₁, hw₁, hw⟩ := walks_bind hw
  obtain ⟨a₂, hw₁, frame⟩ := walks_framed hw₁
  have ready := hr.push (f := .switch isExpression .dead .dead) ⟨trivial, trivial⟩
  obtain ⟨-, enters, exhaustive⟩ := h.switchGroups [] hgs ⟨_, _, _, rfl⟩ hw₁
    { ready with below := trivial } hr.below (Nat.le_refl _) (by simp)
  obtain ⟨fs, hf, rfl⟩ := frame enters.tidy enters.grows
  have hg := hf.weakens
  have hb := hf.below
  obtain ⟨breaks, yields, rfl⟩ : ∃ breaks yields, g = .switch isExpression breaks yields := by
    cases hg
    exact ⟨_, _, rfl⟩
  cases isExpression with
  | true =>
    obtain ⟨rfl, rfl⟩ := walks_pure hw
    have all := (enters.either enters.nothing).within (gs.flatMap fun g => declaredIn p g.body)
    refine all.absorbAll hf (e := yields) (fun j t fs hj hrec => ?_)
      (Inits.weakens_merge_right _ _) (Inits.weakens_merge_left _ _) (hb.2.merge enters.below)
    obtain rfl : j = .yield := by simpa using hj
    exact hrec
  | false =>
    have ends := ends_switch breaks yields
    have skips : Sound c p (declaredInGroups p gs) (a.push (.switch false .dead .dead)) s
        .skip a₂ s := by
      have here := sound_skip (c := c) (D := []) (s := s)
        ⟨enters.tidy, hr.below.mono enters.grows.nextSlot, List.nodup_nil, by simp⟩
      simpa using here.later enters.grows
    have stop := enters.below.merge hb.1
    obtain ⟨rfl, rfl⟩ := walks_pure hw
    simp only [Bool.false_or] at exhaustive
    simp only [exhaustive, Run.groups, Bool.false_or, Bool.false_eq_true, if_false]
    split
    · exact ((enters.either enters.nothing).within _).absorb hf ends
        (Inits.weakens_merge_left _ _) (Inits.weakens_merge_right _ _) stop
    · have left := (enters.within (gs.flatMap fun g => declaredIn p g.body)).absorb hf ends
        (u := (w.fall.merge breaks).merge s)
        ((Inits.weakens_merge_left _ _).trans (Inits.weakens_merge_left _ _))
        ((Inits.weakens_merge_right _ _).trans (Inits.weakens_merge_left _ _))
        (stop.merge skips.below)
      have right := (skips.within (gs.flatMap fun g => declaredIn p g.body)).absorb hf ends
        (u := (w.fall.merge breaks).merge s) (Inits.weakens_merge_right _ _)
        ((Inits.weakens_merge_right _ _).trans (Inits.weakens_merge_left _ _))
        (stop.merge skips.below)
      exact (left.either right).of_imp fun _ _ => absorb_within_either

end Parts

end Javelin.Flow
