import Javelin.Proofs.Flow.DirectTries
import Javelin.Flow.Analyze

/-!
# How direct statements end

What a throw statement throws is accounted for, also if it throws the parameter of a clause again.
With it, the walk of every form of statement knows how its runs end, if the walks of its parts do.
-/

namespace Javelin.Flow

open Endings

variable {X : Exceptions} {p : Program} {W : World → Prop} {n : Nat} {ρ : Held}
  {a a' a₁ : Analysis} {v v' : World} {s s' : Inits} {A : Endings} {r : Ending} {x : Expr}
  {ts : List TypeId} {labels : List Text}

/-! ## Throw statements -/

theorem lookup_of_mem_names {l : LocalId} (hl : l ∈ ρ.names) : ∃ e, ρ.lookup l = some e := by
  induction ρ with
  | nil => cases hl
  | cons y ρ ih =>
    rw [List.lookup_cons]
    split <;> rename_i hy
    · exact ⟨_, rfl⟩
    · obtain rfl | hl := List.mem_cons.1 hl
      · simp at hy
      · exact ih hl

/-- What a throw statement is taken to throw. -/
structure Throws (X : Exceptions) (p : Program) (ρ : Held) (a : Analysis) (x : Expr)
    (ts : List TypeId) : Prop where
  known : ∀ t ∈ ts, X.isKnown t
  covers : Holds X ρ a → ∀ e, X.MayThrow p ρ x e → X.isChecked e → X.isOneOf e ts

theorem held?_eq_some {e : TypeId} : X.held? p ρ x = some e ↔
    ∃ l, p.named? x = some l ∧ X.isFixed l ∧ ρ.lookup l = some e := by
  unfold Exceptions.held?
  cases p.named? x with
  | none => simp
  | some l => cases hl : X.isFixed l <;> simp [hl]

/-- An expression that does not stand for what a clause catches. -/
theorem throws_type (hx : X.isKnown (p.findings.typeOf x.info))
    (hnot : ∀ l, p.named? x = some l → X.isFixed l → a.rethrown[l]? = none) :
    Throws X p ρ a x [p.findings.typeOf x.info] := by
  refine ⟨by simpa using hx, fun hρ e he hc => ?_⟩
  unfold Exceptions.MayThrow at he
  cases hheld : X.held? p ρ x with
  | none =>
    rw [hheld] at he
    simpa [Exceptions.isOneOf] using he
  | some e' =>
    rw [hheld] at he
    subst he
    obtain ⟨l, hname, hfix, hlookup⟩ := held?_eq_some.1 hheld
    obtain ⟨ts, hts, -⟩ := hρ l e hlookup hfix hc
    simp [hnot l hname hfix] at hts

/-- An expression that stands for what the clause of a parameter catches. -/
theorem throws_caught {l : LocalId} (ha : Fit X p a) (hname : p.named? x = some l)
    (hfix : X.isFixed l) (hl : l ∈ ρ.names) (hts : a.rethrown[l]? = some ts) :
    Throws X p ρ a x ts := by
  refine ⟨(ha.rethrown l ts hts).2, fun hρ e he hc => ?_⟩
  obtain ⟨e', hlookup⟩ := lookup_of_mem_names hl
  have hheld : X.held? p ρ x = some e' := held?_eq_some.2 ⟨l, hname, hfix, hlookup⟩
  unfold Exceptions.MayThrow at he
  rw [hheld] at he
  subst he
  obtain ⟨ts', hts', he⟩ := hρ l e hlookup hfix hc
  obtain rfl : ts = ts' := Option.some.inj (hts.symm.trans hts')
  exact he

theorem ran_thrownTypes [Answers] (hX : X.Lawful) (hA : X.Agrees W) (hv : W v) (ha : Fit X p a)
    (hx : X.CanThrow p ρ.names x) (hw : Ran (thrownTypes x) a v ts a' v') :
    v' = v ∧ a' = a ∧ Throws X p ρ a x ts := by
  have other : (∀ l, p.named? x = some l → X.isFixed l → a.rethrown[l]? = none) →
      Ran (known (·.typeOf x.info) >>= fun t => pure (if t.isSome then [t] else [])) a v ts a' v' →
      v' = v ∧ a' = a ∧ Throws X p ρ a x ts := by
    intro hnot hw
    have hw := ran_knownBind hw
    rw [ha.program, if_pos (hX.isSome _ hx.1)] at hw
    obtain ⟨rfl, rfl, rfl⟩ := ran_pure hw
    exact ⟨rfl, rfl, throws_type hx.1 hnot⟩
  unfold thrownTypes at hw
  cases hname : x.withoutParens with
  | name i m =>
    rw [hname] at hw
    have hw := ran_knownBind hw
    rw [ha.program] at hw
    cases hu : p.findings.uses[m.info.id]? with
    | none =>
      rw [hu] at hw
      exact other (by simp [Program.named?, hname, hu]) hw
    | some y =>
      rw [hu] at hw
      cases y with
      | var l =>
        have named : p.named? x = some l := by simp [Program.named?, hname, hu]
        have hw := ran_getBind hw
        cases hr : a.rethrown[l]? with
        | none =>
          rw [hr] at hw
          refine other (fun l' hl' _ => ?_) hw
          obtain rfl : l = l' := Option.some.inj (named.symm.trans hl')
          exact hr
        | some us =>
          rw [hr] at hw
          obtain ⟨entry, v₁, hw₁, hw₂⟩ := ran_liftBind hw
          cases hw₁
          dsimp only at hw₂
          rw [← hA.isFixed l hv] at hw₂
          split at hw₂ <;> rename_i hfix
          · obtain ⟨rfl, rfl, rfl⟩ := ran_pure hw₂
            have around := hx.2 l named (ha.rethrown l _ hr).1 hfix
            exact ⟨rfl, rfl, throws_caught ha named hfix around hr⟩
          · refine other (fun l' hl' hfix' => ?_) hw₂
            obtain rfl : l = l' := Option.some.inj (named.symm.trans hl')
            exact absurd hfix' hfix
      | _ => exact other (by simp [Program.named?, hname, hu]) hw
  | _ =>
    rw [hname] at hw
    exact other (by simp [Program.named?, hname]) hw

theorem leads_throw [Answers] (hX : X.Lawful) (hA : X.Agrees W) {i : Info}
    (hx : X.CanThrow p ρ.names x) :
    Leads X p W ρ (fun _ => do
      (← thrownTypes x).forM (thrown i)
      return .dead) (fun r => ∃ e, X.MayThrow p ρ x e ∧ r = .throw e) := by
  intro s a v s' a' v' hv ha hw
  obtain ⟨ts, a₁, v₁, hw₁, hw₂⟩ := ran_bind hw
  obtain ⟨rfl, rfl, throws⟩ := ran_thrownTypes hX hA hv ha hx hw₁
  obtain ⟨u, a₂, v₂, hw₃, hw₄⟩ := ran_bind hw₂
  obtain ⟨rfl, rfl, rfl⟩ := ran_pure hw₄
  obtain ⟨hv', thrown⟩ := ran_thrownAll hX hA throws.known ha hv hw₃
  refine ⟨hv', thrown.fit, thrown.onward, fun hq hρ _ r hr => ?_⟩
  obtain ⟨e, he, rfl⟩ := hr
  exact fun hc => thrown.accounted hq e hc (throws.covers hρ e he hc)

/-! ## The rule -/

/-- The blank finals that another constructor has given their values. -/
theorem quiet_constructed (isSuper : Bool) : Quiet W (fun s => do
    if isSuper then
      return s
    (← get).blankFinals.foldlM (fun s f => do
      if ((← get).program.fieldEntry f).isStatic then return s
      else return s.assign (← track (.field f))) s) := by
  intro s
  split
  · exact calm_pure fun hs => hs
  · refine calm_get.bind fun a _ => calm_foldlM (fun hs => hs) fun t f ht => ?_
    refine calm_get.bind fun b _ => ?_
    split
    · exact calm_pure ht
    · exact (calm_track _).bind fun k _ => calm_pure fun hs => (ht hs).assign k

namespace Follows

variable [Visitor] [Ways] (h : Follows X p W n)
include h

theorem labeled {label : Ident} {st : Stmt} (hst : Direct X p n ρ.names (.stmt st)) :
    Leads X p W ρ (fun s => do
      let (stop, left) ← inFrame (.labeled label.name .dead)
        (Visitor.stmt (labels ++ [label.name]) st s)
      return stop.merge (match left with
        | .labeled _ breaks => breaks
        | _ => .dead))
      ((Ways.stmt ρ (labels ++ [label.name]) st).absorb (· == .break (some label.name))) := by
  intro s a v s' a' v' hv ha hw
  obtain ⟨⟨stop, g⟩, a₁, v₁, hwf, hw₁⟩ := ran_bind hw
  obtain ⟨rfl, rfl, rfl⟩ := ran_pure hw₁
  obtain ⟨a₂, hws, frame⟩ := ran_framed hwf
  have pushed : Fit X p (a.push (.labeled label.name .dead)) := ha.push trivial
  obtain ⟨hv', body⟩ := h.stmt ρ _ st hst s _ v stop a₂ _ hv pushed hws
  obtain ⟨gs, hl, rfl⟩ := frame body.fit body.onward
  obtain ⟨breaks, rfl⟩ : ∃ breaks, g = .labeled label.name breaks := by
    have hg := hl.gains.weakens
    cases hg
    exact ⟨_, rfl⟩
  exact ⟨hv', body.absorb hl (fun _ _ _ h => h) (ends_labeled label.name breaks)
    (Inits.weakens_merge_left _ _) (Inits.weakens_merge_right _ _)⟩

/-- An assertion, which need not be evaluated. -/
theorem assertion {cond : Expr} {message : Option Expr}
    (hc : Direct X p n ρ.names (.expr cond))
    (hm : ∀ x ∈ message, Direct X p n ρ.names (.expr x)) :
    Leads X p W ρ (fun s => do
      let c ← Visitor.condition cond s
      let _ ← Flow.optional message c.whenFalse
      return s.allowFrom c)
      (skip.either ((Ways.condition ρ cond).branch skip
        ((Way.optional ρ message).andThen nothing))) := by
  intro s a v s' a' v' hv ha hw
  obtain ⟨q, a₁, v₁, hw₁, hw₂⟩ := ran_bind hw
  obtain ⟨t, a₂, v₂, hw₃, hw₄⟩ := ran_bind hw₂
  obtain ⟨rfl, rfl, rfl⟩ := ran_pure hw₄
  obtain ⟨hv₁, test⟩ := h.condition ρ cond hc s a v q a₁ v₁ hv ha hw₁
  obtain ⟨hv', told⟩ := h.optional hm q.whenFalse a₁ v₁ t _ _ hv₁ test.fit hw₃
  refine ⟨hv', told.fit, test.onward.trans told.onward, fun hq hρ hs r hr => ?_⟩
  obtain ⟨q₁, q₂⟩ := test.onward.quiet told.onward hq
  obtain rfl | ⟨hr, habrupt⟩ | ⟨b, htest, hr⟩ := hr
  · exact hs.allowFrom q
  · exact ((test.ends q₁ hρ hs r hr).abrupt habrupt _).gain told.onward.frames
  · have start := test.ends q₁ hρ hs _ htest
    cases b with
    | true =>
      subst hr
      exact hs.allowFrom q
    | false =>
      obtain ⟨hr, habrupt⟩ | ⟨-, hr⟩ := hr
      · exact (told.ends q₂ (hρ.onward test.onward) start r hr).abrupt habrupt _
      · exact hr.elim

variable [Answers] (hA : X.Agrees W) (hX : X.Lawful)
include hA hX

theorem constructorCall {i : Info} {isSuper : Bool} {qualifier : Option Expr} {args : List Expr}
    (hq : ∀ x ∈ qualifier, Direct X p n ρ.names (.expr x))
    (hargs : ∀ x ∈ args, Direct X p n ρ.names (.expr x)) :
    Leads X p W ρ (Flow.constructorCall i isSuper qualifier args)
      ((Way.optional ρ qualifier).andThen ((Way.exprs ρ args).andThen (Way.call X p i))) := by
  have called := leads_callThen (p := p) (ρ := ρ) hX hA i i (leads_calm (quiet_constructed isSuper))
  have ended := called.of_imp fun _ => (IsPlain.call i).andThen_skip
  exact (h.optional hq).bind ((h.exprs hargs).bind ended)

/-- The walk of a statement knows how its runs end. -/
theorem stmtRule {st : Stmt} (hst : Direct X p (n + 1) ρ.names (.stmt st)) :
    Leads X p W ρ (Flow.stmtRule labels st) (Way.stmt X p ρ labels st) := by
  have expr : ∀ x, Node.expr x ∈ (Node.stmt st).children → Direct X p n ρ.names (.expr x) :=
    fun x hx => hst.child hx
  have inner : ∀ y, Node.stmt y ∈ (Node.stmt st).children → Direct X p n ρ.names (.stmt y) :=
    fun y hy => hst.child hy
  cases st with
  | block b => exact h.stmts hA fun y hy => inner y (by simp [Node.children, Node.ofStmt, hy])
  | empty i => exact leads_skip
  | locals d =>
    exact h.declarators fun y hy =>
      hst.child (by simp [Node.children, Node.ofStmt, Node.ofVarDecl, hy])
  | localClass i d =>
    exact (hst.child (c := .typeDecl d) (by simp [Node.children, Node.ofStmt])).sensible.elim
  | expr i x => exact h.expr ρ x (expr x (by simp [Node.children, Node.ofStmt]))
  | ifElse i cond yes no =>
    have test := h.condition ρ cond (expr cond (by simp [Node.children, Node.ofStmt]))
    have first := h.stmt ρ [] yes (inner yes (by simp [Node.children, Node.ofStmt]))
    cases no with
    | none => exact test.branch first leads_skip
    | some no =>
      exact test.branch first (h.stmt ρ [] no (inner no (by simp [Node.children, Node.ofStmt])))
  | «while» i cond st =>
    exact h.whileLoop hA (expr cond (by simp [Node.children, Node.ofStmt]))
      (inner st (by simp [Node.children, Node.ofStmt]))
  | doWhile i st cond =>
    exact h.doLoop (expr cond (by simp [Node.children, Node.ofStmt]))
      (inner st (by simp [Node.children, Node.ofStmt]))
  | «for» i init cond update st =>
    exact h.forLoop hA (fun y hy => inner y (by simp [Node.children, Node.ofStmt, hy]))
      (fun x hx => expr x (by simp [Node.children, Node.ofStmt, Option.mem_def.1 hx]))
      (fun x hx => expr x (by simp [Node.children, Node.ofStmt, hx]))
      (inner st (by simp [Node.children, Node.ofStmt]))
  | forEach i d iterable st =>
    exact h.forEachLoop (expr iterable (by simp [Node.children, Node.ofStmt]))
      (inner st (by simp [Node.children, Node.ofStmt]))
  | labeled i label st =>
    exact h.labeled (inner st (by simp [Node.children, Node.ofStmt]))
  | switch i selector gs =>
    exact h.switch hA (expr selector (by simp [Node.children, Node.ofStmt])) fun g hg =>
      hst.child (by simp [Node.children, Node.ofStmt, hg])
  | «try» i rs b cs last => exact h.tryStatement hA hX hst
  | sync i lock b =>
    exact (h.expr ρ lock (expr lock (by simp [Node.children, Node.ofStmt]))).bind
      (h.block hA (hst.child (by simp [Node.children, Node.ofStmt])))
  | assert i cond message =>
    exact h.assertion (expr cond (by simp [Node.children, Node.ofStmt])) fun x hx =>
      expr x (by simp [Node.children, Node.ofStmt, Option.mem_def.1 hx])
  | «return» i value =>
    exact (h.optional fun x hx =>
      expr x (by simp [Node.children, Node.ofStmt, Option.mem_def.1 hx])).bind leads_return
  | «break» i label => exact leads_breakOut hA i label
  | «continue» i label => exact leads_continueLoop hA i label
  | yield i value =>
    exact (h.expr ρ value (expr value (by simp [Node.children, Node.ofStmt]))).bind
      (leads_yield hA i)
  | throw i x =>
    exact (h.expr ρ x (expr x (by simp [Node.children, Node.ofStmt]))).bind
      (leads_throw hX hA hst.sensible)
  | constructorCall i isSuper qualifier ts args =>
    exact h.constructorCall hA hX
      (fun x hx => expr x (by simp [Node.children, Node.ofStmt, Option.mem_def.1 hx]))
      fun x hx => expr x (by simp [Node.children, Node.ofStmt, hx])

end Follows

end Javelin.Flow

/-!
# Checked exceptions are declared

The walk of direct trees knows how their runs end (`follows`). So if no exception is reported as not
handled while the body of a member is walked, every checked exception that can leave the body is one
that the member declares (`checked_declared`).
-/

namespace Javelin.Flow

open Endings

variable {X : Exceptions} {p : Program} {W : World → Prop} {ρ : Held} {n k : Nat}
  {a a' a₁ : Analysis} {w w' : World} {s s' t : Inits} {A : Endings} {r : Ending} {x : Expr}
  {e : TypeId} {ts : List TypeId}

/-! ## How parts end -/

theorem ways_value (hr : (ways X p k).expr ρ x r) : r = .done ∨ ∃ e, r = .throw e := by
  cases k with
  | zero => exact hr.elim
  | succ k => exact hr.2

theorem ways_truth (hr : (ways X p k).condition ρ x r) :
    (∃ b, r = .truth b) ∨ ∃ e, r = .throw e := by
  cases k with
  | zero => exact hr.elim
  | succ k => exact hr.2

theorem ways_constant {b b' : Bool} (hc : p.constantCondition x = some b)
    (hr : (ways X p k).condition ρ x (.truth b')) : b' = b := by
  cases k with
  | zero => exact hr.elim
  | succ k =>
    obtain ⟨hr | ⟨_, -, h⟩, -⟩ := hr
    · have inner : p.constantCondition x.withoutParens = some b := by
        simpa [Program.constantCondition, withoutParens_idem] using hc
      simp only [Way.condition, Way.conditionOr, inner] at hr
      obtain ⟨-, h⟩ | ⟨-, h⟩ := hr
      · cases h
      · exact Ending.truth.inj h
    · cases h

/-! ## Tying the knot -/

section

variable (hX : X.Lawful) (hA : X.Agrees W)
include hX hA

section

variable (ih : ∀ k, @Follows X p W n (visitor n) (ways X p k))
include ih

theorem leads_expr (hx : Direct X p (n + 1) ρ.names (.expr x)) :
    Leads X p W ρ ((visitor (n + 1)).expr x) ((ways X p k).expr ρ x) := by
  let _ := visitor n
  have rule := fun k => @Follows.exprRule X p W n ρ _ (ways X p k) (ih k) _ hA hX x hx
  cases k with
  | zero => exact leads_nothing (rule 0)
  | succ k => exact (rule k).evaluated

theorem leads_condition (hx : Direct X p (n + 1) ρ.names (.expr x)) :
    Leads X p W ρ ((visitor (n + 1)).condition x) ((ways X p k).condition ρ x) := by
  let _ := visitor n
  have rule := fun k => @Follows.conditionRule X p W n ρ _ (ways X p k) (ih k) _ hA hX x hx
  cases k with
  | zero => exact leads_nothing (rule 0)
  | succ k => exact (rule k).decided

theorem leads_stmt {labels : List Text} {st : Stmt}
    (hst : Direct X p (n + 1) ρ.names (.stmt st)) :
    Leads X p W ρ ((visitor (n + 1)).stmt labels st) ((ways X p k).stmt ρ labels st) := by
  let _ := visitor n
  have rule := fun k => @Follows.stmtRule X p W n ρ labels _ (ways X p k) (ih k) _ hA hX st hst
  cases k with
  | zero => exact leads_nothing (rule 0)
  | succ k => exact (rule k).exposed

end

/-- The walk of direct trees of at most some depth knows how their runs end. -/
theorem follows (n k : Nat) : @Follows X p W n (visitor n) (ways X p k) := by
  induction n generalizing k with
  | zero =>
    let _ := visitor 0
    let _ := ways X p k
    exact {
      expr := fun _ _ hx => hx.elim
      condition := fun _ _ hx => hx.elim
      stmt := fun _ _ _ hst => hst.elim
      value := fun _ _ _ => ways_value
      truth := fun _ _ _ => ways_truth
      constant := fun _ _ _ _ => ways_constant
      skipped := fun ρ _ b e hx hc => hx b hc k ρ e }
  | succ n ih =>
    let _ := visitor (n + 1)
    let _ := ways X p k
    exact {
      expr := fun _ _ hx => leads_expr hX hA ih hx
      condition := fun _ _ hx => leads_condition hX hA ih hx
      stmt := fun _ _ _ hst => leads_stmt hX hA ih hst
      value := fun _ _ _ => ways_value
      truth := fun _ _ _ => ways_truth
      constant := fun _ _ _ _ => ways_constant
      skipped := fun ρ _ b e hx hc => hx b hc k ρ e }

end

/-! ## Bodies -/

/-- A method or constructor. A constructor that calls no other one first calls that of its
superclass. -/
def Way.member (X : Exceptions) (p : Program) [Ways] (isConstructor : Bool) (i : Info) (b : Block) :
    Endings :=
  (if isConstructor && !startsWithConstructorCall b then call X p i else skip).andThen (block [] b)

/-- The start of the walk of a body that declares exceptions. -/
def Analysis.enteringBody (a : Analysis) (member : Info) (kind : BodyKind) (throws : List TypeId) :
    Analysis :=
  { a with member := some member.id, kind, frames := [.body throws false .dead] }

/-- What the walk of a body starts from: the exceptions of parameters are known. -/
structure Enters (X : Exceptions) (p : Program) (a : Analysis) : Prop where
  program : a.program = p
  rethrown : ∀ l ts, a.rethrown[l]? = some ts → X.isParam l ∧ ∀ t ∈ ts, X.isKnown t

variable {i : Info} {kind : BodyKind}

theorem Enters.fit (h : Enters X p a) (hts : ∀ t ∈ ts, X.isKnown t) :
    Fit X p (a.enteringBody i kind ts) :=
  ⟨h.program, List.forall_mem_singleton.2 hts, h.rethrown⟩

theorem ran_worldBind {α : Type} {f : World → Analyzer α} {r : α}
    (h : Ran (getThe World >>= f) a w r a' w') : Ran (f w) a w r a' w' := h

theorem ran_inBody {work : Analyzer Inits} {r : Inits × Inits}
    (h : Ran (inBody i kind ts false work) a w r a' w') :
    ∃ a₁, Ran work (a.enteringBody i kind ts) w r.1 a₁ w' ∧ a₁.unhandled = a'.unhandled := by
  have h := ran_modifyBind h
  obtain ⟨x, a₁, w₁, h₁, h₂⟩ := ran_bind h
  obtain ⟨a₂, hm, -, rfl⟩ := ran_inFrame h₁
  obtain ⟨rfl, rfl, rfl⟩ := ran_pure h₂
  exact ⟨a₂, hm, rfl⟩

/-- A checked exception that leaves a body is one that the body declares, if nothing is reported. -/
theorem Led.declared (h : Led X p [] (a.enteringBody i kind ts) s A a₁ t)
    (hq : a₁.unhandled = a.unhandled) (hs : s.IsLive) (he : A (.throw e)) (hc : X.isChecked e) :
    X.isOneOf e ts := by
  have accounted : X.Accounted e a₁.frames := h.ends hq nofun hs _ he hc
  have gains := h.onward.frames
  simp only [Analysis.enteringBody] at gains
  generalize a₁.frames = fs at accounted gains
  cases gains with
  | cons hf _ =>
    obtain ⟨hw, -⟩ := hf
    cases hw
    exact accounted.resolve_left (by simp)

/-- The same for the walk of a body from a given state. -/
theorem declared_of_leadsAt {m : Analyzer Inits} {x : Inits × Inits} (hm : LeadsAt X p W [] m s A)
    (ha : Enters X p a) (hts : ∀ t ∈ ts, X.isKnown t) (hw : W w)
    (h : Ran (inBody i kind ts false m) a w x a' w') (hq : a'.unhandled = a.unhandled)
    (hs : s.IsLive) (he : A (.throw e)) (hc : X.isChecked e) : X.isOneOf e ts := by
  obtain ⟨a₁, h₁, h₂⟩ := ran_inBody h
  obtain ⟨-, led⟩ := hm _ _ _ _ _ hw (ha.fit hts) h₁
  exact led.declared (h₂.trans hq) hs he hc

/-- The report of a missing return takes no other report back. -/
theorem unhandled_le_missingReturn {i : Info} {e : MethodEntry} {stop : Inits}
    (h : Ran (do
      if stop.isReachable && !e.isConstructor then
        unless ← isVoidResult e.result do
          report .missingReturn i [← Lookup.typeName e.result]
      return stop) a w s' a' w') : a.unhandled ≤ a'.unhandled := by
  have ends : ∀ {b b' : Analysis} {v v'}, Ran (pure stop) b v s' b' v' →
      b.unhandled ≤ b'.unhandled := fun h => by
    obtain ⟨-, rfl, -⟩ := ran_pure h
    exact Nat.le_refl _
  split at h
  · obtain ⟨b, a₁, w₁, h₁, h₂⟩ := ran_bind h
    obtain ⟨t, w₂, -, h₃⟩ := ran_liftBind h₁
    obtain ⟨-, rfl, rfl⟩ := ran_pure h₃
    split at h₂
    · exact ends h₂
    · obtain ⟨text, w₃, -, h₄⟩ := ran_liftBind h₂
      obtain ⟨u, a₂, w₄, h₅, h₆⟩ := ran_bind h₄
      obtain ⟨v, w₅, -, h₇⟩ := ran_liftBind (ran_getBind h₅)
      obtain ⟨rfl, rfl⟩ := ran_modify h₇
      refine Nat.le_trans ?_ (ends h₆)
      simp [Analysis.unhandled]
  · exact ends h

section

variable (hX : X.Lawful) (hA : X.Agrees W)
include hX hA

/-- A body that may start with a call. -/
theorem ran_mayCall {c : Bool} {i j : Info} {m : Analyzer Inits} (ha : Fit X p a) (hw : W w)
    (h : Ran (if c then thrownByCall i j >>= fun _ => m else m) a w t a' w') :
    ∃ a₁ w₁, W w₁ ∧ Led X p ρ a s (if c then Way.call X p i else skip) a₁ s ∧
      Ran m a₁ w₁ t a' w' := by
  cases c with
  | true =>
    obtain ⟨u, a₁, w₁, h₁, h₂⟩ := ran_bind h
    have called : Ran (thrownByCall i j >>= fun _ => pure s) a w s a₁ w₁ := by
      unfold Ran
      rw [StateT.run_bind, Run.bind_run h₁]
      rfl
    obtain ⟨hw₁, led⟩ := leads_call hX hA i j s a w s a₁ w₁ hw ha called
    exact ⟨a₁, w₁, hw₁, led, h₂⟩
  | false => exact ⟨a, w, hw, led_skip ha, h⟩

/-- The walk of a method or constructor knows how its body ends. -/
theorem ran_methodBody {m : MethodDecl} {id : MethodId} {b : Block} (ha : Enters X p a) (hw : W w)
    (hid : w.methodOfDecl[m.info.id]? = some id) (hb : m.body = some b) (ht : X.isKnown a.type)
    (hdirect : Direct X p n [] (Node.ofBlock b))
    (h : Ran (@methodBody _ (visitor n) m s) a w s' a' w') :
    ∃ kind a₁ t, Led X p [] (a.enteringBody m.info kind (X.throws id)) s
      (@Way.member X p (ways X p k) (w.methods.getD id.index {}).isConstructor m.info b) a₁ t ∧
      a₁.unhandled ≤ a'.unhandled := by
  let _ := visitor n
  let _ := ways X p k
  have h₁ := ran_worldBind h
  simp only [hid, hb] at h₁
  obtain ⟨e, w₁, h₂, h₃⟩ := ran_liftBind h₁
  cases h₂
  obtain ⟨sh, w₂, h₄, h₅⟩ := ran_liftBind (ran_getBind h₃)
  obtain ⟨hw₂, -, -⟩ := hA.shape ht hw h₄
  obtain ⟨x, a₁, w₃, h₆, h₇⟩ := ran_bind h₅
  obtain ⟨a₂, h₈, hq⟩ := ran_inBody h₆
  obtain ⟨_, a₃, w₄, hleave, hend⟩ := ran_bind h₇
  obtain ⟨rfl, rfl⟩ := ran_modify hleave
  obtain ⟨rfl, rfl, rfl⟩ := ran_pure hend
  -- In the frame: the parameters, the call of another constructor, and the block.
  obtain ⟨s₁, a₄, w₅, h₉, h₁₀⟩ := ran_bind h₈
  obtain ⟨hw₅, same, live⟩ := quiet_binds Param.name _ _ _ _ _ _ _ hw₂ h₉
  have fit : Fit X p a₄ := same.fit (ha.fit (hA.throws id hw ▸ hX.throws id))
  obtain ⟨a₅, w₆, hw₆, called, h₁₁⟩ := ran_mayCall (ρ := []) hX hA fit hw₅ h₁₀
  obtain ⟨t, a₆, w₇, h₁₂, h₁₃⟩ := ran_bind h₁₁
  have block := (follows hX hA n k).block (ρ := []) hA hdirect
  obtain ⟨-, led⟩ := block s₁ a₅ w₆ t a₆ w₇ hw₆ called.fit h₁₂
  rw [← hA.throws id hw]
  exact ⟨_, a₆, t, ((called.andThen led).unmoved same).before live,
    hq ▸ unhandled_le_missingReturn h₁₃⟩

end

/-! ## A method that throws

The method `void m() throws Exception { throw e; }`, where `e` is of the class `E` of exceptions. -/

/-- The name that is thrown. -/
def thrownName : Expr := .name { id := 4 } { info := { id := 5 }, name := "e" }

def throwingBody : Block where
  info := { id := 2 }
  stmts := [.throw { id := 3 } thrownName]

def throwingMethod : MethodDecl where
  info := { id := 1 }
  modifiers := none
  typeParams := []
  result := none
  name := { name := "m" }
  receiver := none
  params := []
  dims := 0
  throws := []
  body := some throwingBody
  isConstructor := false
  isCompact := false
  default := none
  doc := none

def throwingProgram : Program where
  findings := { types := ({} : Std.HashMap Nat TypeId).insert 4 ⟨16⟩ }

def throwingStart : Analysis where
  unit := ⟨0⟩
  program := throwingProgram
  type := ⟨17⟩

theorem throwing_methodOfDecl : fewClasses.methodOfDecl[1]? = some ⟨1⟩ :=
  Std.HashMap.getElem?_insert_self

theorem throwing_typeOf : throwingProgram.findings.typeOf thrownName.info = ⟨16⟩ :=
  Std.HashMap.getD_insert_self

/-- The name is not the parameter of a clause. -/
theorem throwing_uses : throwingProgram.findings.uses[5]? = none := Std.HashMap.getElem?_empty

theorem throwing_named : throwingProgram.named? thrownName = none := by
  simp [Program.named?, thrownName, Expr.withoutParens, throwing_uses]

theorem throwingBody_direct :
    Direct fewExceptions throwingProgram 4 [] (Node.ofBlock throwingBody) := by
  have thrown : fewExceptions.CanThrow throwingProgram [] thrownName := by
    refine ⟨?_, fun l hl => ?_⟩
    · rw [throwing_typeOf]
      exact List.mem_of_elem_eq_true rfl
    · cases throwing_named.symm.trans hl
  have skipped : fewExceptions.CanSkip throwingProgram thrownName := fun b hb => by
    simp [Program.constantCondition, throwingProgram] at hb
  exact ⟨trivial, List.forall_mem_singleton.2 ⟨thrown, List.forall_mem_singleton.2 ⟨skipped,
    List.forall_mem_singleton.2 ⟨trivial, nofun⟩⟩⟩⟩

/-- The exception leaves the body of the method. -/
theorem throwingBody_leaves : Leaves fewExceptions throwingProgram
    (fun _ => Way.member fewExceptions throwingProgram false { id := 1 } throwingBody)
    (.throw ⟨16⟩) := by
  have evaluated : (ways fewExceptions throwingProgram 1).expr [] thrownName .done :=
    ⟨.inl rfl, .inl rfl⟩
  have thrown : fewExceptions.MayThrow throwingProgram [] thrownName ⟨16⟩ := by
    unfold Exceptions.MayThrow Exceptions.held?
    rw [throwing_named, throwing_typeOf]
    rfl
  exact ⟨2, .inr ⟨rfl, .inl ⟨.inl (.inr ⟨evaluated, ⟨16⟩, thrown, rfl⟩), rfl⟩⟩⟩

/-- It is checked and declared, so it is not reported. -/
theorem ran_thrown_declared (hf : a.frames = [.body [⟨13⟩] false .dead]) (i : Info) :
    Ran (thrown i ⟨16⟩) a fewClasses () a fewClasses := by
  have own : (⟨16⟩ : TypeId) ∈ fewIds := List.mem_of_elem_eq_true rfl
  have checked : Ran (isChecked ⟨16⟩) a fewClasses true a fewClasses :=
    isChecked_fewClasses (n := 999998) .self own a
  have covered : Ran (isCovered ⟨16⟩ [⟨13⟩]) a fewClasses true a fewClasses := by
    have subtype : ∀ t ∈ fewIds, Lookup.isSubtype ⟨16⟩ t fewClasses =
        .ok (fewExceptions.isSub ⟨16⟩ t) fewClasses :=
      fun t ht => FewClasses.self.subtype (n := 999998) own ht
    have any : Lookup.anyM (Lookup.isSubtype ⟨16⟩) [⟨13⟩] fewClasses = .ok true fewClasses :=
      Run.bind_run (subtype ⟨13⟩ (List.mem_of_elem_eq_true rfl))
    exact Run.bind_run any
  have escapes : Ran (escape ⟨16⟩ a.frames) a fewClasses (a.frames, false) a fewClasses := by
    rw [hf]
    exact Ran.bind checked (Ran.bind covered rfl)
  exact Ran.getBind (Ran.bind escapes rfl)

/-- The walk of the method reports nothing. -/
theorem ran_throwingMethod :
    Ran (@methodBody _ (visitor 4) throwingMethod .start) throwingStart fewClasses .dead
      { throwingStart with kind := .method } fewClasses := by
  let inside := throwingStart.enteringBody { id := 1 } .method [⟨13⟩]
  have evaluated : Ran ((visitor 3).expr thrownName .start) inside fewClasses .start inside
      fewClasses := by
    change Ran (read _ _ >>= fun _ => pure _) _ _ _ _ _
    exact Ran.bind (Ran.knownBind throwing_uses rfl) (Ran.pure _ _ _)
  have types : Ran (thrownTypes thrownName) inside fewClasses [⟨16⟩] inside fewClasses :=
    Ran.knownBind throwing_uses (Ran.knownBind throwing_typeOf (Ran.pure _ _ _))
  have thrown : Ran ((visitor 4).stmt [] (.throw { id := 3 } thrownName) .start) inside fewClasses
      .dead inside fewClasses := by
    change Ran (@stmtRule _ (visitor 3) [] _ _) _ _ _ _ _
    unfold stmtRule
    exact Ran.bind evaluated
      (Ran.bind types (Ran.bind (Ran.bind (ran_thrown_declared rfl _) rfl) rfl))
  have body : Ran (@block (visitor 4) throwingBody .start) inside fewClasses .dead inside
      fewClasses := Ran.bind thrown (Ran.pure _ _ _)
  have owner : Lookup.shape ⟨17⟩ fewClasses = .ok _ fewClasses :=
    Lookup.shape_class (FewClasses.self.isClass_at (i := 6) rfl)
  unfold methodBody
  refine Ran.bind (b := fewClasses) rfl ?_
  rw [show throwingMethod.info.id = 1 from rfl, throwing_methodOfDecl]
  refine Ran.liftBind (b := fewClasses.methods.getD 1 {}) rfl (Ran.getBind (Ran.liftBind owner ?_))
  -- The frame of the body, in which there are no parameters.
  exact Ran.bind (Ran.modifyBind (Ran.bind (Ran.modifyBind
    (Ran.bind (Ran.bind (Ran.pure _ _ _) (Ran.bind body rfl)) rfl)) rfl)) rfl

section

variable (hX : X.Lawful) (hA : X.Agrees W)
include hX hA

/-- If no exception is reported as not handled while a member is walked, every checked exception
that can leave its body is one of those that the member declares. That holds of the body of a method
or constructor, of an initializer block, and of the initial value of a field. -/
theorem checked_declared (ha : Enters X p a) (hw : W w) (hs : s.IsLive)
    (hq : a'.unhandled = a.unhandled) (hc : X.isChecked e) :
    (∀ m id b, w.methodOfDecl[m.info.id]? = some id → m.body = some b → X.isKnown a.type →
      Direct X p n [] (Node.ofBlock b) → Ran (@methodBody _ (visitor n) m s) a w s' a' w' →
      Leaves X p (fun _ => Way.member X p (w.methods.getD id.index {}).isConstructor m.info b)
        (.throw e) → X.isOneOf e (X.throws id)) ∧
    (∀ i kind ts b r, (∀ t ∈ ts, X.isKnown t) → Direct X p n [] (Node.ofBlock b) →
      Ran (inBody i kind ts false (@block (visitor n) b s)) a w r a' w' →
      Leaves X p (fun _ => Way.block [] b) (.throw e) → X.isOneOf e ts) ∧
    ∀ i kind ts x r, (∀ t ∈ ts, X.isKnown t) → Direct X p n [] (.expr x) →
      Ran (inBody i kind ts false ((visitor n).expr x s)) a w r a' w' →
      Leaves X p (fun _ => Ways.expr [] x) (.throw e) → X.isOneOf e ts := by
  refine ⟨fun m id b hid hb ht hdirect h ⟨k, he⟩ => ?_, fun i kind ts b r hts hdirect h ⟨k, he⟩ => ?_,
    fun i kind ts x r hts hdirect h ⟨k, he⟩ => ?_⟩
  · obtain ⟨kind, a₁, t, led, hle⟩ := ran_methodBody (k := k) hX hA ha hw hid hb ht hdirect h
    have hge : a.unhandled ≤ a₁.unhandled := led.onward.unhandled
    exact led.declared (by omega) hs he hc
  · let _ := visitor n
    let _ := ways X p k
    have led := (follows hX hA n k).block (ρ := []) hA hdirect
    exact declared_of_leadsAt (led s) ha hts hw h hq hs he hc
  · let _ := visitor n
    let _ := ways X p k
    have led := (follows hX hA n k).expr [] x hdirect
    exact declared_of_leadsAt (led s) ha hts hw h hq hs he hc

end

theorem checked_declared_throwing : fewExceptions.isOneOf ⟨16⟩ (fewExceptions.throws ⟨1⟩) ∧
    fewExceptions.isChecked ⟨16⟩ := by
  have enters : Enters fewExceptions throwingProgram throwingStart :=
    ⟨rfl, fun l ts h => by cases (Std.HashMap.getElem?_empty).symm.trans h⟩
  have agrees : fewExceptions.Agrees FewClasses := fewExceptions_agrees (n := 999998)
  have checked : fewExceptions.isChecked ⟨16⟩ := by decide
  have unhandled : { throwingStart with kind := .method }.unhandled = throwingStart.unhandled := rfl
  obtain ⟨declared, -⟩ := checked_declared fewExceptions_lawful agrees enters .self ⟨_, _, rfl⟩
    unhandled checked
  exact ⟨declared throwingMethod ⟨1⟩ throwingBody throwing_methodOfDecl rfl
    (List.mem_of_elem_eq_true rfl) throwingBody_direct ran_throwingMethod throwingBody_leaves,
    checked⟩

end Javelin.Flow
