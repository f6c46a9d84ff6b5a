import Javelin.Proofs.Flow.Leaving

/-!
# Direct bodies

`Direct n` holds for trees of at most depth `n` without lambdas and classes inside, in which what is
thrown, caught and closed is of known classes, and no constant condition throws what must be
handled. `Follows` says that the walk of such parts knows how their runs end. The steps that have
nothing to do with exceptions come first, then those that a whole of expressions and statements is
made of. -/

namespace Javelin.Flow

/-! ## Forms -/

/-- Whether something can be thrown: it is of a known class. A parameter of a clause that never
changes stands for what the clause catches, so it must be in scope. -/
def Exceptions.CanThrow (X : Exceptions) (p : Program) (params : List LocalId) (x : Expr) : Prop :=
  X.isKnown (p.findings.typeOf x.info) ∧
    ∀ l, p.named? x = some l → X.isParam l → X.isFixed l → l ∈ params

/-- Whether a resource can be closed. -/
def Exceptions.CanClose (X : Exceptions) (p : Program) : Stmt → Prop
  | .locals d => ∀ v ∈ d.vars, ∀ l, p.local? v.name = some l → X.isResource (X.localType l)
  | .expr _ x => X.isResource (p.findings.typeOf x.info)
  | _ => True

/-- Whether a clause can catch: its classes are known, and its parameter is a variable of its
own. -/
def Exceptions.CanCatch (X : Exceptions) (p : Program) (params : List LocalId) (c : CatchClause) :
    Prop :=
  (∀ t ∈ handledTypes p c, X.isKnown t) ∧
    ∀ l, p.local? c.param.name = some l → X.isParam l ∧ l ∉ params

/-- Whether the walk may leave out what an expression evaluates if it is a constant condition: the
values that its fields are selected from throw nothing that must be declared. -/
def Exceptions.CanSkip (X : Exceptions) (p : Program) (x : Expr) : Prop :=
  ∀ b, p.constantCondition x = some b → ∀ k ρ e,
    @Way.exprs (ways X p k) ρ (p.qualifiers x) (.throw e) → X.isChecked e = false

/-- What is asked of a node itself, inside clauses with the given parameters. -/
def Sensible (X : Exceptions) (p : Program) (params : List LocalId) : Node → Prop
  | .typeDecl _ | .expr (.lambda ..) => False
  | .expr x => X.CanSkip p x
  | .stmt (.throw _ x) => X.CanThrow p params x
  | .stmt (.try _ rs ..) => ∀ r ∈ rs, X.CanClose p r
  | .catchClause c => X.CanCatch p params c
  | _ => True

/-- The parameters of the clauses around what is below a node. -/
def paramsBelow (p : Program) (params : List LocalId) : Node → List LocalId
  | .catchClause c => (p.local? c.param.name).toList ++ params
  | _ => params

/-- The direct trees of at most the given depth. -/
def Direct (X : Exceptions) (p : Program) : Nat → List LocalId → Node → Prop
  | 0, _, _ => False
  | n + 1, params, node =>
    Sensible X p params node ∧ ∀ c ∈ node.children, Direct X p n (paramsBelow p params node) c

namespace Direct

variable {X : Exceptions} {p : Program} {n : Nat} {params : List LocalId} {node c : Node}

theorem sensible (h : Direct X p n params node) : Sensible X p params node := by
  cases n with
  | zero => exact h.elim
  | succ n => exact h.1

theorem child (h : Direct X p (n + 1) params node) (hc : c ∈ node.children) :
    Direct X p n (paramsBelow p params node) c :=
  h.2 c hc

theorem succ (h : Direct X p n params node) : Direct X p (n + 1) params node := by
  induction n generalizing params node with
  | zero => exact h.elim
  | succ n ih => exact ⟨h.1, fun c hc => ih (h.child hc)⟩

/-- What is below a node that is itself below another one. -/
theorem below (h : Direct X p n params node) (hc : c ∈ node.children) :
    Direct X p n (paramsBelow p params node) c := by
  cases n with
  | zero => exact h.elim
  | succ n => exact (h.child hc).succ

theorem canSkip {x : Expr} (h : Direct X p n params (.expr x)) : X.CanSkip p x := by
  have hx := h.sensible
  cases x with
  | lambda => exact hx.elim
  | _ => exact hx

/-- What stands in parentheses is as direct as the whole. -/
theorem withoutParens {x : Expr} (h : Direct X p n params (.expr x)) :
    Direct X p n params (.expr x.withoutParens) := by
  fun_induction Expr.withoutParens with
  | case1 i y ih => exact ih (h.below (by simp [Node.children, Node.ofExpr]))
  | case2 => exact h

end Direct

/-- The walk of direct parts of at most the given depth knows how their runs end. -/
structure Follows (X : Exceptions) (p : Program) (W : World → Prop) (n : Nat) [Visitor] [Ways] :
    Prop where
  expr : ∀ ρ x, Direct X p n ρ.names (.expr x) →
    Leads X p W ρ (Visitor.expr x) (Ways.expr ρ x)
  condition : ∀ ρ x, Direct X p n ρ.names (.expr x) →
    Leads X p W ρ (Visitor.condition x) (Ways.condition ρ x)
  stmt : ∀ ρ labels st, Direct X p n ρ.names (.stmt st) →
    Leads X p W ρ (Visitor.stmt labels st) (Ways.stmt ρ labels st)
  value : ∀ ρ x r, Ways.expr ρ x r → r = .done ∨ ∃ e, r = .throw e
  truth : ∀ ρ x r, Ways.condition ρ x r → (∃ b, r = .truth b) ∨ ∃ e, r = .throw e
  constant : ∀ ρ x b b', p.constantCondition x = some b →
    Ways.condition ρ x (.truth b') → b' = b
  skipped : ∀ ρ x b e, X.CanSkip p x → p.constantCondition x = some b →
    Way.exprs ρ (p.qualifiers x) (.throw e) → X.isChecked e = false

variable {X : Exceptions} {p : Program} {W : World → Prop} {n : Nat} {ρ : Held}
  {a a' a₁ : Analysis} {w w' : World} {s s' : Inits} {A B : Endings}

/-! ## Steps without exceptions -/

/-- A step that gives a live state if it starts from one. -/
abbrev Quiet (W : World → Prop) (m : Inits → Analyzer Inits) : Prop :=
  ∀ s, Calm W (m s) fun t => s.IsLive → t.IsLive

section

variable {α β : Type}

theorem calm_mapTrue {m : Analyzer α} (hm : Calm W m fun _ => True) {f : α → β} :
    Calm W (do return f (← m)) fun _ => True :=
  hm.bind fun _ _ => calm_pure trivial

theorem calm_markUnreachable (st : Stmt) : Calm W (markUnreachable st) fun _ => True :=
  calm_modify fun _ => ⟨rfl, rfl, rfl, rfl⟩

theorem calm_track (v : Symbol) : Calm W (track v) fun _ => True := by
  refine (calm_slot v).bind fun n _ => ?_
  cases n with
  | some n => exact calm_pure trivial
  | none =>
    refine calm_get.bind fun a _ => ?_
    have noted : Calm W (modify fun s => { s with
        slots := s.slots.insert v a.nextSlot, nextSlot := a.nextSlot + 1 } : Analyzer Unit)
        fun _ => True := calm_modify fun _ => ⟨rfl, rfl, rfl, rfl⟩
    exact noted.bind fun _ _ => calm_pure trivial

theorem calm_trackLocal (name : Ident) : Calm W (trackLocal name) fun _ => True := by
  refine calm_get.bind fun a _ => ?_
  split
  · exact calm_mapTrue (calm_track _)
  · exact calm_pure trivial

theorem quiet_bind (name : Ident) : Quiet W (bind name) := by
  intro s
  refine (calm_trackLocal name).bind fun n _ => ?_
  cases n with
  | some n => exact calm_pure fun hs => hs.assign n
  | none => exact calm_pure fun hs => hs

theorem quiet_binds (name : α → Ident) (xs : List α) :
    Quiet W fun s => xs.foldlM (fun s x => bind (name x) s) s := by
  induction xs with
  | nil => exact fun s => calm_pure fun hs => hs
  | cons x xs ih =>
    intro s a w r a' w' hw h
    obtain ⟨t, a₁, w₁, h₁, h₂⟩ := ran_bind h
    obtain ⟨hw₁, same, live⟩ := quiet_bind (name x) s a w t a₁ w₁ hw h₁
    obtain ⟨hw', same', live'⟩ := ih t a₁ w₁ r a' w' hw₁ h₂
    exact ⟨hw', same.trans same', fun hs => live' (live hs)⟩

theorem calm_assignedIn (parts : List Node) : Calm W (assignedIn parts) fun _ => True := by
  refine calm_filterMapM fun x => calm_get.bind fun a _ => ?_
  split
  · exact calm_slot _
  · exact calm_pure trivial

theorem calm_initializes (f : FieldId) : Calm W (initializes f) fun _ => True := by
  refine calm_get.bind fun a _ => ?_
  split
  · exact calm_pure trivial
  · split <;> exact calm_pure trivial

end

section

variable [Answers] (hA : X.Agrees W)
include hA

theorem calm_readBlankFinal (f : FieldId) (name : Ident) (s : Inits) :
    Calm W (readBlankFinal f name s) fun _ => True := by
  refine (calm_initializes f).bind fun b _ => ?_
  split
  · refine (calm_slot _).bind fun n _ => ?_
    split
    · split
      · exact calm_pure trivial
      · exact calm_report hA (by decide) _ _
    · exact calm_pure trivial
  · exact calm_pure trivial

theorem calm_readField (i : Info) (name : Ident) (s : Inits) :
    Calm W (readField i name s) fun _ => True := by
  refine (calm_known _).bind fun f _ => ?_
  split
  · exact calm_get.bind fun a _ => calm_readBlankFinal hA _ _ _
  · exact calm_pure trivial

theorem calm_read (name : Ident) (s : Inits) : Calm W (read name s) fun _ => True := by
  refine (calm_known _).bind fun v _ => ?_
  split
  · refine (calm_slot _).bind fun n _ => ?_
    split
    · split
      · exact calm_pure trivial
      · exact calm_report hA (by decide) _ _
    · exact calm_pure trivial
  · exact calm_get.bind fun a _ => calm_readBlankFinal hA _ _ _
  · exact calm_pure trivial

theorem quiet_write (v : Symbol) (name : Ident) : Quiet W (write v name) := by
  intro s
  refine calm_get.bind fun a _ => ?_
  have stays : Calm W (pure s) fun t => s.IsLive → t.IsLive := calm_pure fun hs => hs
  cases v with
  | var l =>
    refine (calm_slot _).bind fun n _ => ?_
    -- The same twice: with and without a report of a second assignment.
    cases n with
    | some n =>
      have assigned : Calm W (pure (s.assign n)) fun t => s.IsLive → t.IsLive :=
        calm_pure fun hs => hs.assign n
      dsimp only
      split
      · exact (calm_report hA (by decide) _ _).bind fun _ _ => assigned
      · exact assigned
    | none =>
      dsimp only
      split
      · exact (calm_report hA (by decide) _ _).bind fun _ _ => stays
      · exact stays
  | field f =>
    have reported : Calm W (do
        report .finalFieldAssignment name.info [name.name]
        return s) fun t => s.IsLive → t.IsLive :=
      (calm_report hA (by decide) _ _).bind fun _ _ => stays
    dsimp only
    split
    · refine (calm_slot _).bind fun n _ => ?_
      split
      · refine (calm_initializes _).bind fun b _ => ?_
        split
        · split
          · exact reported
          · exact calm_pure fun hs => hs.assign _
        · exact reported
      · exact reported
    · exact stays
  | _ => exact stays

end

/-! ## Steps around others -/

theorem Endings.of_skip_andThen {r : Ending} (hr : (Endings.skip.andThen A) r) : A r := by
  obtain ⟨rfl, habrupt⟩ | ⟨-, hr⟩ := hr
  · simp [Ending.isAbrupt] at habrupt
  · exact hr

/-- What cannot end with the truth of a condition. -/
def Endings.IsPlain (A : Endings) : Prop := ∀ b, ¬ A (.truth b)

namespace Endings.IsPlain

theorem skip : Endings.skip.IsPlain := nofun

theorem andThen (hB : B.IsPlain) : (A.andThen B).IsPlain := by
  rintro b (⟨-, hr⟩ | ⟨-, hr⟩)
  · simp [Ending.isAbrupt] at hr
  · exact hB b hr

/-- What does not end with a truth may be followed by nothing at all. -/
theorem andThen_skip (hA : A.IsPlain) {r : Ending} (hr : A r) : (A.andThen Endings.skip) r := by
  cases r with
  | done => exact .inr ⟨hr, rfl⟩
  | truth b => exact absurd hr (hA b)
  | jump | throw => exact .inl ⟨hr, rfl⟩

theorem call (i : Info) : (Way.call X p i).IsPlain := by
  intro b hr
  unfold Way.call at hr
  cases hm : p.findings.methods[i.id]? with
  | some m =>
    rw [hm] at hr
    obtain hr | ⟨_, -, hr⟩ := hr <;> cases hr
  | none =>
    rw [hm] at hr
    cases hr

theorem exprs [Ways] (xs : List Expr) : (Way.exprs ρ xs).IsPlain := by
  induction xs with
  | nil => exact skip
  | cons x xs ih => exact ih.andThen

theorem stmts [Ways] (sts : List Stmt) : (Way.stmts ρ sts).IsPlain := by
  induction sts with
  | nil => exact skip
  | cons st sts ih => exact ih.andThen

end Endings.IsPlain

theorem Leads.calmFirst {k : Inits → Analyzer Unit} {m : Inits → Analyzer Inits}
    (hm : Leads X p W ρ m A) (hk : ∀ s, Calm W (k s) fun _ => True) :
    Leads X p W ρ (fun s => k s >>= fun _ => m s) A :=
  fun s => LeadsAt.calmBind (hk s) fun _ _ => hm s

/-- A step that may come first, and what follows it. -/
theorem Leads.mayCheck {k : Inits → Analyzer Unit} {m : Inits → Analyzer Inits} {b : Bool}
    (hk : ∀ s, Calm W (k s) fun _ => True) (hm : Leads X p W ρ m A) :
    Leads X p W ρ (fun s => if b then k s >>= fun _ => m s else m s) A := by
  cases b with
  | true => exact hm.calmFirst hk
  | false => exact hm

theorem Leads.quietLast {m k : Inits → Analyzer Inits} (hm : Leads X p W ρ m A) (hA : A.IsPlain)
    (hk : Quiet W k) : Leads X p W ρ (fun s => m s >>= k) A :=
  (hm.bind (leads_calm hk)).of_imp fun _ => hA.andThen_skip

section

variable [Answers] (hX : X.Lawful) (hA : X.Agrees W)
include hX hA

/-- The call at a node, and what follows it. -/
theorem leads_callThen (i j : Info) {k : Inits → Analyzer Inits} (hk : Leads X p W ρ k A) :
    Leads X p W ρ (fun s => thrownByCall i j >>= fun _ => k s) ((Way.call X p i).andThen A) := by
  intro s a w s' a' w' hw ha h
  obtain ⟨u, a₁, w₁, h₁, h₂⟩ := ran_bind h
  suffices called : W w₁ ∧ Led X p ρ a s (Way.call X p i) a₁ s by
    obtain ⟨hw', rest⟩ := hk s a₁ w₁ s' a' w' called.1 called.2.fit h₂
    exact ⟨hw', called.2.andThen rest⟩
  have h₃ := ran_knownBind h₁
  rw [ha.program] at h₃
  unfold Way.call
  cases hm : p.findings.methods[i.id]? with
  | some m =>
    rw [hm] at h₃
    obtain ⟨hw₁, thrown⟩ := ran_thrownBy hX hA ha hw h₃
    exact ⟨hw₁, thrown.led⟩
  | none =>
    rw [hm] at h₃
    obtain ⟨-, rfl, rfl⟩ := ran_pure h₃
    exact ⟨hw, led_skip ha⟩

theorem leads_call (i j : Info) :
    Leads X p W ρ (fun s => do thrownByCall i j; return s) (Way.call X p i) :=
  (leads_callThen hX hA i j leads_skip).of_imp fun _ => (Endings.IsPlain.call i).andThen_skip

end

/-! ## Expressions in order -/

namespace Follows

variable [Visitor] [Ways] (h : Follows X p W n)
include h

theorem exprs {xs : List Expr} (hxs : ∀ x ∈ xs, Direct X p n ρ.names (.expr x)) :
    Leads X p W ρ (Flow.exprs xs) (Way.exprs ρ xs) := by
  induction xs with
  | nil => exact leads_skip
  | cons x xs ih =>
    exact (h.expr ρ x (hxs x List.mem_cons_self)).bind
      (ih fun y hy => hxs y (List.mem_cons_of_mem _ hy))

theorem optional {x : Option Expr} (hx : ∀ y ∈ x, Direct X p n ρ.names (.expr y)) :
    Leads X p W ρ (Flow.optional x) (Way.optional ρ x) :=
  h.exprs fun y hy => hx y (by simpa using hy)

theorem assignment [Answers] (hA : X.Agrees W) {target : Expr} {value : Option Expr}
    {isCompound : Bool} (ht : Direct X p n ρ.names (.expr target))
    (hv : ∀ y ∈ value, Direct X p n ρ.names (.expr y)) :
    Leads X p W ρ (Flow.assignment target value isCompound) (Way.assignment ρ target value) := by
  have values := h.optional hv
  have plain : (Way.optional ρ value).IsPlain := Endings.IsPlain.exprs _
  have hx := ht.withoutParens
  unfold Flow.assignment Way.assignment
  cases heq : target.withoutParens with
  | name i name =>
    rw [heq] at hx
    refine Leads.mayCheck (b := isCompound) (calm_read hA name) (values.quietLast plain fun s => ?_)
    refine (calm_known _).bind fun v _ => ?_
    cases v with
    | some v => exact quiet_write hA v name s
    | none => exact calm_pure fun hs => hs
  | field i owner name =>
    rw [heq] at hx
    refine fun s => LeadsAt.calmBind (calm_known _) fun f _ => ?_
    by_cases ho : isThis owner
    · simp only [ho, if_true]
      refine LeadsAt.of_imp ?_ fun r hr => Endings.of_skip_andThen hr
      refine Leads.mayCheck (b := isCompound) (calm_readField hA i name)
        (values.quietLast plain fun s => ?_) s
      cases f with
      | some f => exact quiet_write hA (.field f) name s
      | none => exact calm_pure fun hs => hs
    · simp only [ho]
      have owners := h.expr ρ owner (hx.below (by simp [Node.children, Node.ofExpr]))
      refine owners.bind (values.quietLast plain fun s => ?_) s
      cases f with
      | some f =>
        refine calm_get.bind fun a _ => ?_
        split
        · exact calm_reported hA (by decide) _ _ s
        · exact calm_pure fun hs => hs
      | none => exact calm_pure fun hs => hs
  | index i array y =>
    rw [heq] at hx
    have arrays := h.expr ρ array (hx.below (by simp [Node.children, Node.ofExpr]))
    have indices := h.expr ρ y (hx.below (by simp [Node.children, Node.ofExpr]))
    exact arrays.bind (indices.bind values)
  | _ => exact (h.expr ρ target ht).bind values

/-! ## Statements in order -/

theorem stmtsFrom [Answers] (hA : X.Agrees W) {sts : List Stmt}
    (hsts : ∀ st ∈ sts, Direct X p n ρ.names (.stmt st)) (isReported : Bool) :
    Leads X p W ρ (Flow.stmtsFrom isReported sts) (Way.stmts ρ sts) := by
  induction sts generalizing isReported with
  | nil => exact leads_skip
  | cons st sts ih =>
    have first := h.stmt ρ [] st (hsts st List.mem_cons_self)
    have rest := ih fun y hy => hsts y (List.mem_cons_of_mem _ hy)
    intro s
    unfold Flow.stmtsFrom
    split
    · exact first.bind (rest isReported) s
    · refine LeadsAt.calmBind (calm_markUnreachable st) fun _ _ => ?_
      cases isReported with
      | true => exact first.bind (rest true) s
      | false =>
        exact LeadsAt.calmBind (calm_report hA (by decide) _ _) fun _ _ => first.bind (rest true) s

theorem stmts [Answers] (hA : X.Agrees W) {sts : List Stmt}
    (hsts : ∀ st ∈ sts, Direct X p n ρ.names (.stmt st)) :
    Leads X p W ρ (Flow.stmts sts) (Way.stmts ρ sts) :=
  fun s => h.stmtsFrom hA hsts _ s

theorem block [Answers] (hA : X.Agrees W) {b : Block}
    (hb : Direct X p n ρ.names (Node.ofBlock b)) :
    Leads X p W ρ (Flow.block b) (Way.block ρ b) :=
  h.stmts hA fun st hst => hb.below (by simpa [Node.children, Node.ofBlock, Node.ofStmt] using hst)

end Follows

end Javelin.Flow
