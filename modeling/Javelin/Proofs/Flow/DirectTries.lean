import Javelin.Proofs.Flow.DirectLoops

/-!
# How direct try statements end

An exception that leaves the protected part of a try statement is one that the frame of the handlers
accounts for. If a clause catches it, the clause has seen it, and its parameter stands for what the
clause has seen.
-/

namespace Javelin.Flow

open Endings

variable {X : Exceptions} {p : Program} {W : World → Prop} {n : Nat} {ρ : Held}
  {a a' a₁ : Analysis} {v v' : World} {s s' start stop t : Inits} {A : Endings} {r : Ending}
  {e : TypeId} {c : CatchClause} {hs : List Handler}

/-! ## Handlers -/

/-- A function that only looks things up, over a list. -/
theorem ran_filterMapM {α β : Type} {f : β → Analyzer (Option α)} {g : β → Option α}
    (hf : ∀ x y b w, Ran (f x) a v y b w → y = g x ∧ b = a ∧ w = v) {xs : List β} {ys : List α}
    (h : Ran (xs.filterMapM f) a v ys a' v') : ys = xs.filterMap g ∧ a' = a ∧ v' = v := by
  induction xs generalizing ys a' v' with
  | nil => exact ran_pure h
  | cons x xs ih =>
    rw [List.filterMapM_cons] at h
    obtain ⟨y, b, w, h₁, h₂⟩ := ran_bind h
    obtain ⟨rfl, rfl, rfl⟩ := hf x y b w h₁
    cases hg : g x with
    | none =>
      rw [hg] at h₂
      rw [List.filterMap_cons_none hg]
      exact ih h₂
    | some z =>
      rw [hg] at h₂
      obtain ⟨zs, b', w', h₃, h₄⟩ := ran_bind h₂
      obtain ⟨rfl, rfl, rfl⟩ := ih h₃
      obtain ⟨rfl, rfl, rfl⟩ := ran_pure h₄
      exact ⟨(List.filterMap_cons_some hg).symm, rfl, rfl⟩

/-- Looking up what a clause names. -/
theorem ran_handlerOf {h : Handler} (ha : a.program = p) (hw : Ran (handlerOf c) a v h a' v') :
    (h.types = handledTypes p c ∧ h.caught = []) ∧ a' = a ∧ v' = v := by
  obtain ⟨as, a₁, v₁, h₁, h₂⟩ := ran_bind hw
  obtain ⟨rfl, rfl, rfl⟩ := ran_pure h₂
  obtain ⟨rfl, rfl, rfl⟩ := ran_filterMapM (g := fun n =>
    let t := p.findings.typeRefs.getD n.info.id .none
    if t.isSome then some { node := n.info, type := t } else none)
    (fun n y b w hn => by
      have hn := ran_knownBind hn
      rw [ha] at hn
      exact ran_pure hn) h₁
  refine ⟨⟨?_, rfl⟩, rfl, rfl⟩
  unfold Handler.types handledTypes
  rw [List.map_filterMap]
  refine List.filterMap_congr fun n _ => ?_
  dsimp only
  split <;> rfl

/-- The handlers of clauses before the walk. -/
theorem ran_handlersOf {cs : List CatchClause} (ha : a.program = p)
    (hw : Ran (cs.mapM handlerOf) a v hs a' v') :
    List.Forall₂ (fun c h => h.types = handledTypes p c ∧ h.caught = []) cs hs ∧
      a' = a ∧ v' = v := by
  induction cs generalizing hs with
  | nil =>
    obtain ⟨rfl, rfl, rfl⟩ := ran_pure hw
    exact ⟨.nil, rfl, rfl⟩
  | cons c cs ih =>
    rw [List.mapM_cons] at hw
    obtain ⟨h, a₁, v₁, hw₁, hw₂⟩ := ran_bind hw
    obtain ⟨first, rfl, rfl⟩ := ran_handlerOf ha hw₁
    obtain ⟨hs, a₂, v₂, hw₃, hw₄⟩ := ran_bind hw₂
    obtain ⟨rfl, rfl, rfl⟩ := ran_pure hw₄
    obtain ⟨rest, rfl, rfl⟩ := ih hw₃
    exact ⟨.cons first rest, rfl, rfl⟩

/-- The handlers of clauses, whatever they were seen to catch. -/
abbrev HandlersFor (p : Program) : List CatchClause → List Handler → Prop :=
  List.Forall₂ fun c h => h.types = handledTypes p c

theorem HandlersFor.gain {cs : List CatchClause} {hs' : List Handler} (h : HandlersFor p cs hs)
    (hg : List.Forall₂ Handler.Gains hs hs') : HandlersFor p cs hs' := by
  induction h generalizing hs' with
  | nil =>
    cases hg
    exact .nil
  | cons hc _ ih =>
    cases hg with
    | cons hx hxs => exact .cons (hx.types.trans hc) (ih hxs)

/-- The handler that catches an exception is the one of the clause that does. -/
theorem HandlersFor.clauseFor {cs : List CatchClause} (h : HandlersFor p cs hs) (e : TypeId) :
    Option.Rel (fun c x => (c, x) ∈ cs.zip hs) (Way.clauseFor X p cs e) (X.handlerFor hs e) := by
  induction h with
  | nil => exact .none
  | @cons c x cs hs hc _ ih =>
    by_cases he : X.isOneOf e (handledTypes p c)
    · have here : Way.clauseFor X p (c :: cs) e = some c := by simp [Way.clauseFor, he]
      rw [here, Exceptions.handlerFor_cons_pos (hc ▸ he)]
      exact .some List.mem_cons_self
    · have later : Way.clauseFor X p (c :: cs) e = Way.clauseFor X p cs e := by
        simp [Way.clauseFor, he]
      rw [later, Exceptions.handlerFor_cons_neg (hc ▸ he)]
      generalize Way.clauseFor X p cs e = y at ih
      generalize X.handlerFor hs e = z at ih
      cases ih with
      | none => exact .none
      | some hm => exact .some (List.mem_cons_of_mem _ hm)

/-- Where the protected part of a try statement ends, seen from outside its handlers. -/
theorem Arrives.popHandlers {gs : List Frame} (hr : Arrives X a₁ s r)
    (hf : a₁.frames = .handlers hs :: gs) (hnone : ∀ e, r = .throw e → X.handlerFor hs e = none) :
    Arrives X (a₁.around gs) s r := by
  refine hr.pop hf (fun j t _ hrec => by cases j <;> exact hrec) fun e he hacc => ?_
  simpa [Exceptions.Accounted, hnone e he] using hacc

/-- The handlers of clauses that can catch are known. -/
theorem HandlersFor.known {cs : List CatchClause} {params : List LocalId}
    (hcan : ∀ c ∈ cs, X.CanCatch p params c)
    (h : List.Forall₂ (fun c h => h.types = handledTypes p c ∧ h.caught = []) cs hs) :
    X.KnownFrame (.handlers hs) := by
  induction h with
  | nil => exact nofun
  | @cons c x cs hs hc _ ih =>
    rw [List.forall_mem_cons] at hcan
    refine List.forall_mem_cons.2 ⟨⟨?_, by simp [hc.2]⟩, ih hcan.2⟩
    rw [hc.1]
    exact hcan.1.1

/-! ## Parameters of clauses -/

theorem names_catching (c : CatchClause) (e : TypeId) :
    (ρ.catching p c e).names = paramsBelow p ρ.names (.catchClause c) := by
  change _ = (p.local? c.param.name).toList ++ ρ.names
  unfold Held.catching
  cases p.local? c.param.name <;> rfl

/-- The analysis that has noted what the parameter of a clause stands for. -/
structure Noted (X : Exceptions) (p : Program) (ρ : Held) (c : CatchClause) (ts : List TypeId)
    (a a' : Analysis) : Prop where
  fit : Fit X p a'
  onward : Onward ρ.names a a'
  unhandled : a'.unhandled = a.unhandled
  holds : ∀ e, (X.isChecked e → X.isOneOf e ts) → Holds X ρ a → Holds X (ρ.catching p c e) a'

theorem noted_none {ts : List TypeId} (ha : Fit X p a) (hc : p.local? c.param.name = none) :
    Noted X p ρ c ts a a :=
  ⟨ha, .refl a, rfl, fun e _ hρ => by simpa [Held.catching, hc] using hρ⟩

theorem noted_some {ts : List TypeId} {l : LocalId} (ha : Fit X p a)
    (hc : p.local? c.param.name = some l) (hl : X.isParam l ∧ l ∉ ρ.names)
    (hts : ∀ t ∈ ts, X.isKnown t) :
    Noted X p ρ c ts a { a with rethrown := a.rethrown.insert l ts } := by
  refine ⟨⟨ha.program, ha.frames, fun m us hm => ?_⟩, ⟨FramesGain.refl _, fun m hm => ?_,
    Nat.le_refl _⟩, rfl, fun e he hρ m e' hm hfix hchecked => ?_⟩
  · rw [Std.HashMap.getElem?_insert] at hm
    split at hm <;> rename_i heq
    · obtain rfl := eq_of_beq heq
      obtain rfl := Option.some.inj hm
      exact ⟨hl.1, hts⟩
    · exact ha.rethrown m us hm
  · have : l ≠ m := fun h => hl.2 (h ▸ hm)
    simp [Std.HashMap.getElem?_insert, this]
  · rw [Held.catching, hc] at hm
    simp only [List.lookup_cons] at hm
    rw [Std.HashMap.getElem?_insert]
    split at hm <;> rename_i heq
    · obtain rfl := eq_of_beq heq
      obtain rfl := Option.some.inj hm
      exact ⟨ts, by simp, he hchecked⟩
    · have other : (l == m) = false := BEq.comm.trans heq
      simpa [other] using hρ m e' hm hfix hchecked

/-! ## Clauses -/

theorem calm_lift {α : Type} {m : Lookup α} (hm : ∀ {w x w'}, W w → m w = .ok x w' → W w') :
    Calm W (liftM m : Analyzer α) fun _ => True := by
  intro a w x a' w' hw h
  obtain ⟨rfl, h'⟩ := ran_lift h
  exact ⟨hm hw h', .refl _, trivial⟩

theorem calm_forIn {β : Type} {xs : List β} {f : β → PUnit → Analyzer (ForInStep PUnit)}
    (h : ∀ x ∈ xs, Calm W (f x ⟨⟩) fun step => step = .yield ⟨⟩) :
    Calm W (forIn xs ⟨⟩ f) fun _ => True := by
  induction xs with
  | nil => exact calm_pure trivial
  | cons x xs ih =>
    rw [List.forIn_cons]
    refine (h x List.mem_cons_self).bind fun step hstep => ?_
    subst hstep
    exact ih fun y hy => h y (List.mem_cons_of_mem _ hy)

theorem calm_checkHandler [Answers] (hX : X.Lawful) (hA : X.Agrees W) {h : Handler}
    (hh : ∀ t ∈ h.types, X.isKnown t) : Calm W (checkHandler h) fun _ => True := by
  intro a v u a' v' hv hw
  obtain ⟨e, v₁, h₁, hw⟩ := ran_liftBind hw
  obtain ⟨hv₁, rfl⟩ := hA.exception hv h₁
  refine Calm.bind (Q := fun _ => True) (calm_forIn fun x hx => ?_)
    (fun _ _ => calm_pure trivial) a v₁ u a' v' hv₁ hw
  have known : X.isKnown x.type := hh _ (List.mem_map_of_mem hx)
  have next : Calm W (pure (.yield ⟨⟩) : Analyzer (ForInStep PUnit)) fun step =>
      step = .yield ⟨⟩ := calm_pure rfl
  have checked : Calm W (isChecked x.type) fun _ => True := fun a w b a' w' hw h => by
    obtain ⟨hw', rfl, -⟩ := ran_isChecked hX hA known hw h
    exact ⟨hw', .refl _, trivial⟩
  split
  · exact next
  · refine checked.bind fun b _ => ?_
    split
    · refine (calm_lift fun hw h => (hA.subtype hX.exception known hw h).1).bind fun b _ => ?_
      split
      · exact next
      · refine (calm_lift fun hw h => hA.typeName known hw h).bind fun name _ => ?_
        exact (calm_report hA (by decide) _ _).bind fun _ _ => next
    · exact next

/-- The variable of a name, as the walk looks it up. -/
theorem local?_cases (p : Program) (name : Ident) :
    (∃ l, p.findings.defs[name.info.id]? = some (.var l) ∧ p.local? name = some l) ∨
      (p.local? name = none ∧ ∀ l, p.findings.defs[name.info.id]? ≠ some (.var l)) := by
  unfold Program.local?
  split
  · exact .inl ⟨_, ‹_›, rfl⟩
  · rename_i h
    exact .inr ⟨rfl, h⟩

namespace Follows

variable [Answers] [Visitor] [Ways] (h : Follows X p W n) (hA : X.Agrees W) (hX : X.Lawful)
include h hA hX

/-- A clause, for every exception that it catches. -/
theorem catchBody {x : Handler} (hc : Direct X p n ρ.names (.catchClause c))
    (htypes : x.types = handledTypes p c) (hcaught : ∀ t ∈ x.caught, X.isKnown t) (hv : W v)
    (ha : Fit X p a) (hw : Ran (Flow.catchBody c x start stop) a v s' a' v') :
    W v' ∧ Fit X p a' ∧ Onward ρ.names a a' ∧ ∀ e, (X.isChecked e → X.isOneOf e x.caught) →
      Led X p ρ a (start.allowFrom stop) (Way.catchBody p ρ c e) a' s' := by
  have can : X.CanCatch p ρ.names c := hc.sensible
  obtain ⟨u, a₁, v₁, hw₁, hw⟩ := ran_bind hw
  obtain ⟨hv₁, same₁, -⟩ := calm_checkHandler hX hA (htypes ▸ can.1) _ _ _ _ _ hv hw₁
  obtain ⟨t, a₂, v₂, hw₂, hw⟩ := ran_bind hw
  obtain ⟨hv₂, same₂, live⟩ := quiet_bind c.param.name _ _ _ _ _ _ hv₁ hw₂
  have fit₂ : Fit X p a₂ := same₂.fit (same₁.fit ha)
  have hw := ran_knownBind hw
  rw [fit₂.program] at hw
  obtain ⟨a₃, noted, hw₃⟩ : ∃ a₃, Noted X p ρ c x.caught a₂ a₃ ∧
      Ran (Flow.block c.body t) a₃ v₂ s' a' v' := by
    obtain ⟨l, hd, hl⟩ | ⟨hl, hd⟩ := local?_cases p c.param.name
    · rw [hd] at hw
      exact ⟨_, noted_some fit₂ hl (can.2 l hl) hcaught, ran_modifyBind hw⟩
    · refine ⟨a₂, noted_none fit₂ hl, ?_⟩
      split at hw
      · exact absurd ‹_› (hd _)
      · exact hw
  -- The block is walked once, whatever the parameter holds.
  have body : ∀ e, W v' ∧ Led X p (ρ.catching p c e) a₃ t (Way.catchBody p ρ c e) a' s' := by
    intro e
    have direct : Direct X p n (ρ.catching p c e).names (Node.ofBlock c.body) := by
      rw [names_catching]
      exact hc.below (by simp [Node.children])
    exact h.block hA direct t a₃ v₂ s' a' v' hv₂ noted.fit hw₃
  have before : Onward ρ.names a a₃ := same₁.onward.trans (same₂.onward.trans noted.onward)
  have inside : Onward ρ.names a₃ a' := (body X.exception).2.onward.mono fun l hl => by
    rw [names_catching]
    exact List.mem_append_right _ hl
  refine ⟨(body X.exception).1, (body X.exception).2.fit, before.trans inside, fun e he =>
    ⟨(body e).2.fit, before.trans inside, fun hq hρ hs r hr => ?_⟩⟩
  have held : Holds X ρ a₂ := hρ.onward (same₁.onward.trans same₂.onward)
  exact (body e).2.ends (before.quiet inside hq).2 (noted.holds e he held)
    (live (hs)) r hr

/-- The clauses in order, each from the same state. -/
theorem catches {gs : List (CatchClause × Handler)} {out : Inits}
    (hgs : ∀ g ∈ gs, Direct X p n ρ.names (.catchClause g.1) ∧
      g.2.types = handledTypes p g.1 ∧ ∀ t ∈ g.2.caught, X.isKnown t) (hv : W v) (ha : Fit X p a)
    (hw : Ran (gs.foldlM (fun out (c, x) => do
      return out.merge (← Flow.catchBody c x start stop)) out) a v s' a' v') :
    W v' ∧ Fit X p a' ∧ Onward ρ.names a a' ∧ out.Weakens s' ∧
      ∀ g ∈ gs, ∀ e, (X.isChecked e → X.isOneOf e g.2.caught) →
        Led X p ρ a (start.allowFrom stop) (Way.catchBody p ρ g.1 e) a' s' := by
  induction gs generalizing out a v with
  | nil =>
    obtain ⟨rfl, rfl, rfl⟩ := ran_pure hw
    exact ⟨hv, ha, .refl _, .refl _, nofun⟩
  | cons g gs ih =>
    obtain ⟨t, a₁, v₁, hw₁, hw₂⟩ := ran_bind hw
    obtain ⟨t, a₁, v₁, hw₁, hw₃⟩ := ran_bind hw₁
    obtain ⟨rfl, rfl, rfl⟩ := ran_pure hw₃
    obtain ⟨direct, htypes, hcaught⟩ := hgs g List.mem_cons_self
    obtain ⟨hv₁, fit, onward, first⟩ := h.catchBody hA hX direct htypes hcaught hv ha hw₁
    obtain ⟨hv', fit', onward', weaker, rest⟩ := ih
      (fun y hy => hgs y (List.mem_cons_of_mem _ hy)) hv₁ fit hw₂
    refine ⟨hv', fit', onward.trans onward', (Inits.weakens_merge_left _ _).trans weaker,
      List.forall_mem_cons.2 ⟨fun e he => ?_, fun y hy e he => (rest y hy e he).later onward⟩⟩
    have own := (first e he).earlier onward' fit'
    exact own.weaken ((Inits.weakens_merge_right _ _).trans weaker) (IsPlain.stmts _)

/-! ## The protected part -/

omit [Answers] hA hX in
theorem declarator {d : VarDeclarator} (hd : Direct X p n ρ.names (.declarator d)) :
    Leads X p W ρ (Flow.declarator d) (Way.optional ρ d.init) := by
  refine fun s => LeadsAt.calmBind (calm_trackLocal d.name) fun m _ => ?_
  have forgets : s.IsLive → (m.elim s s.forget).IsLive := by
    cases m with
    | none => exact fun hs => hs
    | some k => exact fun hs => hs.forget k
  refine LeadsAt.before ?_ forgets
  cases hx : d.init with
  | none => exact leads_skip _
  | some x =>
    have value := h.expr ρ x (hd.below (by simp [Node.children, hx]))
    refine value.bind (leads_calm fun s => ?_) _
    cases m with
    | none => exact calm_pure fun hs => hs
    | some k => exact calm_pure fun hs => hs.assign k

omit [Answers] hA hX in
theorem declarators {ds : List VarDeclarator}
    (hds : ∀ d ∈ ds, Direct X p n ρ.names (.declarator d)) :
    Leads X p W ρ (fun s => ds.foldlM (fun s d => Flow.declarator d s) s)
      (Way.declarators ρ ds) := by
  induction ds with
  | nil => exact leads_skip
  | cons d ds ih =>
    exact (h.declarator (hds d List.mem_cons_self)).bind
      (ih fun y hy => hds y (List.mem_cons_of_mem _ hy))

omit [Answers] hA hX in
theorem locals {d : VarDecl} (hd : Direct X p n ρ.names (.stmt (.locals d))) :
    Leads X p W ρ (Flow.locals d) (Way.declarators ρ d.vars) :=
  h.declarators fun v hv => hd.below (by simp [Node.children, Node.ofStmt, Node.ofVarDecl, hv])

omit [Visitor] [Ways] h in
/-- Closing the variables of a declaration. -/
theorem ran_closings {ds : List VarDeclarator} {ls : List LocalId} {u : PUnit}
    (hds : ∀ d ∈ ds, ∀ l, p.local? d.name = some l → X.isResource (X.localType l)) (hv : W v)
    (ha : Fit X p a) (hw : Ran (forIn ds PUnit.unit fun d _ => do
      if let some (Symbol.var l) ← known (·.defs[d.name.info.id]?) then
        thrownByClose d.info (← Lookup.localEntry l).type
      pure (.yield PUnit.unit)) a v u a' v') :
    W v' ∧ Thrown X p ((ds.filterMap fun d => p.local? d.name).flatMap fun l =>
      X.closing (X.localType l)) ls a a' := by
  induction ds generalizing a v with
  | nil =>
    obtain ⟨-, rfl, rfl⟩ := ran_pure hw
    exact ⟨hv, .refl ha⟩
  | cons d ds ih =>
    rw [List.forIn_cons] at hw
    obtain ⟨step, a₁, v₁, hw₁, hw₂⟩ := ran_bind hw
    have rest := fun d' hd' => hds d' (List.mem_cons_of_mem d hd')
    have hw₁ := ran_knownBind hw₁
    rw [ha.program] at hw₁
    obtain ⟨l, hd, hl⟩ | ⟨hl, hd⟩ := local?_cases p d.name
    · rw [hd] at hw₁
      obtain ⟨x, v₂, hw₃, hw₄⟩ := ran_liftBind hw₁
      cases hw₃
      obtain ⟨u', a₂, v₃, hw₅, hw₆⟩ := ran_bind hw₄
      obtain ⟨rfl, rfl, rfl⟩ := ran_pure hw₆
      rw [hA.localType l hv] at hw₅
      have first : W v₁ ∧ Thrown X p (X.closing (X.localType l)) ls a a₁ :=
        ran_thrownByClose hX hA (hds d List.mem_cons_self l hl) ha hv hw₅
      obtain ⟨hv₁, first⟩ := first
      obtain ⟨hv', closed⟩ := ih rest hv₁ first.fit hw₂
      simp only [List.filterMap_cons, hl, List.flatMap_cons]
      exact ⟨hv', first.append closed⟩
    · simp only [List.filterMap_cons, hl]
      split at hw₁
      · exact absurd ‹_› (hd _)
      · obtain ⟨rfl, rfl, rfl⟩ := ran_pure hw₁
        exact ih rest hv ha hw₂

theorem resource {st : Stmt} (hst : Direct X p n ρ.names st.resourceNode)
    (hcan : X.CanClose p st) : Leads X p W ρ (Flow.resource st) (Way.resource X p ρ st) := by
  cases st with
  | locals d =>
    refine (h.locals hst).bind fun s a v s' a' v' hv ha hw => ?_
    obtain ⟨u, a₁, v₁, hw₁, hw₂⟩ := ran_bind hw
    obtain ⟨rfl, rfl, rfl⟩ := ran_pure hw₂
    obtain ⟨hv', closed⟩ := ran_closings hA hX hcan hv ha hw₁
    exact ⟨hv', closed.led⟩
  | expr i x =>
    refine (h.expr ρ x hst).bind fun s a v s' a' v' hv ha hw => ?_
    have hw := ran_knownBind hw
    rw [ha.program] at hw
    obtain ⟨u, a₁, v₁, hw₁, hw₂⟩ := ran_bind hw
    obtain ⟨rfl, rfl, rfl⟩ := ran_pure hw₂
    obtain ⟨hv', closed⟩ := ran_thrownByClose hX hA hcan ha hv hw₁
    exact ⟨hv', closed.led⟩
  | _ =>
    refine leads_skip.of_imp fun r hr => ?_
    obtain rfl | ⟨e, he, -⟩ := of_skip_andThen hr
    · rfl
    · simp [Exceptions.closings, Exceptions.isOneOf] at he

theorem resources {rs : List Stmt} (hrs : ∀ st ∈ rs, Direct X p n ρ.names st.resourceNode)
    (hcan : ∀ st ∈ rs, X.CanClose p st) :
    Leads X p W ρ (Flow.resources rs) (Way.resources X p ρ rs) := by
  induction rs with
  | nil => exact leads_skip
  | cons st rs ih =>
    exact (h.resource hA hX (hrs st List.mem_cons_self) (hcan st List.mem_cons_self)).bind
      (ih (fun y hy => hrs y (List.mem_cons_of_mem _ hy))
        fun y hy => hcan y (List.mem_cons_of_mem _ hy))

/-! ## The whole -/

theorem tryCatch {rs : List Stmt} {b : Block} {cs : List CatchClause}
    (hrs : ∀ st ∈ rs, Direct X p n ρ.names st.resourceNode) (hcan : ∀ st ∈ rs, X.CanClose p st)
    (hb : Direct X p n ρ.names (Node.ofBlock b))
    (hcs : ∀ c ∈ cs, Direct X p n ρ.names (.catchClause c)) :
    Leads X p W ρ (Flow.tryCatch rs b cs) (Way.tryCatch X p ρ rs b cs) := by
  have attempt := (h.resources hA hX hrs hcan).bind (h.block hA hb)
  intro s a v s' a' v' hv ha hw
  obtain ⟨handlers, a₀, v₀, hw₁, hw₂⟩ := ran_bind hw
  obtain ⟨named, rfl, rfl⟩ := ran_handlersOf ha.program hw₁
  obtain ⟨⟨stop, g⟩, a₁, v₁, hwf, hw₃⟩ := ran_bind hw₂
  obtain ⟨a₂, hwi, frame⟩ := ran_framed hwf
  have known := HandlersFor.known (fun c hc => (hcs c hc).sensible) named
  obtain ⟨hv₁, inside⟩ := attempt s _ v₀ stop a₂ v₁ hv (ha.push known) hwi
  obtain ⟨gs, hl, rfl⟩ := frame inside.fit inside.onward
  obtain ⟨hs, rfl⟩ : ∃ hs, g = .handlers hs := by
    have hg := hl.gains.weakens
    cases hg
    exact ⟨_, rfl⟩
  have clauses : HandlersFor p cs hs :=
    HandlersFor.gain (named.imp fun _ _ hc => hc.1) hl.gains.clauses
  have zipped : ∀ g ∈ cs.zip hs, Direct X p n ρ.names (.catchClause g.1) ∧
      g.2.types = handledTypes p g.1 ∧ ∀ t ∈ g.2.caught, X.isKnown t := fun g hg =>
    ⟨hcs g.1 (List.of_mem_zip hg).1, List.forall₂_zip clauses hg,
      (hl.known g.2 (List.of_mem_zip hg).2).caught⟩
  obtain ⟨hv', fit, onward, weaker, caught⟩ := h.catches hA hX zipped hv₁ hl.fit hw₃
  refine ⟨hv', fit, hl.onward.trans onward, fun hq hρ hlive r hr => ?_⟩
  obtain ⟨q₁, q₂⟩ := hl.onward.quiet onward hq
  have rel := clauses.clauseFor (X := X)
  obtain ⟨hr, htruth, hthrow⟩ | ⟨e, c, hr, hc, hbody⟩ := hr
  · have arrived := inside.ends q₁ hρ hlive r hr
    refine ((arrived.popHandlers hl.frames fun e he => ?_).weaken htruth weaker).gain onward.frames
    have same := rel e
    rw [hthrow e he] at same
    generalize X.handlerFor hs e = y at same ⊢
    cases same
    rfl
  · have thrown := inside.ends q₁ hρ hlive _ hr
    have same := rel e
    rw [hc] at same
    generalize hx : X.handlerFor hs e = y at same
    cases same with
    | @some _ x hmem =>
      have seen : X.isChecked e → X.isOneOf e x.caught := fun hchecked => by
        have acc := thrown hchecked
        rw [hl.frames] at acc
        simpa [Exceptions.Accounted, hx] using acc
      exact (caught _ hmem e seen).ends q₂ (hρ.onward hl.onward) (hlive.allowFrom stop) r hbody

theorem tryStatement {i : Info} {rs : List Stmt} {b : Block} {cs : List CatchClause}
    {last : Option Block} (ht : Direct X p (n + 1) ρ.names (.stmt (.try i rs b cs last))) :
    Leads X p W ρ (Flow.tryStatement rs b cs last) (Way.tryStatement X p ρ rs b cs last) := by
  have main : Leads X p W ρ (Flow.tryCatch rs b cs) (Way.tryCatch X p ρ rs b cs) :=
    h.tryCatch hA hX
      (fun st hst => ht.child (List.mem_append_left _ (List.mem_append_left _
        (List.mem_append_left _ (List.mem_map_of_mem hst))))) ht.sensible
      (ht.child (by simp [Node.children, Node.ofStmt]))
      fun c hc => ht.child (by simp [Node.children, Node.ofStmt, hc])
  cases last with
  | none => exact main
  | some l =>
    have final := h.block hA (b := l) (ρ := ρ) (ht.child (by simp [Node.children, Node.ofStmt]))
    refine fun s => LeadsAt.calmBind (calm_assignedIn _) fun ns _ a v s' a' v' hv ha hw => ?_
    obtain ⟨stop, a₁, v₁, hw₁, hw₂⟩ := ran_bind hw
    obtain ⟨hv₁, before⟩ := final _ a v stop a₁ v₁ hv ha hw₁
    obtain ⟨⟨out, g⟩, a₂, v₂, hwf, hw₃⟩ := ran_bind hw₂
    obtain ⟨rfl, rfl, rfl⟩ := ran_pure hw₃
    obtain ⟨a₃, hwi, frame⟩ := ran_framed hwf
    have pushed : Fit X p (a₁.push (.finally l.info stop.isReachable stop)) :=
      before.fit.push trivial
    obtain ⟨hv', inside⟩ := main s _ v₁ out a₃ _ hv₁ pushed hwi
    obtain ⟨gs, hl, rfl⟩ := frame inside.fit inside.onward
    exact ⟨hv', before.ensured (fun hs => hs.allow ns) inside hl⟩

end Follows

end Javelin.Flow
