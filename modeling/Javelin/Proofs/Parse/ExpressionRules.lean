import Javelin.Parse.Expressions
import Javelin.Proofs.Parse.TypeRules

/-!
# The rules for expressions

What these rules do to the state, and that their trees are unmarked.

1. Lambdas.
2. Operators and casts.
3. Selectors and creation.
4. Primary expressions.
-/

namespace Javelin.Parse

section

variable {v : Setting} {n : Nat} {pre : Token → Prop} {r : Nat} {g : Grammar} {t : Token}

theorem moves_expressionRule (hg : Serves n g) :
    Moves v n .strict pre 1 6 (expressionRule g) fun x => (Node.expr x).Unmarked :=
  .untracked (hg.assignment rfl (by decide))

/-! ## Lambdas -/

theorem reads_isLambdaStart : Reads isLambdaStart := by
  unfold isLambdaStart
  refine reads_get.bind fun s => ?_
  split
  · exact reads_checkAt _ _
  · exact .pure
  · exact .pure

theorem moves_implicitParam : Moves v n .strict pre 1 r implicitParam
    fun p => (Node.param p).Unmarked := by
  unfold implicitParam
  refine .take moves_ident fun name hname => .look (looks_newInfo _) fun i hi => .pure ?_
  exact Node.unmarked_param.2 ⟨hi, by simp, by simp, hname⟩

theorem moves_explicitParam (hg : Serves n g) (hr : 2 ≤ r) : Moves v n .strict pre 1 r
    (explicitParam g) fun p => (Node.param p).Unmarked := by
  unfold explicitParam
  refine .take (moves_param hg hr) fun p hp => ?_
  obtain ⟨hi, hmods, htype, hname⟩ := Node.unmarked_param.1 hp
  cases heq : p.type with
  | none => exact .pure hp
  | some t =>
    refine .look (looks_localType (htype t heq)) fun t ht => .pure ?_
    exact Node.unmarked_param.2 ⟨hi, hmods, by simpa using ht, hname⟩

theorem moves_lambdaParams (hg : Serves n g) :
    Moves v n .strict pre 1 r (lambdaParams g) fun x => ∀ p ∈ x.1, (Node.param p).Unmarked := by
  unfold lambdaParams
  refine .read (reads_check _) fun _ => .ite (fun _ => ?_) fun _ => ?_
  · exact .take moves_implicitParam fun p hp => .pure (by simpa using hp)
  · refine .read (reads_checkAt _ _) fun _ => .read (reads_checkAt _ _) fun _ => ?_
    refine .read (reads_checkAt _ _) fun _ => ?_
    refine .take (moves_parenthesized (.ite (fun _ => moves_implicitParam)
      fun _ => moves_explicitParam hg (by decide))) fun ps hps => .pure hps

theorem unmarked_lambda {i : Info} {ps : List Param} {x : Option Expr} {b : Option Block}
    {isExplicit : Bool} (hi : i.flags = {}) (hps : ∀ p ∈ ps, (Node.param p).Unmarked)
    (hx : ∀ e ∈ x, (Node.expr e).Unmarked) (hb : ∀ c ∈ b, (Node.ofBlock c).Unmarked) :
    (Node.expr (.lambda i ps x b isExplicit)).Unmarked := by
  refine .mk hi ?_
  simp only [Node.children, Node.ofExpr, List.forall_mem_append, List.forall_mem_map,
    Node.forall_mem_option]
  exact ⟨⟨hps, hx⟩, hb⟩

theorem moves_lambda (hg : Serves n g) (hv : v.keeps = false) : Moves v n .strict pre 1 r (lambda g)
    fun x => (Node.expr x).Unmarked := by
  unfold lambda
  refine .read reads_startPos fun start => .take (moves_lambdaParams hg) fun x hx => ?_
  refine .expect (by decide) (.read (reads_check _) fun _ => .ite (fun _ => ?_) fun _ => ?_)
  · refine .go (hg.block false (Setting.admits_of_keeps hv) (by decide)).weak fun b hb => ?_
    refine .look (looks_infoFrom start) fun i hi => .pure ?_
    exact unmarked_lambda hi hx (by simp) (by simpa using hb)
  · refine .go (hg.expression (by decide)).weak fun y hy => ?_
    refine .look (looks_infoFrom start) fun i hi => .pure ?_
    exact unmarked_lambda hi hx (by simpa using hy) (by simp)

/-! ## Operators -/

theorem moves_assignmentRule (hg : Serves n g) (hv : v.keeps = false) :
    Moves v n .strict pre 1 5 (assignmentRule g) fun x => (Node.expr x).Unmarked := by
  unfold assignmentRule
  refine .read reads_isLambdaStart fun _ => .ite (fun _ => ?_) fun _ => ?_
  · exact moves_lambda hg hv
  · refine .read reads_startPos fun start => .take (hg.conditional hv (by decide)) fun x hx => ?_
    refine .read reads_peek fun t => ?_
    cases Operator.ofAssignToken? t.kind with
    | none => exact .pure hx
    | some op =>
      refine .go moves_advance_any fun _ _ => .go (hg.assignment hv (by decide)).weak fun y hy => ?_
      refine .look (looks_infoFrom start) fun i hi => .pure (.mk hi ?_)
      simpa [Node.children, Node.ofExpr] using ⟨hx, hy⟩

theorem moves_conditionalRule (hg : Serves n g) (hv : v.keeps = false) :
    Moves v n .strict pre 1 4 (conditionalRule g) fun x => (Node.expr x).Unmarked := by
  unfold conditionalRule
  refine .read reads_startPos fun start => .take (hg.binary 1 hv (by decide)) fun c hc => ?_
  refine .acceptNot (by decide) ?_ (.pure hc)
  refine .go (hg.expression (by decide)).weak fun x hx => .expect (by decide) ?_
  refine .read reads_isLambdaStart fun _ => .ite (fun _ => ?_) fun _ => ?_
  · refine .go (moves_lambda hg hv).weak fun y hy => ?_
    refine .look (looks_infoFrom start) fun i hi => .pure (.mk hi ?_)
    simpa [Node.children, Node.ofExpr] using ⟨hc, hx, hy⟩
  · refine .go (hg.conditional hv (by decide)).weak fun y hy => ?_
    refine .look (looks_infoFrom start) fun i hi => .pure (.mk hi ?_)
    simpa [Node.children, Node.ofExpr] using ⟨hc, hx, hy⟩

theorem moves_subPatterns (hg : Serves n g) :
    Moves v n .strict pre 1 r (subPatterns g) fun xs => ∀ x ∈ xs, (Node.expr x).Unmarked :=
  moves_parenthesized (hg.pattern (by decide))

theorem unmarked_instanceOf {i : Info} {x p : Expr} {t : TypeNode} (hi : i.flags = {})
    (hx : (Node.expr x).Unmarked) (hp : (Node.expr p).Unmarked) :
    (Node.expr (.instanceOf i x t (some p))).Unmarked :=
  .mk hi (by simpa [Node.children, Node.ofExpr] using ⟨hx, hp⟩)

theorem moves_instanceOfRest (hg : Serves n g) {start : Position} {x : Expr}
    (hx : (Node.expr x).Unmarked) : Moves v n .strict pre 0 16 (instanceOfRest g start x)
      fun x => (Node.expr x).Unmarked := by
  unfold instanceOfRest
  simp only [pure_bind]
  refine .read (reads_check _) fun _ => .read (reads_check _) fun _ => .ite (fun _ => ?_)
    fun _ => ?_
  · refine .go (hg.pattern (by decide)).weak fun p hp => .look (looks_infoFrom start) fun i hi => ?_
    exact .pure (unmarked_instanceOf hi hx hp)
  · refine .go (hg.type (by decide)).weak fun t ht => .read (reads_check _) fun _ => ?_
    refine .ite (fun _ => ?_) fun _ => ?_
    · refine .go (moves_subPatterns hg).weak fun subs hsubs => .look (looks_infoFrom _)
        fun j hj => ?_
      have hp : (Node.expr (.recordPattern j t subs)).Unmarked :=
        .mk hj (by simpa [Node.children, Node.ofExpr] using ⟨ht, hsubs⟩)
      exact .look (looks_infoFrom start) fun i hi => .pure (unmarked_instanceOf hi hx hp)
    · refine .read (reads_check _) fun _ => .read (reads_checkWord _) fun _ => ?_
      refine .ite (fun _ => ?_) fun _ => ?_
      · refine .go moves_ident.weak fun name hname => .look (looks_infoFrom _) fun j hj => ?_
        have hp : (Node.expr (.typePattern j none t name)).Unmarked :=
          .mk hj (by simpa [Node.children, Node.ofExpr] using ⟨ht, hname⟩)
        exact .look (looks_infoFrom start) fun i hi => .pure (unmarked_instanceOf hi hx hp)
      · refine .look (looks_infoFrom start) fun i hi => .pure (.mk hi ?_)
        simpa [Node.children, Node.ofExpr] using ⟨hx, ht⟩

theorem ofBinaryToken?_ne_eof {k : Token.Kind} {op : Operator}
    (h : Operator.ofBinaryToken? k = some op) : k ≠ .eof := by
  rintro rfl
  cases h

theorem moves_binaryRest (hg : Serves n g) (hv : v.keeps = false) {least : Nat} {start : Position}
    (fuel : Nat) :
    ∀ {k pre} {x : Expr}, k ≤ n → k < 16 * fuel + 16 → (Node.expr x).Unmarked →
      Moves v k .strict pre 0 16 (binaryRest g least start x fuel)
        fun x => (Node.expr x).Unmarked := by
  induction fuel with
  | zero =>
    intro k pre x _ hk _
    exact moves_exhausted (by omega)
  | succ fuel ih =>
    intro k pre x hkn hk hx
    unfold binaryRest
    refine .here fun t _ => .check (.ite (fun ht => .ite (fun _ => .pure hx) fun _ => ?_)
      fun _ => .peek ?_)
    · rw [beq_iff_eq] at ht
      refine .round (moves_advance (by rw [ht]; decide)) fun j _ hj _ => ?_
      refine .go (moves_instanceOfRest (hg.lower (by omega)) hx) fun y hy => ?_
      exact ih (by omega) (by omega) hy
    · cases hop : Operator.ofBinaryToken? t.kind with
      | none => exact .pure hx
      | some op =>
        refine .ite (fun _ => .pure hx) fun _ => ?_
        refine .round (moves_advance (ofBinaryToken?_ne_eof hop)) fun j _ hj _ => ?_
        refine .go ((hg.lower (by omega)).binary _ hv (by decide)).weak fun y hy => ?_
        refine .look (looks_infoFrom start) fun i hi => ih (by omega) (by omega) (.mk hi ?_)
        simpa [Node.children, Node.ofExpr] using ⟨hx, hy⟩

theorem moves_binaryRule (hg : Serves n g) (hv : v.keeps = false) (least : Nat) :
    Moves v n .strict pre 1 3
    (binaryRule g least) fun x => (Node.expr x).Unmarked := by
  unfold binaryRule
  refine .read reads_startPos fun start => .take (hg.unary hv (by decide)) fun x hx => ?_
  exact .remaining fun fuel _ hk hfuel => moves_binaryRest hg hv fuel hk hfuel hx

theorem unmarked_unary {i : Info} {op : Operator} {x : Expr} {isPostfix : Bool} (hi : i.flags = {})
    (hx : (Node.expr x).Unmarked) : (Node.expr (.unary i op x isPostfix)).Unmarked :=
  .mk hi (by simpa [Node.children, Node.ofExpr] using hx)

theorem moves_postfixRest {start : Position} (fuel : Nat) : ∀ {k pre} {x : Expr},
    k < 16 * fuel + r → (Node.expr x).Unmarked →
      Moves v k .strict pre 0 r (postfixRest start x fuel) fun x => (Node.expr x).Unmarked := by
  induction fuel with
  | zero =>
    intro k pre x hk _
    exact moves_exhausted (by omega)
  | succ fuel ih =>
    intro k pre x hk hx
    unfold postfixRest
    refine .acceptRound (by decide) (fun j hj => ?_)
      (.acceptRound (by decide) (fun j hj => ?_) (.pure hx))
    · exact .look (looks_infoFrom start) fun i hi => ih (by omega) (unmarked_unary hi hx)
    · exact .look (looks_infoFrom start) fun i hi => ih (by omega) (unmarked_unary hi hx)

/-! ## Casts -/

theorem probes_isCast (hg : Serves n g) (hr : 2 ≤ r) : Probes v n pre r (isCast g) := by
  unfold isCast
  refine .read (reads_peekAt _) fun t => .ite ?_ (.ite ?_ .pure)
  · refine probes_lookahead (.go moves_advance_any fun _ _ => .go (hg.type hr).weak fun _ _ => ?_)
    exact (moves_expect_ (by decide)).weak
  · refine probes_lookahead (.go moves_advance_any fun _ _ => .go (hg.type hr).weak fun _ _ => ?_)
    refine .go (moves_moreSeparated (by decide) (hg.type hr).weak) fun _ _ => .expect (by decide) ?_
    refine .read (reads_checkAny _) fun _ => .read reads_isLambdaStart fun _ => ?_
    exact .ite (fun _ => moves_fail (.inl rfl)) fun _ => .pure trivial

theorem moves_cast (hg : Serves n g) (hv : v.keeps = false) {start : Position} :
    Moves v n .strict pre 1 r
    (cast g start) fun x => (Node.expr x).Unmarked := by
  have hend : ∀ t, (Node.type t).Unmarked → ∀ x, (Node.expr x).Unmarked →
      Moves v n .strict Any 0 16 (do return .cast (← infoFrom start) t x)
        fun x => (Node.expr x).Unmarked := by
    intro t ht x hx
    refine .look (looks_infoFrom start) fun i hi => .pure (.mk hi ?_)
    simpa [Node.children, Node.ofExpr] using ⟨ht, hx⟩
  unfold cast
  simp only [pure_bind]
  refine .expect (by decide) (.go (hg.type (by decide)).weak fun first hfirst => ?_)
  refine .read (reads_check _) fun _ => .ite (fun _ => ?_) fun _ => ?_
  · refine .go (moves_moreSeparated (by decide) (hg.type (by decide)).weak) fun more hmore => ?_
    refine .look (looks_infoFrom _) fun j hj => .expect (by decide) ?_
    have ht : (Node.type (.intersection j (first :: more))).Unmarked :=
      .mk hj (by simpa [Node.children, Node.ofTypeNode] using ⟨hfirst, hmore⟩)
    refine .read reads_isLambdaStart fun _ => .ite (fun _ => ?_) fun _ => ?_
    · exact .go (moves_lambda hg hv).weak fun x hx => hend _ ht x hx
    · exact .go (hg.unary hv (by decide)).weak fun x hx => hend _ ht x hx
  · refine .expect (by decide) (.read reads_isLambdaStart fun _ => .ite (fun _ => ?_) fun _ => ?_)
    · exact .go (moves_lambda hg hv).weak fun x hx => hend _ hfirst x hx
    · exact .go (hg.unary hv (by decide)).weak fun x hx => hend _ hfirst x hx

/-! ## Selectors -/

theorem moves_arguments (hg : Serves n g) :
    Moves v n .strict pre 1 r (arguments g) fun xs => ∀ x ∈ xs, (Node.expr x).Unmarked :=
  moves_parenthesized (hg.expression (by decide))

theorem unmarked_name {i : Info} {name : Ident} : (Node.expr (.name i name)).Unmarked ↔
    i.flags = {} ∧ (Node.ident name).Unmarked := by
  rw [Node.unmarked_iff]
  simp [Node.children, Node.ofExpr, Node.info, Expr.info]

theorem unmarked_field {i : Info} {x : Expr} {name : Ident} :
    (Node.expr (.field i x name)).Unmarked ↔
      i.flags = {} ∧ (Node.expr x).Unmarked ∧ (Node.ident name).Unmarked := by
  rw [Node.unmarked_iff]
  simp [Node.children, Node.ofExpr, Node.info, Expr.info]

theorem looks_classTypeOf? (x : Expr) : (Node.expr x).Unmarked →
    Looks v n pre r (classTypeOf? x) fun o => ∀ t ∈ o, (Node.type t).Unmarked := by
  fun_induction classTypeOf? x with
  | case1 i name =>
    intro hx
    refine .bind (looks_newInfo _) fun j hj => .pure ?_
    have ht : (Node.type (.cls j [] none name [] false)).Unmarked :=
      unmarked_cls hj (by simp) (by simp) (unmarked_name.1 hx).2 (by simp)
    simpa using ht
  | case2 i x name ih =>
    intro hx
    obtain ⟨-, hx, hname⟩ := unmarked_field.1 hx
    refine .bind (ih hx) fun o ho => ?_
    cases o with
    | none => exact .pure (by simp)
    | some q =>
      refine .bind (looks_newInfo _) fun j hj => .pure ?_
      have ht : (Node.type (.cls j [] (some q) name [] false)).Unmarked :=
        unmarked_cls hj (by simp) ho hname (by simp)
      simpa using ht
  | case3 x =>
    intro _
    exact .pure (by simp)

theorem unmarked_nameParts? (x : Expr) : (Node.expr x).Unmarked → ∀ parts ∈ nameParts? x,
    ∀ n ∈ parts, (Node.ident n).Unmarked := by
  fun_induction nameParts? x with
  | case1 i name =>
    intro hx
    simpa using (unmarked_name.1 hx).2
  | case2 i x name ih =>
    intro hx parts hparts
    obtain ⟨-, hx, hname⟩ := unmarked_field.1 hx
    obtain ⟨before, hbefore, rfl⟩ := Option.map_eq_some_iff.1 hparts
    exact List.forall_mem_append.2 ⟨ih hx before hbefore, List.forall_mem_singleton.2 hname⟩
  | case3 x => simp

theorem looks_qualifiedNameOf? {x : Expr} (hx : (Node.expr x).Unmarked) :
    Looks v n pre r (qualifiedNameOf? x)
      fun o => ∀ q ∈ o, (Node.qualifiedName q).Unmarked := by
  unfold qualifiedNameOf?
  cases hparts : nameParts? x with
  | none => exact .pure (by simp)
  | some parts =>
    refine .bind (looks_newInfo _) fun i hi => .pure ?_
    intro q hq
    cases hq
    refine .mk hi ?_
    simpa [Node.children] using unmarked_nameParts? x hx parts hparts

theorem moves_methodRefRest (hg : Serves n g) {start : Position} {x : Expr}
    (hx : (Node.expr x).Unmarked) : Moves v n .strict pre 0 16 (methodRefRest g start x)
      fun x => (Node.expr x).Unmarked := by
  have hend : ∀ {pre : Token → Prop} ts, (∀ t ∈ ts, (Node.type t).Unmarked) → ∀ name,
      (Node.ident name).Unmarked →
      Moves v n .strict pre 0 16 (do return .methodRef (← infoFrom start) x ts name)
        fun x => (Node.expr x).Unmarked := by
    intro pre ts hts name hname
    refine .look (looks_infoFrom start) fun i hi => .pure (.mk hi ?_)
    simp only [Node.children, Node.ofExpr, List.forall_mem_append, List.forall_mem_map,
      List.forall_mem_singleton]
    exact ⟨⟨hx, hts⟩, hname⟩
  unfold methodRefRest
  simp only [pure_bind]
  refine .read (reads_check _) fun _ => .ite (fun _ => ?_) fun _ => ?_
  · refine .go (moves_typeArgs hg false).weak fun ts hts => .read (reads_check _) fun _ => ?_
    refine .ite (fun _ => ?_) fun _ => .go moves_ident.weak fun name hname => hend _ hts name hname
    refine .go moves_advance_any fun t _ => .look (looks_identToken t _) fun name hname => ?_
    exact hend _ hts name hname
  · refine .read (reads_check _) fun _ => .ite (fun _ => ?_) fun _ =>
      .go moves_ident.weak fun name hname => hend _ (by simp) name hname
    refine .go moves_advance_any fun t _ => .look (looks_identToken t _) fun name hname => ?_
    exact hend _ (by simp) name hname

theorem moves_arrayCreatorDims (hg : Serves n g) (fuel : Nat) :
    ∀ {k pre} {dims : List Expr} {extra : Nat}, k ≤ n → k < 16 * fuel + 16 →
      (∀ x ∈ dims, (Node.expr x).Unmarked) →
      Moves v k .strict pre 0 16 (arrayCreatorDims g dims extra fuel)
        fun x => ∀ y ∈ x.1, (Node.expr y).Unmarked := by
  induction fuel with
  | zero =>
    intro k pre dims extra _ hk _
    exact moves_exhausted (by omega)
  | succ fuel ih =>
    intro k pre dims extra hkn hk hdims
    unfold arrayCreatorDims
    refine .test tells_check (.here fun t ht => ?_) (.pure hdims)
    have hne : t.kind ≠ .eof := by
      rw [ht]
      decide
    refine .read (reads_checkAt _ _) fun _ => .ite (fun _ => ?_) fun _ => ?_
    · exact .round (moves_skipBrackets hne) fun j _ hj _ => ih (by omega) (by omega) hdims
    · refine .ite (fun _ => .fail (.inl rfl)) fun _ => ?_
      refine .round (moves_advance hne) fun j _ hj _ => ?_
      refine .go ((hg.lower (by omega)).expression (by decide)).weak fun d hd => ?_
      refine .go (moves_expect_ (by decide)).weak fun _ _ => ih (by omega) (by omega) ?_
      exact List.forall_mem_append.2 ⟨hdims, List.forall_mem_singleton.2 hd⟩

theorem moves_arrayInit (hg : Serves n g) : Moves v n .strict pre 1 r (arrayInit g)
    fun x => (Node.expr x).Unmarked := by
  unfold arrayInit
  refine .read reads_startPos fun start => .expect (by decide) ?_
  refine .go (.untracked (.remaining fun fuel k hk hfuel =>
    moves_bracedItems (hg.initializer (by decide)).weak fuel hk hfuel (by simp))) fun xs hxs => ?_
  refine .expect (by decide) (.look (looks_infoFrom start) fun i hi => .pure (.mk hi ?_))
  simpa [Node.children, Node.ofExpr] using hxs

theorem moves_arrayCreatorRest (hg : Serves n g) {start : Position} {elem : TypeNode}
    (helem : (Node.type elem).Unmarked) : Moves v n .strict pre 0 16 (arrayCreatorRest g start elem)
      fun x => (Node.expr x).Unmarked := by
  unfold arrayCreatorRest
  simp only [pure_bind]
  refine .loop (fun fuel k hk hfuel => moves_arrayCreatorDims hg fuel hk hfuel (by simp))
    fun x hx => .ite (fun _ => ?_) fun _ => ?_
  · refine .read (reads_check _) fun _ => .ite (fun _ => .fail (.inl rfl)) fun _ => ?_
    refine .go (moves_arrayInit hg).weak fun init hinit => ?_
    refine .look (looks_infoFrom start) fun i hi => .pure (.mk hi ?_)
    simpa [Node.children, Node.ofExpr, or_imp, forall_and] using ⟨helem, hx, hinit⟩
  · refine .look (looks_infoFrom start) fun i hi => .pure (.mk hi ?_)
    simpa [Node.children, Node.ofExpr] using ⟨helem, hx⟩

theorem moves_anonymousBody (hg : Serves n g) (hv : v.keeps = false) :
    Moves v n .strict pre 0 16 (anonymousBody g) fun o => ∀ d ∈ o, (Node.typeDecl d).Unmarked := by
  unfold anonymousBody
  refine .read (reads_check _) fun _ => .ite (fun _ => .pure (by simp)) fun _ => ?_
  refine .read reads_startPos fun start => .freshId fun id hid => ?_
  have hempty : (Node.typeDecl
      { (default : TypeDecl) with info := { id }, isAnonymous := true }).Unmarked :=
    Node.unmarked_typeDecl.2 (by simp [default])
  have hadmits : (v.after id).Admits .method := Setting.admits_of_keeps hv
  refine .go (hg.typeBody false _ hid hadmits hempty (by decide)).weak fun body hbody => ?_
  refine .read (reads_spanFrom _) fun span => .pure ?_
  obtain ⟨hflags, hparts⟩ := Node.unmarked_typeDecl.1 hbody
  rintro d ⟨⟩
  exact Node.unmarked_typeDecl.2 ⟨hflags, hparts⟩

theorem unmarked_newObject {i : Info} {outer : Option Expr} {ts : List TypeNode} {t : TypeNode}
    {args : List Expr} {body : Option TypeDecl} (hi : i.flags = {})
    (houter : ∀ x ∈ outer, (Node.expr x).Unmarked) (hts : ∀ t ∈ ts, (Node.type t).Unmarked)
    (ht : (Node.type t).Unmarked) (hargs : ∀ x ∈ args, (Node.expr x).Unmarked)
    (hbody : ∀ d ∈ body, (Node.typeDecl d).Unmarked) :
    (Node.expr (.newObject i outer ts t args body)).Unmarked := by
  refine .mk hi ?_
  simp only [Node.children, Node.ofExpr, List.forall_mem_append, List.forall_mem_map,
    Node.forall_mem_option, List.forall_mem_singleton]
  exact ⟨⟨⟨⟨houter, hts⟩, ht⟩, hargs⟩, hbody⟩

/-- What follows the type arguments of a creation. -/
def creatorRest (g : Grammar) (outer : Option Expr) (start : Position) (targs : List TypeNode) :
    Parser Expr := do
  match primitiveOf? (← peek).kind with
  | some p =>
    let t ← advance
    let elem := TypeNode.primitive (← newInfo t.span) p
    if !(← check .lbracket) then fail "["
    arrayCreatorRest g start elem
  | none =>
    let annots ← annotsHere g
    let type := withAnnots annots (← classType g true)
    if ← check .lbracket then arrayCreatorRest g start type
    else
      let args ← arguments g
      let body ← anonymousBody g
      return .newObject (← infoFrom start) outer targs type args body

theorem moves_creatorRest (hg : Serves n g) (hv : v.keeps = false) {outer : Option Expr}
    {start : Position}
    {targs : List TypeNode} (houter : ∀ x ∈ outer, (Node.expr x).Unmarked)
    (htargs : ∀ t ∈ targs, (Node.type t).Unmarked) : Moves v n .strict pre 0 16
      (creatorRest g outer start targs)
      fun x => (Node.expr x).Unmarked := by
  unfold creatorRest
  refine .read reads_peek fun t => ?_
  cases primitiveOf? t.kind with
  | some b =>
    refine .go moves_advance_any fun t _ => .look (looks_newInfo _) fun i hi => ?_
    refine .read (reads_check _) fun _ => .ite (fun _ => .fail (.inl rfl)) fun _ => ?_
    exact moves_arrayCreatorRest hg (unmarked_primitive hi)
  | none =>
    refine .go (moves_annotsHere hg (by decide)) fun annots hannots => ?_
    refine .go (moves_classType hg (by decide) true).weak fun t ht => ?_
    have htype := unmarked_withAnnots hannots ht
    refine .read (reads_check _) fun _ => .ite (fun _ => moves_arrayCreatorRest hg htype)
      fun _ => ?_
    refine .go (moves_arguments hg).weak fun args hargs => ?_
    refine .go (moves_anonymousBody hg hv) fun body hbody => .look (looks_infoFrom start)
      fun i hi => ?_
    exact .pure (unmarked_newObject hi houter htargs htype hargs hbody)

theorem moves_creator (hg : Serves n g) (hv : v.keeps = false) {outer : Option Expr}
    {start : Position}
    (houter : ∀ x ∈ outer, (Node.expr x).Unmarked) : Moves v n .strict pre 1 r
      (creator g outer start) fun x => (Node.expr x).Unmarked := by
  unfold creator
  simp only [pure_bind]
  refine .expect (by decide) (.read (reads_check _) fun _ => .ite (fun _ => ?_) fun _ => ?_)
  · exact .go (moves_typeArgs hg false).weak fun x hx => moves_creatorRest hg hv houter hx
  · exact moves_creatorRest hg hv houter (by simp)

theorem unmarked_call {i : Info} {x : Option Expr} {ts : List TypeNode} {name : Ident}
    {args : List Expr} (hi : i.flags = {}) (hx : ∀ y ∈ x, (Node.expr y).Unmarked)
    (hts : ∀ t ∈ ts, (Node.type t).Unmarked) (hname : (Node.ident name).Unmarked)
    (hargs : ∀ y ∈ args, (Node.expr y).Unmarked) :
    (Node.expr (.call i x ts name args)).Unmarked := by
  refine .mk hi ?_
  simp only [Node.children, Node.ofExpr, List.forall_mem_append, List.forall_mem_map,
    Node.forall_mem_option, List.forall_mem_singleton]
  exact ⟨⟨⟨hx, hts⟩, hname⟩, hargs⟩

theorem moves_dotSelector (hg : Serves n g) (hv : v.keeps = false) {start : Position} {x : Expr}
    (hx : (Node.expr x).Unmarked) : Moves v n .strict pre 0 16 (dotSelector g start x)
      fun x => (Node.expr x).Unmarked := by
  have hsome : ∀ y ∈ some x, (Node.expr y).Unmarked := by simpa using hx
  unfold dotSelector
  refine .read reads_peek fun t => ?_
  split
  · refine .go moves_ident.weak fun name hname => .read (reads_check _) fun _ => ?_
    refine .ite (fun _ => ?_) fun _ => ?_
    · refine .go (moves_arguments hg).weak fun args hargs => .look (looks_infoFrom start)
        fun i hi => ?_
      exact .pure (unmarked_call hi hsome (by simp) hname hargs)
    · exact .look (looks_infoFrom start) fun i hi => .pure (unmarked_field.2 ⟨hi, hx, hname⟩)
  · refine .go (moves_typeArgs hg false).weak fun ts hts => .go moves_ident.weak
      fun name hname => ?_
    refine .go (moves_arguments hg).weak fun args hargs => .look (looks_infoFrom start)
      fun i hi => ?_
    exact .pure (unmarked_call hi hsome hts hname hargs)
  · exact (moves_creator hg hv hsome).weak
  · refine .go moves_advance_any fun _ _ => .look (looks_qualifiedNameOf? hx) fun o ho => ?_
    cases o with
    | none => exact moves_fail (.inl rfl)
    | some q =>
      refine .look (looks_infoFrom start) fun i hi => .pure (.mk hi ?_)
      simpa [Node.children, Node.ofExpr] using ho
  · refine .go moves_advance_any fun _ _ => .look (looks_qualifiedNameOf? hx) fun o ho => ?_
    cases o with
    | none => exact moves_fail (.inl rfl)
    | some q =>
      refine .read (reads_check _) fun _ => .read (reads_check _) fun _ => ?_
      refine .ite (fun _ => .fail (.inl rfl)) fun _ => ?_
      refine .look (looks_infoFrom start) fun i hi => .pure (.mk hi ?_)
      simpa [Node.children, Node.ofExpr] using ho
  · refine .go moves_advance_any fun _ _ => .look (looks_classTypeOf? x hx) fun o ho => ?_
    cases o with
    | none => exact moves_fail (.inl rfl)
    | some t =>
      refine .look (looks_infoFrom start) fun i hi => .pure (.mk hi ?_)
      simpa [Node.children, Node.ofExpr] using ho
  · exact moves_fail (.inl rfl)

/-- The expression of a selector. -/
def Selected.expr : Selected → Expr
  | .more x | .last x => x

theorem moves_typeSelector (hg : Serves n g) {start : Position} {t : TypeNode}
    (ht : (Node.type t).Unmarked) : Moves v n .strict pre 1 16 (typeSelector g start t)
      fun x => (Node.expr x.expr).Unmarked := by
  unfold typeSelector
  refine .go (moves_dimensions hg (by decide) ht) fun t ht => .accept (by decide) ?_ ?_
  · refine .look (looks_newInfo _) fun i hi => ?_
    have hx : (Node.expr (.typeExpr i t)).Unmarked :=
      .mk hi (by simpa [Node.children, Node.ofExpr] using ht)
    exact .go (moves_methodRefRest hg hx) fun y hy => .pure hy
  · refine .expect (by decide) (.expect (by decide) ?_)
    refine .look (looks_infoFrom start) fun i hi => .pure (.mk hi ?_)
    simpa [Selected.expr, Node.children, Node.ofExpr] using ht

/-- The tokens that start a selector. -/
def selectorStarts : List Token.Kind := [.dot, .lbracket, .colonColon]

theorem moves_selector (hg : Serves n g) (hv : v.keeps = false) {start : Position} {x : Expr}
    (hx : (Node.expr x).Unmarked) (ht : t.kind ∈ selectorStarts) :
    Moves v n .strict (· = t) 1 16 (selector g start x)
      fun x => (Node.expr x.expr).Unmarked := by
  unfold selector
  refine .peek ?_
  simp only [selectorStarts, List.mem_cons, List.not_mem_nil, or_false] at ht
  obtain ht | ht | ht := ht
  all_goals
    have hne : t.kind ≠ .eof := by
      rw [ht]
      decide
    simp only [ht]
  · exact .advance hne (.go (moves_dotSelector hg hv hx) fun y hy => .pure hy)
  · refine .read (reads_checkAt _ _) fun _ => .ite (fun _ => ?_) fun _ => ?_
    · refine .look (looks_classTypeOf? x hx) fun o ho => ?_
      cases o with
      | none => exact moves_fail (.inl rfl)
      | some t => exact moves_typeSelector hg (ho t rfl)
    · refine .advance hne (.go (hg.expression (by decide)).weak fun y hy => ?_)
      refine .expect (by decide) (.look (looks_infoFrom start) fun i hi => .pure (.mk hi ?_))
      simpa [Selected.expr, Node.children, Node.ofExpr] using ⟨hx, hy⟩
  · exact .advance hne (.go (moves_methodRefRest hg hx) fun y hy => .pure hy)

theorem selector_last {start : Position} {x : Expr} {c : Context} {s : State}
    (h : s.current.kind ∉ selectorStarts) : selector g start x c s = .ok (.last x) s := by
  simp only [selectorStarts, List.mem_cons, List.not_mem_nil, or_false, not_or] at h
  unfold selector
  rw [bind_ok (p := peek) (a := s.current) rfl]
  generalize s.current.kind = k at h ⊢
  cases k with
  | dot => exact absurd rfl h.1
  | lbracket => exact absurd rfl h.2.1
  | colonColon => exact absurd rfl h.2.2
  | _ => rfl

theorem moves_selectors (hg : Serves n g) (hv : v.keeps = false) {start : Position} (fuel : Nat) :
    ∀ {k pre} {x : Expr}, k ≤ n → k < 16 * fuel + 16 → (Node.expr x).Unmarked →
      Moves v k .strict pre 0 16 (selectors g start x fuel) fun x => (Node.expr x).Unmarked := by
  induction fuel with
  | zero =>
    intro k pre x _ hk _
    exact moves_exhausted (by omega)
  | succ fuel ih =>
    intro k pre x hkn hk hx
    unfold selectors
    refine .here fun t _ => ?_
    by_cases ht : t.kind ∈ selectorStarts
    · refine .round (moves_selector (hg.lower hkn) hv hx ht) fun j y hj hy => ?_
      cases y with
      | more y => exact ih (by omega) (by omega) hy
      | last y => exact .pure hy
    · exact .known (fun c s hs => selector_last (by rw [hs]; exact ht)) (.pure hx)

theorem moves_typeInExpr (hg : Serves n g) (hv : v.keeps = false) {start : Position} {t : TypeNode}
    (ht : (Node.type t).Unmarked) : Moves v n .strict pre 0 16 (typeInExpr g start t)
      fun x => (Node.expr x).Unmarked := by
  unfold typeInExpr
  refine .go (moves_typeSelector hg ht).weak fun y hy => ?_
  cases y with
  | more y => exact .remaining fun fuel _ hk hfuel => moves_selectors hg hv fuel hk hfuel hy
  | last y => exact .pure hy

/-! ## Primary expressions -/

theorem literalKind?_ne_eof {t : Token} {k : Literal.Kind} (h : literalKind? t = some k) :
    t.kind ≠ .eof := by
  intro heof
  simp [literalKind?, heof] at h

theorem probes_isGenericTypeRef (hg : Serves n g) (hr : 2 ≤ r) :
    Probes v n pre r (isGenericTypeRef g) :=
  probes_lookahead (.go (hg.type hr).weak fun _ _ => (moves_expect_ (by decide)).weak)

theorem moves_switchExpr (hg : Serves n g) (hv : v.keeps = false) :
    Moves v n .strict pre 1 r (switchExpr g) fun x => (Node.expr x).Unmarked := by
  unfold switchExpr
  refine .read reads_startPos fun start => .expect (by decide) (.expect (by decide) ?_)
  refine .go (hg.expression (by decide)).weak fun x hx => .expect (by decide) ?_
  refine .go (hg.switchBody true (Setting.admits_of_keeps hv) (by decide)).weak fun cs hcs => ?_
  refine .look (looks_infoFrom start) fun i hi => .pure (.mk hi ?_)
  simpa [Node.children, Node.ofExpr] using ⟨hx, hcs⟩

theorem moves_primaryHead (hg : Serves n g) (hv : v.keeps = false) {start : Position} :
    Moves v n .strict pre 1 r
    (primaryHead g start) fun x => (Node.expr x).Unmarked := by
  unfold primaryHead
  refine .here fun t _ => .peek ?_
  cases hliteral : literalKind? t with
  | some k =>
    refine .advance (literalKind?_ne_eof hliteral) (.look (looks_newInfo _) fun i hi => ?_)
    exact .pure (.mk hi (by simp [Node.children, Node.ofExpr]))
  | none =>
    dsimp only
    split
    next hk =>
      refine .advance (by rw [hk]; decide) (.look (looks_newInfo _) fun i hi => ?_)
      exact .pure (.mk hi (by simp [Node.children, Node.ofExpr]))
    next hk =>
      refine .advance (by rw [hk]; decide) (.read (reads_check _) fun _ => ?_)
      refine .read (reads_check _) fun _ => .ite (fun _ => .fail (.inl rfl)) fun _ => ?_
      refine .look (looks_newInfo _) fun i hi => .pure (.mk hi ?_)
      simp [Node.children, Node.ofExpr]
    next => exact moves_creator hg hv (by simp)
    next hk =>
      refine .advance (by rw [hk]; decide) (.go (hg.expression (by decide)).weak fun x hx => ?_)
      refine .expect (by decide) (.look (looks_infoFrom start) fun i hi => .pure (.mk hi ?_))
      simpa [Node.children, Node.ofExpr] using hx
    next => exact moves_switchExpr hg hv
    next =>
      refine .take moves_ident fun name hname => .read (reads_check _) fun _ => ?_
      refine .ite (fun _ => ?_) fun _ => ?_
      · refine .go (moves_arguments hg).weak fun args hargs => ?_
        refine .look (looks_infoFrom start) fun i hi => .pure ?_
        exact unmarked_call hi (by simp) (by simp) hname hargs
      · exact .look (looks_newInfo _) fun i hi => .pure (unmarked_name.2 ⟨hi, hname⟩)
    next => exact moves_fail (.inl rfl)

theorem moves_primary (hg : Serves n g) (hv : v.keeps = false) (hr : 2 ≤ r) :
    Moves v n .strict pre 1 r (primary g) fun x => (Node.expr x).Unmarked := by
  unfold primary
  refine .read reads_startPos fun start => .read reads_peek fun t => .read (reads_peekAt _)
    fun _ => ?_
  refine .look (probes_isGenericTypeRef hg hr).andAlso.looks fun _ _ => ?_
  refine .ite (fun _ => ?_) fun _ => .ite (fun _ => ?_) fun _ => ?_
  · exact .take (moves_resultType hg hr) fun t ht => moves_typeInExpr hg hv ht
  · exact .take (hg.type hr) fun t ht => moves_typeInExpr hg hv ht
  · refine .take (moves_primaryHead hg hv) fun x hx => ?_
    exact .remaining fun fuel _ hk hfuel => moves_selectors hg hv fuel hk hfuel hx

theorem unaryOf?_ne_eof {k : Token.Kind} {op : Operator} (h : unaryOf? k = some op) : k ≠ .eof := by
  rintro rfl
  cases h

theorem moves_unaryRule (hg : Serves n g) (hv : v.keeps = false) :
    Moves v n .strict pre 1 2 (unaryRule g) fun x => (Node.expr x).Unmarked := by
  unfold unaryRule
  refine .read reads_startPos fun start => .here fun t _ => .peek ?_
  cases hop : unaryOf? t.kind with
  | some op =>
    refine .advance (unaryOf?_ne_eof hop) (.go (hg.unary hv (by decide)).weak fun x hx => ?_)
    exact .look (looks_infoFrom start) fun i hi => .pure (unmarked_unary hi hx)
  | none =>
    refine .look (probes_isCast hg (by decide)).andAlso.looks fun _ _ => ?_
    refine .ite (fun _ => moves_cast hg hv) fun _ => .take (moves_primary hg hv (by decide))
      fun x hx => ?_
    exact .remaining fun fuel _ _ hfuel => moves_postfixRest fuel hfuel hx

theorem moves_initializerRule (hg : Serves n g) :
    Moves v n .strict pre 1 7 (initializerRule g) fun x => (Node.expr x).Unmarked := by
  unfold initializerRule
  refine .read (reads_check _) fun _ => ?_
  exact .ite (fun _ => moves_arrayInit hg) fun _ => hg.expression (by decide)

end

end Javelin.Parse
