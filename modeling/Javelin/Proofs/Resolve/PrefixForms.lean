import Javelin.Proofs.Resolve.Recorded

/-!
# Resolving literals, parentheses and prefix operators

What resolving such an expression derives, if its operand is resolved as it should.

1. Literals and parentheses.
2. Prefix operators on operands that are resolved first.
3. A minus before an integer literal, which is read together with it.
-/

namespace Javelin

open Run World

namespace Lookup

variable [Answers] {told : Prop} {c : Context} {s : Scope} {target t : TypeId} {w w' : World}

/-! ## Literals and parentheses -/

omit [Answers] in
theorem suits_literal {kind : Literal.Kind} (hk : kind.type.isPrimitive) (i : Info) (raw : Text) :
    Suits (base kind.type) (.literal i kind raw) :=
  .inr ⟨_, hk, rfl, Literal.Kind.type_eq_boolean.trans beq_iff_eq.symm⟩

theorem literalType_run {kind : Literal.Kind} (hk : kind.type.isPrimitive) (w : World) :
    literalType kind w = .ok (base kind.type) w := by
  cases kind <;> first | rfl | cases hk

theorem derived_literal (hA : Steady) {i : Info} {kind : Literal.Kind} {raw : Text}
    (hk : kind.type.isPrimitive) (hx : Pending told c.isQuiet (.literal i kind raw) w)
    (h : resolveLiteral c i kind raw w = .ok t w') :
    Derived told c.isQuiet (.literal i kind raw) w w' t := by
  have hstart : Ahead told c.isQuiet (Expr.literal i kind raw).operands w w := .start _ _ _
  unfold resolveLiteral at h
  replace h := bind_rest (literalType_run hk w) h
  cases hc : Literal.constant kind raw false with
  | error e =>
    rw [hc] at h
    dsimp only at h
    split at h
    · obtain ⟨w₁, hn, hend⟩ := complaint_noted hA hx.ready hk h
      cases hend
      exact (hstart.noted hn).derived hx (suits_literal hk i raw)
    · cases h
      exact hstart.derived hx (suits_literal hk i raw)
  | ok v =>
    rw [hc] at h
    cases v with
    | none =>
      cases h
      exact hstart.derived hx (suits_literal hk i raw)
    | some v =>
      replace h := bind_rest (setConstant_run c i v w) h
      cases h
      have hspelled : told → Literal.IsSpelled kind raw :=
        fun hp => hx.plain hp _ List.mem_cons_self
      have hd := hstart.record hx (Expr.Holds.literal hk hspelled hc)
      rwa [Literal.constant_type hc] at hd

theorem derived_paren (hR : Resolving told) {i : Info} {y : Expr} (hy : y.Calculation)
    (ht : Suits target (.paren i y)) (hx : Pending told c.isQuiet (.paren i y) w)
    (h : exprType c s (.paren i y) target w = .ok t w') :
    Derived told c.isQuiet (.paren i y) w w' t := by
  unfold exprType at h
  obtain ⟨ty, w₁, hask, h⟩ := bind_ok h
  have hstart := Ahead.start told c.isQuiet w
  have hres := hR hy ht (hstart.pending hx rfl) hask
  have hahead : Ahead told c.isQuiet (Expr.paren i y).operands w w₁ := hstart.next hx rfl hres
  replace h := bind_rest (constantOf_run c y.info w₁) h
  cases hk : (w₁.constants c.isQuiet)[y.info.id]? with
  | none =>
    rw [hk] at h
    cases h
    exact hahead.derived hx hres.suits
  | some k =>
    rw [hk] at h
    replace h := bind_rest (setConstant_run c i k w₁) h
    obtain ⟨rfl, hholds⟩ := hres.constant hk
    cases h
    exact hahead.record hx hholds.paren

/-! ## Prefix operators -/

omit [Answers] in
/-- Folding a prefix operator records nothing or the value of the operator. -/
theorem foldUnary_run {x y : Info} {op : Operator} {b : BasicType}
    (h : foldUnary c x y op b w = .ok () w') :
    w' = w ∨ ∃ v k, (w.constants c.isQuiet)[y.id]? = some v ∧ Constant.unary op v b = some k ∧
      w' = w.recordConstant c.isQuiet x.id k := by
  unfold foldUnary at h
  replace h := bind_rest (constantOf_run c y w) h
  cases hv : (w.constants c.isQuiet)[y.id]? with
  | none =>
    rw [hv] at h
    cases h
    exact .inl rfl
  | some v =>
    rw [hv] at h
    dsimp only at h
    cases hk : Constant.unary op v b with
    | none =>
      rw [hk] at h
      cases h
      exact .inl rfl
    | some k =>
      rw [hk] at h
      cases h
      exact .inr ⟨v, k, rfl, hk, rfl⟩

/-- Converting the operand and folding. -/
theorem derived_promoted {i : Info} {op : Operator} {y : Expr} {p : Bool} {b r : BasicType}
    {w₁ : World} (hx : Pending told c.isQuiet (.unary i op y p) w)
    (hahead : Ahead told c.isQuiet [y] w w₁) (hr : r.isPrimitive)
    (htest : r = .boolean ↔ (Expr.unary i op y p).isTest)
    (hfold : ∀ v k, (w₁.constants c.isQuiet)[y.info.id]? = some v →
      Constant.unary op v b = some k → k.type = r ∧ (Expr.unary i op y p).Holds told k)
    (h : (do convert c y.info b; foldUnary c i y.info op b; return base r) w₁ = .ok t w') :
    Derived told c.isQuiet (.unary i op y p) w w' t := by
  obtain ⟨_, w₂, hconvert, h⟩ := bind_ok h
  have hn := convert_noted (hx.ready.of_kept hahead.kept) hconvert
  obtain ⟨_, w₃, hrun, h⟩ := bind_ok h
  cases h
  obtain rfl | ⟨v, k, hv, hk, rfl⟩ := foldUnary_run hrun
  · exact (hahead.noted hn).derived hx (.inr ⟨r, hr, rfl, htest⟩)
  · rw [hn.constants] at hv
    obtain ⟨rfl, hholds⟩ := hfold v k hv hk
    exact (hahead.noted hn).record hx hholds

theorem derived_unaryType (hA : Steady) {i : Info} {op : Operator} {y : Expr} {p : Bool}
    {b : BasicType} {w₁ : World} (hop : op = .pos ∨ op = .neg ∨ op = .bitNot ∨ op = .not)
    (hb : b.isPrimitive) (hx : Pending told c.isQuiet (.unary i op y p) w)
    (hahead : Ahead told c.isQuiet [y] w w₁) (hres : Resolved told c.isQuiet y w w₁ (base b))
    (h : unaryType c i op y (base b) w₁ = .ok t w') :
    Derived told c.isQuiet (.unary i op y p) w w' t := by
  have hw₁ := hx.ready.of_kept hahead.kept
  have hbad : ∀ {w'}, (do
      report c .invalidOperator i [op.text, ← typeName (base b)]
      return TypeId.none : Lookup TypeId) w₁ = .ok t w' →
      Derived told c.isQuiet (.unary i op y p) w w' t := by
    intro w' h
    obtain ⟨w₂, hn, hend⟩ := complaint_noted hA (f := fun s => [op.text, s]) hw₁ hb h
    cases hend
    exact (hahead.noted hn).derived hx (.inl rfl)
  unfold unaryType at h
  replace h := bind_rest (primitiveOf_base hw₁.settled hb) h
  by_cases hnot : op = .not
  · subst hnot
    dsimp only at h
    split at h
    next =>
      refine derived_promoted hx hahead rfl (iff_of_true rfl rfl) (fun v k hv hk => ?_) h
      have hholds := (hres.constant_type hb hv).2.not (i := i) (p := p) hk
      exact ⟨hholds.test.2 rfl, hholds⟩
    next => exact hbad h
  · replace hop : op = .pos ∨ op = .neg ∨ op = .bitNot := by simpa [hnot] using hop
    have hrest : (if b.promoted == .undefined || (op == .bitNot && !b.promoted.isIntegral) then do
          report c .invalidOperator i [op.text, ← typeName (base b)]
          return TypeId.none
        else do
          convert c y.info b.promoted
          foldUnary c i y.info op b.promoted
          return base b.promoted : Lookup TypeId) w₁ = .ok t w' := by
      rcases hop with rfl | rfl | rfl <;> exact h
    split at hrest
    next => exact hbad hrest
    next hgood =>
      have hn : b.isNumeric := BasicType.isNumeric_of_promoted fun hu => hgood (by rw [hu]; rfl)
      have hpn := BasicType.promoted_isNumeric hn
      refine derived_promoted hx hahead (BasicType.isPrimitive_of_numeric hpn)
        (iff_of_false (BasicType.ne_boolean_of_numeric hpn) (by simpa [Expr.isTest] using hnot))
        (fun v k hv hk => ?_) hrest
      obtain ⟨rfl, hholds⟩ := hres.constant_type hb hv
      exact ⟨Constant.unary_type hnot hk, hholds.unary hop hn hk⟩

/-! ### Negated integer literals -/

omit [Answers] in
/-- The nodes of a literal in parentheses. -/
theorem literal_parts {y : Expr} {j : Info} {kind : Literal.Kind} {raw : Text} (hy : y.Calculation)
    (h : y.withoutParens = .literal j kind raw) :
    j.id ∈ y.ids ∧ ∀ z ∈ y.parts, z.isTest = (kind == .boolean) := by
  induction hy with
  | literal i raw hk =>
    cases h
    refine ⟨List.mem_cons_self, fun z hz => ?_⟩
    cases List.mem_singleton.1 hz
    rfl
  | @paren i x hx ih =>
    obtain ⟨hmem, htests⟩ := ih h
    refine ⟨.tail _ hmem, fun z hz => ?_⟩
    rcases List.mem_cons.1 hz with rfl | hz
    · exact htests x List.mem_cons_self
    · exact htests z hz
  | unary | binary | cast | conditional => cases h

/-- What is noted for a minus before a literal: constants of the type of the literal, for the minus
and for the literal. -/
structure Negated (quiet : Bool) (x : Expr) (lit : Nat) (b : BasicType) (w w' : World) : Prop where
  kept : Kept w w'
  others : ∀ id, id ∉ x.ids → Agree quiet w w' id
  typed : (w'.exprTypes quiet)[lit]? = some (base b)
  values : ∀ id k, (w'.constants quiet)[id]? = some k →
    (w.constants quiet)[id]? = some k ∨ (id = x.info.id ∨ id = lit) ∧ k.type = b

section

variable {quiet : Bool} {x : Expr} {lit : Nat} {b : BasicType} {w₁ w₂ : World}

omit [Answers] in
theorem Negated.noted (h : Negated quiet x lit b w w₁) (hn : Noted quiet w₁ w₂) :
    Negated quiet x lit b w w₂ where
  kept := h.kept.trans hn.kept
  others id hid := (h.others id hid).trans (hn.agree id)
  typed := by rw [hn.types]; exact h.typed
  values := by rw [hn.constants]; exact h.values

omit [Answers] in
theorem Negated.record (h : Negated quiet x lit b w w₁) (hw : w.Ready quiet) {id : Nat}
    {v : Constant} (hid : id = x.info.id ∨ id = lit) (hlit : lit ∈ x.ids) (hv : v.type = b) :
    Negated quiet x lit b w (w₁.recordConstant quiet id v) := by
  have hw₁ := hw.of_kept h.kept
  have hmem : id ∈ x.ids := by
    rcases hid with rfl | rfl
    · exact List.mem_cons_self
    · exact hlit
  refine ⟨h.kept.trans (kept_noting _ _ _), fun id' hid' => ?_, ?_, fun id' k hk => ?_⟩
  · refine (h.others id' hid').trans (agree_recordConstant hw₁ v ?_)
    rintro rfl
    exact hid' hmem
  · rw [exprTypes_recordConstant hw₁]
    exact h.typed
  · by_cases heq : id = id'
    · subst heq
      rw [constants_recordConstant hw₁, Std.HashMap.getElem?_insert_self] at hk
      cases hk
      exact .inr ⟨hid, hv⟩
    · rw [(agree_recordConstant hw₁ v heq).1] at hk
      exact h.values id' k hk

omit [Answers] in
theorem Negated.start (hw : w.Ready quiet) (hlit : lit ∈ x.ids) :
    Negated quiet x lit b w (w.recordType quiet lit (base b)) := by
  refine ⟨kept_noting _ _ _, fun id hid => agree_recordType hw _ ?_, ?_, fun id k hk => .inl ?_⟩
  · rintro rfl
    exact hid hlit
  · rw [exprTypes_recordType hw, Std.HashMap.getElem?_insert_self]
  · rwa [constants_recordType hw] at hk

omit [Answers] in
/-- Parentheses have the type of the literal in them. -/
theorem Negated.paren (h : Negated quiet x lit b w w₁) (hw : w.Ready quiet) {id : Nat}
    (hid : id ∈ x.ids) : Negated quiet x lit b w (w₁.recordType quiet id (base b)) := by
  have hw₁ := hw.of_kept h.kept
  refine ⟨h.kept.trans (kept_noting _ _ _), fun id' hid' => ?_, ?_, fun id' k hk => ?_⟩
  · refine (h.others id' hid').trans (agree_recordType hw₁ _ ?_)
    rintro rfl
    exact hid' hid
  · rw [exprTypes_recordType hw₁, Std.HashMap.getElem?_insert]
    split
    · rfl
    · exact h.typed
  · rw [constants_recordType hw₁] at hk
    exact h.values id' k hk

end

/-- What is recorded of a negated literal once it has its type. -/
def recordNegated (c : Context) (i j : Info) (kind : Literal.Kind) (raw : Text) : Lookup TypeId :=
  match Literal.constant kind raw true with
  | .ok (some v) => do
    setConstant c i v
    if let some w := Constant.unary .neg v (← basicType (base kind.type)) then
      setConstant c j w
    return base kind.type
  | .ok none => do
    pure ()
    return base kind.type
  | .error _ => do
    report c .integerOutOfRange i ["-" ++ raw, ← typeName (base kind.type)]
    return base kind.type

theorem negatedLiteral_run (hA : Steady) {i j : Info} {y : Expr} {p : Bool} {kind : Literal.Kind}
    {raw : Text} (hkind : kind.type.isNumeric) (hy : y.Calculation)
    (hlit : y.withoutParens = .literal j kind raw) (hw : w.Ready c.isQuiet) (h : negatedLiteral c i y j kind raw w = .ok t w') :
    t = base kind.type ∧ Negated c.isQuiet (.unary i .neg y p) j.id kind.type w w' := by
  have hk := BasicType.isPrimitive_of_numeric hkind
  have hmem : j.id ∈ (Expr.unary i .neg y p).ids := .tail _ (literal_parts hy hlit).1
  unfold negatedLiteral at h
  replace h := bind_rest (literalType_run hk w) h
  replace h := bind_rest (setType_run c j _ w) h
  have hone : Negated c.isQuiet (.unary i .neg y p) j.id kind.type w
      (w.recordType c.isQuiet j.id (base kind.type)) := .start hw hmem
  generalize w.recordType c.isQuiet j.id (base kind.type) = w₁ at h hone
  obtain ⟨w₂, htwo, h⟩ : ∃ w₂, Negated c.isQuiet (.unary i .neg y p) j.id kind.type w w₂ ∧
      recordNegated c i j kind raw w₂ = .ok t w' := by
    cases y
    case paren i y =>
      replace h := bind_rest (setType_run c i _ w₁) h
      exact ⟨_, hone.paren hw (.tail _ List.mem_cons_self), h⟩
    all_goals exact ⟨w₁, hone, h⟩
  have hw₂ := hw.of_kept htwo.kept
  unfold recordNegated at h
  cases hv : Literal.constant kind raw true with
  | error e =>
    rw [hv] at h
    obtain ⟨w₃, hn, hend⟩ := complaint_noted hA (f := fun s => ["-" ++ raw, s]) hw₂ hk h
    cases hend
    exact ⟨rfl, htwo.noted hn⟩
  | ok v =>
    rw [hv] at h
    cases v with
    | none =>
      cases h
      exact ⟨rfl, htwo⟩
    | some v =>
      have hthree := htwo.record hw (.inl rfl) hmem (Literal.constant_type hv)
      replace h := bind_rest (setConstant_run c i v w₂) h
      replace h := bind_rest (basicType_base (hw.of_kept hthree.kept).settled hk) h
      cases hu : Constant.unary .neg v kind.type with
      | none =>
        rw [hu] at h
        cases h
        exact ⟨rfl, hthree⟩
      | some u =>
        rw [hu] at h
        cases h
        exact ⟨rfl, hthree.record hw (.inr rfl) hmem (Constant.unary_type (by decide) hu)⟩

theorem derived_negated (hA : Steady) {i j : Info} {y : Expr} {p : Bool} {kind : Literal.Kind}
    {raw : Text} (hkind : kind = .int ∨ kind = .long) (hy : y.Calculation)
    (hlit : y.withoutParens = .literal j kind raw)
    (hx : Pending told c.isQuiet (.unary i .neg y p) w)
    (h : negatedLiteral c i y j kind raw w = .ok t w') :
    Derived told c.isQuiet (.unary i .neg y p) w w' t := by
  have hn : kind.type.isNumeric := by rcases hkind with rfl | rfl <;> rfl
  have hne := BasicType.ne_boolean_of_numeric hn
  -- such a node is not plain, so no values are told
  have htold : ¬ told := fun hp => by
    have hplain := hx.plain hp _ List.mem_cons_self rfl j kind raw hlit
    rcases hkind with rfl | rfl
    · exact hplain.1 rfl
    · exact hplain.2 rfl
  have hholds : ∀ {z : Expr} {k : Constant}, z.isTest = false → k.type = kind.type →
      z.Holds told k := fun hz hk =>
    ⟨hk ▸ BasicType.isPrimitive_of_numeric hn, iff_of_false (hk ▸ hne) (by simp [hz]),
      fun hp => absurd hp htold, fun hp => absurd hp htold⟩
  obtain ⟨rfl, hneg⟩ := negatedLiteral_run (p := p) hA hn hy hlit hx.ready h
  refine ⟨hneg.kept, hneg.others, .inr ⟨_, BasicType.isPrimitive_of_numeric hn, rfl, ?_⟩, ?_, ?_⟩
  · exact iff_of_false hne nofun
  · intro z hz k hk
    have hfresh := hx.fresh _ (List.mem_map_of_mem (.tail _ hz))
    rcases hneg.values _ k hk with hold | ⟨hid, ht⟩
    · cases hfresh.symm.trans hold
    · rcases hid with hid | hid
      · exact absurd hid.symm (hx.id_ne hz)
      · rw [hid, hneg.typed, ht]
        refine ⟨rfl, hholds ?_ ht⟩
        rw [(literal_parts hy hlit).2 z hz]
        rcases hkind with rfl | rfl <;> rfl
  · intro k hk
    rcases hneg.values _ k hk with hold | ⟨-, ht⟩
    · cases hx.blank.symm.trans hold
    · exact ⟨by rw [ht], hholds rfl ht⟩

/-- An integer literal behind a minus is read with it, and every other operand is resolved first. -/
theorem resolveUnary_cases (c : Context) (s : Scope) (i : Info) (op : Operator) (y : Expr) :
    (∃ j kind raw, op = .neg ∧ (kind = .int ∨ kind = .long) ∧
      y.withoutParens = .literal j kind raw ∧
      resolveUnary c s i op y = negatedLiteral c i y j kind raw) ∨
    resolveUnary c s i op y = (do
      let t ← resolveExpr c s y .none
      if t.isNone then return .none else unaryType c i op y t) := by
  unfold resolveUnary
  split
  next j raw hlit => exact .inl ⟨j, .int, raw, rfl, .inl rfl, hlit, rfl⟩
  next j raw hlit => exact .inl ⟨j, .long, raw, rfl, .inr rfl, hlit, rfl⟩
  next => exact .inr rfl

theorem derived_unary (hA : Steady) (hR : Resolving told) {i : Info} {op : Operator} {y : Expr}
    {p : Bool} (hop : op = .pos ∨ op = .neg ∨ op = .bitNot ∨ op = .not) (hy : y.Calculation)
    (hx : Pending told c.isQuiet (.unary i op y p) w)
    (h : resolveUnary c s i op y w = .ok t w') :
    Derived told c.isQuiet (.unary i op y p) w w' t := by
  obtain ⟨j, kind, raw, rfl, hkind, hlit, heq⟩ | heq := resolveUnary_cases c s i op y
  · rw [heq] at h
    exact derived_negated hA hkind hy hlit hx h
  · rw [heq] at h
    obtain ⟨ty, w₁, hask, h⟩ := bind_ok h
    have hstart := Ahead.start told c.isQuiet w
    have hres := hR hy (.inl rfl) (hstart.pending hx rfl) hask
    have hahead : Ahead told c.isQuiet [y] w w₁ := hstart.next hx rfl hres
    obtain rfl | ⟨b, hb, rfl, -⟩ := hres.suits
    · cases h
      exact hahead.derived hx (.inl rfl)
    · rw [BasicType.base_isNone hb] at h
      exact derived_unaryType hA hop hb hx hahead hres h

end Lookup

end Javelin
