import Javelin.Proofs.Resolve.Recorded

/-!
# Resolving binary operators, casts and conditionals

What resolving such an expression derives, if its operands are resolved as they should.

1. Binary operators: what each plan records.
2. Casts to primitive types.
3. Conditionals, whose type comes from the types of both branches.
-/

namespace Javelin

open Run World

namespace Lookup

variable [Answers] {told : Prop} {c : Context} {s : Scope} {target t : TypeId} {w w' : World}

/-! ## Binary operators -/

omit [Answers] in
/-- Folding a binary operator records nothing or the value of the operator. -/
theorem foldBinary_run {x l r : Info} {op : Operator} {b : BasicType}
    (h : foldBinary c x l r op b w = .ok () w') :
    w' = w ∨ ∃ u v k, (w.constants c.isQuiet)[l.id]? = some u ∧
      (w.constants c.isQuiet)[r.id]? = some v ∧ Constant.binary op u v b = some k ∧
      w' = w.recordConstant c.isQuiet x.id k := by
  unfold foldBinary at h
  replace h := bind_rest (constantOf_run c l w) h
  cases hu : (w.constants c.isQuiet)[l.id]? with
  | none =>
    rw [hu] at h
    cases h
    exact .inl rfl
  | some u =>
    rw [hu] at h
    replace h := bind_rest (constantOf_run c r w) h
    cases hv : (w.constants c.isQuiet)[r.id]? with
    | none =>
      rw [hv] at h
      cases h
      exact .inl rfl
    | some v =>
      rw [hv] at h
      dsimp only at h
      cases hk : Constant.binary op u v b with
      | none =>
        rw [hk] at h
        cases h
        exact .inl rfl
      | some k =>
        rw [hk] at h
        cases h
        exact .inr ⟨u, v, k, rfl, rfl, hk, rfl⟩

/-- Converting both operands and folding. -/
theorem derived_promotedBoth {i : Info} {op : Operator} {y z : Expr} {a b o r : BasicType}
    {w₁ : World} (hx : Pending told c.isQuiet (.binary i op y z) w)
    (hahead : Ahead told c.isQuiet [y, z] w w₁) (hr : r.isPrimitive)
    (htest : r = .boolean ↔ (Expr.binary i op y z).isTest)
    (hfold : ∀ u v k, (w₁.constants c.isQuiet)[y.info.id]? = some u →
      (w₁.constants c.isQuiet)[z.info.id]? = some v → Constant.binary op u v o = some k →
      k.type = r ∧ (Expr.binary i op y z).Holds told k)
    (h : (do
      convert c y.info a
      convert c z.info b
      foldBinary c i y.info z.info op o) w₁ = .ok () w') :
    Derived told c.isQuiet (.binary i op y z) w w' (base r) := by
  have hw₁ := hx.ready.of_kept hahead.kept
  obtain ⟨_, w₂, hone, h⟩ := bind_ok h
  have hn := convert_noted hw₁ hone
  obtain ⟨_, w₃, htwo, hfolded⟩ := bind_ok h
  replace hn := hn.trans (convert_noted (hw₁.of_kept hn.kept) htwo)
  obtain rfl | ⟨u, v, k, hu, hv, hk, rfl⟩ := foldBinary_run hfolded
  · exact (hahead.noted hn).derived hx (.inr ⟨r, hr, rfl, htest⟩)
  · rw [hn.constants] at hu hv
    obtain ⟨rfl, hholds⟩ := hfold u v k hu hv hk
    exact (hahead.noted hn).record hx hholds

omit [Answers] in
/-- An operator that works on truth values gives one. -/
theorem isTest_of_truths {i : Info} {op : Operator} {y z : Expr} (hy : y.isTest)
    (h : BinaryPlan.of op .boolean .boolean false false false = .primitive .boolean .boolean) :
    (Expr.binary i op y z).isTest := by
  cases op <;> first | rfl | exact hy | cases h

/-- The types of two operands. -/
structure Sides (told : Prop) (quiet : Bool) (y z : Expr) (a b : BasicType) (w : World) : Prop where
  left : a.isPrimitive
  right : b.isPrimitive
  leftTest : a = .boolean ↔ y.isTest
  leftConstant : ∀ k, (w.constants quiet)[y.info.id]? = some k → k.type = a ∧ y.Holds told k
  rightConstant : ∀ k, (w.constants quiet)[z.info.id]? = some k → k.type = b ∧ z.Holds told k

theorem derived_primitive {i : Info} {op : Operator} {y z : Expr} {a b o r : BasicType}
    {w₁ : World} (hx : Pending told c.isQuiet (.binary i op y z) w)
    (hahead : Ahead told c.isQuiet [y, z] w w₁) (hs : Sides told c.isQuiet y z a b w₁)
    (hplan : BinaryPlan.of op a b false false false = .primitive o r)
    (h : promoteBoth c i y.info z.info op o w₁ = .ok () w') :
    Derived told c.isQuiet (.binary i op y z) w w' (base r) := by
  obtain ⟨hshift, ⟨rfl, rfl, rfl, rfl⟩ | ⟨rfl, hn, rfl, hand, hor⟩⟩ := BinaryPlan.of_primitive hplan
  · refine derived_promotedBoth hx hahead rfl (iff_of_true rfl ?_) (fun u v k hu hv hk => ?_) h
    · exact isTest_of_truths (hs.leftTest.1 rfl) hplan
    · obtain ⟨-, -, -, -, -, ht⟩ := Constant.binary_boolean hk
      exact ⟨ht, (hs.leftConstant u hu).2.truths (hs.rightConstant v hv).2 hk⟩
  · obtain ⟨ha, hb⟩ := BasicType.isNumeric_of_promotedWith hn
    have hyt : ¬ y.isTest := fun hy => BasicType.ne_boolean_of_numeric ha (hs.leftTest.2 hy)
    refine derived_promotedBoth hx hahead ?_ ?_ (fun u v k hu hv hk => ?_) h
    · unfold Constant.resultType
      split
      · rfl
      · exact BasicType.isPrimitive_of_numeric hn
    · unfold Constant.resultType
      split
      next hc => exact iff_of_true rfl (by simp [Expr.isTest, hc])
      next hc =>
        exact iff_of_false (BasicType.ne_boolean_of_numeric hn)
          (by simp [Expr.isTest, hc, hand, hor, hyt])
    · obtain ⟨rfl, hu⟩ := hs.leftConstant u hu
      obtain ⟨rfl, hv⟩ := hs.rightConstant v hv
      exact ⟨Constant.binary_type hn hk, hu.numbers hv hshift hand hor ha hb hk⟩

theorem derived_shift {i : Info} {op : Operator} {y z : Expr} {a b v d : BasicType} {w₁ : World}
    (hx : Pending told c.isQuiet (.binary i op y z) w)
    (hahead : Ahead told c.isQuiet [y, z] w w₁) (hs : Sides told c.isQuiet y z a b w₁)
    (hplan : BinaryPlan.of op a b false false false = .shift v d)
    (h : (do
      convert c y.info v
      convert c z.info d
      foldBinary c i y.info z.info op v) w₁ = .ok () w') :
    Derived told c.isQuiet (.binary i op y z) w w' (base v) := by
  obtain ⟨hshift, rfl, rfl, ha, hb⟩ := BinaryPlan.of_shift hplan
  have hn := BasicType.isNumeric_of_integral ha
  have htest : (Expr.binary i op y z).isTest = false := by
    cases op <;> first | rfl | cases hshift
  have hresult : Constant.resultType op a.promoted = a.promoted := by
    cases op <;> first | rfl | cases hshift
  refine derived_promotedBoth hx hahead (BasicType.isPrimitive_of_numeric hn)
    (iff_of_false (BasicType.ne_boolean_of_numeric hn) (by simp [htest]))
    (fun u v k hu hv hk => ?_) h
  obtain ⟨rfl, hu⟩ := hs.leftConstant u hu
  obtain ⟨rfl, hv⟩ := hs.rightConstant v hv
  exact ⟨(Constant.binary_type hn hk).trans hresult, hu.shift hv hshift ha hb hk⟩

theorem derived_binaryResult (hA : Steady) {i : Info} {op : Operator} {y z : Expr}
    {a b : BasicType} {w₁ : World} (hx : Pending told c.isQuiet (.binary i op y z) w)
    (hahead : Ahead told c.isQuiet [y, z] w w₁) (hs : Sides told c.isQuiet y z a b w₁)
    (h : binaryResult c i op y z (base a) (base b) w₁ = .ok t w') :
    Derived told c.isQuiet (.binary i op y z) w w' t := by
  have hw₁ := hx.ready.of_kept hahead.kept
  have hset := hw₁.settled
  have hstring : andAlso (pure (op == .add)) (orElse (isString (base a)) (isString (base b))) w₁ =
      .ok false w₁ := by
    have hnone : orElse (isString (base a)) (isString (base b)) w₁ = .ok false w₁ :=
      (bind_run (isString_base hset hs.left)).trans (isString_base hset hs.right)
    cases hop : op == .add with
    | false => rfl
    | true => exact hnone
  unfold binaryResult at h
  replace h := bind_rest (primitiveOf_base hset hs.left) h
  replace h := bind_rest (primitiveOf_base hset hs.right) h
  dsimp only at h
  rw [beq_eq_false_iff_ne.2 (BasicType.ne_void hs.left),
    beq_eq_false_iff_ne.2 (BasicType.ne_void hs.right)] at h
  replace h := bind_rest hstring h
  replace h := bind_rest (basicType_base hset hs.left) h
  replace h := bind_rest (basicType_base hset hs.right) h
  rw [beq_eq_false_iff_ne.2 (BasicType.ne_undefined hs.left),
    beq_eq_false_iff_ne.2 (BasicType.ne_undefined hs.right)] at h
  cases hplan : BinaryPlan.of op a b false false false with
  | primitive o r =>
    rw [hplan] at h
    obtain ⟨_, w₂, hrun, h⟩ := bind_ok h
    cases h
    exact derived_primitive hx hahead hs hplan hrun
  | shift v d =>
    rw [hplan] at h
    obtain ⟨_, w₂, hone, h⟩ := bind_ok h
    obtain ⟨_, w₃, htwo, h⟩ := bind_ok h
    obtain ⟨_, w₄, hfold, h⟩ := bind_ok h
    cases h
    exact derived_shift hx hahead hs hplan ((bind_run hone).trans ((bind_run htwo).trans hfold))
  | concat => exact absurd hplan BinaryPlan.of_ne_concat
  | identity => exact absurd hplan BinaryPlan.of_ne_identity
  | invalid =>
    rw [hplan] at h
    obtain ⟨w₂, hn, hend⟩ := complaint_noted_two hA (f := fun s t => [op.text, s ++ ", " ++ t]) hw₁
      hs.left hs.right h
    cases hend
    exact (hahead.noted hn).derived hx (.inl rfl)

theorem derived_binary (hA : Steady) (hR : Resolving told) {i : Info} {op : Operator} {y z : Expr}
    (hy : y.Calculation) (hz : z.Calculation)
    (hx : Pending told c.isQuiet (.binary i op y z) w)
    (h : resolveBinary c s i op y z w = .ok t w') :
    Derived told c.isQuiet (.binary i op y z) w w' t := by
  unfold resolveBinary at h
  obtain ⟨ty, w₁, hasky, h⟩ := bind_ok h
  obtain ⟨tz, w₂, haskz, h⟩ := bind_ok h
  have hstart := Ahead.start told c.isQuiet w
  have hresy := hR hy (.inl rfl) (hstart.pending hx rfl) hasky
  have hone : Ahead told c.isQuiet [y] w w₁ := hstart.next hx rfl hresy
  have hresz := hR hz (.inl rfl) (hone.pending hx rfl) haskz
  have htwo : Ahead told c.isQuiet [y, z] w w₂ := hone.next hx rfl hresz
  have hmissing : ∀ {w'}, (pure (if op.isComparison || op == .condAnd || op == .condOr then
      base .boolean else .none) : Lookup TypeId) w₂ = .ok t w' →
      Derived told c.isQuiet (.binary i op y z) w w' t := by
    intro w' h
    cases h
    refine htwo.derived hx ?_
    split
    next hop => exact .inr ⟨.boolean, rfl, rfl, iff_of_true rfl (by simp [Expr.isTest, hop])⟩
    · exact .inl rfl
  obtain rfl | ⟨a, ha, rfl, hat⟩ := hresy.suits
  · exact hmissing h
  obtain rfl | ⟨b, hb, rfl, -⟩ := hresz.suits
  · rw [BasicType.base_isNone ha] at h
    exact hmissing h
  rw [BasicType.base_isNone ha, BasicType.base_isNone hb] at h
  refine derived_binaryResult hA hx htwo ⟨ha, hb, hat, fun k hk => ?_, fun k hk => ?_⟩ h
  · have hd := Ahead.disjoint [y] hx.apart rfl y List.mem_cons_self
    rw [(hresz.others _ fun hz => hd List.mem_cons_self hz).1] at hk
    exact hresy.constant_type ha hk
  · exact hresz.constant_type hb hk

/-! ## Casts -/

omit [Answers] in
theorem isFunction_calculation {x : Expr} (hx : x.Calculation) : x.isFunction = false := by
  induction hx with
  | paren i hx ih => exact ih
  | _ => rfl

/-- Type nodes of primitive types denote them. -/
def Denoting : Prop :=
  ∀ {c : Context} {s : Scope} {j : Info} {b : BasicType} {t : TypeId} {w w' : World},
    w.Ready c.isQuiet → resolveType c s (.primitive j b) w = .ok t w' →
    t = base b ∧ Noted c.isQuiet w w'

omit [Answers] in
theorem suits_cast {b : BasicType} (hb : b.isPrimitive) (i j : Info) (y : Expr) :
    Suits (base b) (.cast i (.primitive j b) y) :=
  .inr ⟨b, hb, rfl, beq_iff_eq.symm⟩

theorem derived_cast (hA : Steady) (hD : Denoting) (hR : Resolving told) {i j : Info}
    {b : BasicType} {y : Expr} (hb : b.isPrimitive) (hy : y.Calculation)
    (hx : Pending told c.isQuiet (.cast i (.primitive j b) y) w)
    (h : resolveCast c s i (.primitive j b) y w = .ok t w') :
    Derived told c.isQuiet (.cast i (.primitive j b) y) w w' t := by
  unfold resolveCast at h
  obtain ⟨t', w₁, hdenotes, h⟩ := bind_ok h
  obtain ⟨rfl, hn₁⟩ := hD hx.ready hdenotes
  rw [isFunction_calculation hy] at h
  obtain ⟨ty, w₂, hask, h⟩ := bind_ok h
  have hstart := (Ahead.start told c.isQuiet w).noted hn₁
  have hres := hR hy (.inl rfl) (hstart.pending hx rfl) hask
  have hahead : Ahead told c.isQuiet [y] w w₂ := hstart.next hx rfl hres
  have hw₂ := hx.ready.of_kept hahead.kept
  obtain rfl | ⟨a, ha, rfl, -⟩ := hres.suits
  · cases h
    exact hahead.derived hx (suits_cast hb i j y)
  rw [BasicType.base_isNone ha, BasicType.base_isNone hb] at h
  replace h := bind_rest (isCastable_base hw₂.settled ha hb) h
  split at h
  next =>
    replace h := bind_rest (constantOf_run c y.info w₂) h
    cases hk : (w₂.constants c.isQuiet)[y.info.id]? with
    | none =>
      rw [hk] at h
      cases h
      exact hahead.derived hx (suits_cast hb i j y)
    | some k =>
      rw [hk] at h
      replace h := bind_rest (basicType_base hw₂.settled hb) h
      rw [bne_iff_ne.2 (BasicType.ne_undefined hb)] at h
      cases hv : k.castTo b with
      | none =>
        rw [hv] at h
        cases h
        exact hahead.derived hx (suits_cast hb i j y)
      | some v =>
        rw [hv] at h
        cases h
        have hplain : told → b.isFloating = false := fun hp => hx.plain hp _ List.mem_cons_self
        have hd := hahead.record hx ((hres.constant hk).2.cast hb hplain hv)
        rwa [Constant.castTo_type hv] at hd
  next =>
    obtain ⟨w₃, hn, hend⟩ := complaint_noted_two hA (f := fun s t => [s, t]) hw₂ ha hb h
    cases hend
    exact (hahead.noted hn).derived hx (suits_cast hb i j y)

/-! ## Conditionals -/

theorem resolveCondition_run (hA : Steady) (hR : Resolving told) {x : Expr} (hx : x.Calculation)
    (htest : x.isTest) (hp : Pending told c.isQuiet x w)
    (h : resolveCondition c s x w = .ok () w') :
    ∃ t w₁, Resolved told c.isQuiet x w w₁ t ∧ Noted c.isQuiet w₁ w' := by
  unfold resolveCondition at h
  obtain ⟨t, w₁, hask, h⟩ := bind_ok h
  have hres := hR hx (.inr ⟨.boolean, rfl, rfl, iff_of_true rfl htest⟩) hp hask
  refine ⟨t, w₁, hres, ?_⟩
  have hw₁ := hp.ready.of_kept hres.kept
  obtain rfl | ⟨b, hb, rfl, hbt⟩ := hres.suits
  · cases h
    exact .refl _ _
  · obtain rfl := hbt.2 htest
    replace h := bind_rest (primitiveOf_base hw₁.settled hb) h
    refine coerce_noted hA hw₁ hb hb ?_ h
    rw [Std.HashMap.getD_eq_getD_getElem?, hres.typed]
    rfl

/-- The type that is recorded for an expression, if it has one. -/
def typedAt (quiet : Bool) (w : World) (x : Expr) : Option (TypeId × Info) :=
  let t := (w.exprTypes quiet).getD x.info.id .none
  if t.isSome then some (t, x.info) else none

omit [Answers] in
/-- The expressions that have types. -/
theorem typed_run (c : Context) (w : World) (xs : List Expr) (found : List (TypeId × Info)) :
    (forIn xs found fun x found => do
      let t ← typeOf c x.info
      if t.isSome then pure (ForInStep.yield (found ++ [(t, x.info)]))
        else pure (ForInStep.yield found) : Lookup (List (TypeId × Info))) w =
      .ok (found ++ xs.filterMap (typedAt c.isQuiet w)) w := by
  induction xs generalizing found with
  | nil =>
    rw [List.filterMap_nil, List.append_nil]
    rfl
  | cons x xs ih =>
    rw [List.forIn_cons, bind_run (a := ForInStep.yield (found ++ (typedAt c.isQuiet w x).toList))
      (t := w)]
    · refine (ih (found ++ (typedAt c.isQuiet w x).toList)).trans ?_
      cases hx : typedAt c.isQuiet w x <;> simp [hx]
    · rw [bind_run (typeOf_run c x.info w), typedAt]
      by_cases ht : ((w.exprTypes c.isQuiet).getD x.info.id .none).isSome
      · rw [if_pos ht, if_pos ht]
        rfl
      · rw [if_neg ht, if_neg ht, Option.toList_none, List.append_nil]
        rfl

theorem primitives_run {a b : BasicType} (hw : w.Settled) (ha : a.isPrimitive)
    (hb : b.isPrimitive) : [base a, base b].mapM primitiveOf w = .ok [a, b] w := by
  rw [List.mapM_cons, bind_run (primitiveOf_base hw ha), List.mapM_cons,
    bind_run (m := do
      let y ← primitiveOf (base b)
      let ys ← List.mapM primitiveOf []
      pure (y :: ys)) (a := [b]) (t := w)]
  · rfl
  · rw [bind_run (primitiveOf_base hw hb)]
    rfl

/-- The type of an expression with two results of primitive types. -/
theorem unify_two (hA : Steady) {y z : Expr} {a b : BasicType} (hw : w.Settled)
    (ha : a.isPrimitive) (hb : b.isPrimitive) (hkind : a = .boolean ↔ b = .boolean)
    (hy : typedAt c.isQuiet w y = some (base a, y.info))
    (hz : typedAt c.isQuiet w z = some (base b, z.info))
    (h : unify c [y, z] target w = .ok t w') :
    w' = w ∧ t = base (if a = b then a else numericResult
      [(a, (w.constants c.isQuiet)[y.info.id]?), (b, (w.constants c.isQuiet)[z.info.id]?)]) := by
  unfold unify at h
  replace h := bind_rest (typed_run c w [y, z] []) h
  simp only [List.filterMap_cons, hy, hz, List.filterMap_nil, List.nil_append, List.map_cons,
    List.map_nil] at h
  obtain ⟨same, w₁, hsame, hrest⟩ := bind_ok h
  obtain ⟨_, w₂, hask, hend⟩ := bind_ok hsame
  obtain ⟨rfl, rfl⟩ := hA.same hw hb ha hask
  by_cases hab : a = b
  · subst hab
    rw [decide_eq_true rfl] at hend
    cases hend
    cases hrest
    exact ⟨rfl, by rw [if_pos rfl]⟩
  · rw [decide_eq_false (Ne.symm hab)] at hend
    cases hend
    have hab' : ¬ (a = .boolean ∧ b = .boolean) := fun hh => hab (hh.1.trans hh.2.symm)
    have han : a.isNumeric := BasicType.isNumeric_of_ne ha fun h => hab' ⟨h, hkind.1 h⟩
    have hbn : b.isNumeric := BasicType.isNumeric_of_ne hb fun h => hab' ⟨hkind.2 h, h⟩
    replace hrest := bind_rest (primitives_run hw ha hb) hrest
    have hboolean : ([a, b].all fun x => x == .boolean) = false := by
      simpa using fun h hb => hab' ⟨h, hb⟩
    have hnumeric : [a, b].all BasicType.isNumeric = true := by simp [han, hbn]
    rw [hboolean, hnumeric] at hrest
    cases hrest
    exact ⟨rfl, by rw [if_neg hab]; rfl⟩

omit [Answers] in
theorem typedAt_of {quiet : Bool} {x : Expr} (h : (w.exprTypes quiet)[x.info.id]? = some t) :
    typedAt quiet w x = if t.isSome then some (t, x.info) else none := by
  unfold typedAt
  rw [Std.HashMap.getD_eq_getD_getElem?, h]
  rfl

/-- The type of an expression with two results, one of which has no type. -/
theorem unify_one {y z : Expr} {ty tz : TypeId}
    (hy : typedAt c.isQuiet w y = if ty.isSome then some (ty, y.info) else none)
    (hz : typedAt c.isQuiet w z = if tz.isSome then some (tz, z.info) else none)
    (hnone : ty = .none ∨ tz = .none) (h : unify c [y, z] target w = .ok t w') :
    w' = w ∧ (t = ty ∨ t = tz ∨ t = target) := by
  unfold unify at h
  replace h := bind_rest (typed_run c w [y, z] []) h
  rw [List.nil_append, List.filterMap_cons, List.filterMap_cons, List.filterMap_nil, hy, hz] at h
  rcases hnone with rfl | rfl
  · cases htz : tz.isSome <;> rw [htz] at h <;> cases h
    · exact ⟨rfl, .inr (.inr rfl)⟩
    · exact ⟨rfl, .inr (.inl rfl)⟩
  · cases hty : ty.isSome <;> rw [hty] at h <;> cases h
    · exact ⟨rfl, .inr (.inr rfl)⟩
    · exact ⟨rfl, .inl rfl⟩

/-- Two branches of one kind give a type of that kind, and two constants give their common type. -/
theorem unify_run (hA : Steady) {y z : Expr} {ty tz : TypeId} (hw : w.Settled)
    (hy : (w.exprTypes c.isQuiet)[y.info.id]? = some ty)
    (hz : (w.exprTypes c.isQuiet)[z.info.id]? = some tz)
    (hty : Suits ty y) (htz : Suits tz y) (ht : Suits target y)
    (hky : ∀ k, (w.constants c.isQuiet)[y.info.id]? = some k → ty = base k.type ∧ y.Holds told k)
    (hkz : ∀ k, (w.constants c.isQuiet)[z.info.id]? = some k → tz = base k.type ∧ z.Holds told k)
    (h : unify c [y, z] target w = .ok t w') :
    w' = w ∧ (t = .none ∨ ∃ b : BasicType, b.isPrimitive ∧ t = base b ∧ (b = .boolean ↔ y.isTest) ∧
      ∀ ky kz, (w.constants c.isQuiet)[y.info.id]? = some ky →
        (w.constants c.isQuiet)[z.info.id]? = some kz → b = Expr.unified ky kz) := by
  replace hy := typedAt_of hy
  replace hz := typedAt_of hz
  obtain hnone | ⟨hone, htwo⟩ : (ty = .none ∨ tz = .none) ∨ ty ≠ .none ∧ tz ≠ .none := by tauto
  · -- an expression that has a constant has a type
    have hunknown : ∀ ky kz, (w.constants c.isQuiet)[y.info.id]? = some ky →
        (w.constants c.isQuiet)[z.info.id]? = some kz → False := by
      intro ky kz hcy hcz
      rcases hnone with rfl | rfl
      · exact BasicType.base_ne_none (hky ky hcy).2.primitive (hky ky hcy).1.symm
      · exact BasicType.base_ne_none (hkz kz hcz).2.primitive (hkz kz hcz).1.symm
    obtain ⟨hw', hcases⟩ := unify_one hy hz hnone h
    have hsuits : Suits t y := by rcases hcases with rfl | rfl | rfl <;> assumption
    refine ⟨hw', hsuits.imp_right ?_⟩
    rintro ⟨b, hb, rfl, hbt⟩
    exact ⟨b, hb, rfl, hbt, fun ky kz hcy hcz => (hunknown ky kz hcy hcz).elim⟩
  · obtain ⟨a, ha, rfl, hat⟩ := hty.resolve_left hone
    obtain ⟨b, hb, rfl, hbt⟩ := htz.resolve_left htwo
    rw [if_pos (BasicType.base_isSome ha)] at hy
    rw [if_pos (BasicType.base_isSome hb)] at hz
    obtain ⟨hw', rfl⟩ := unify_two hA hw ha hb (hat.trans hbt.symm) hy hz h
    have hunified : ∀ ky kz, (w.constants c.isQuiet)[y.info.id]? = some ky →
        (w.constants c.isQuiet)[z.info.id]? = some kz → ky.type = a ∧ kz.type = b := by
      intro ky kz hcy hcz
      exact ⟨(BasicType.base_inj ha (hky ky hcy).2.primitive (hky ky hcy).1).symm,
        (BasicType.base_inj hb (hkz kz hcz).2.primitive (hkz kz hcz).1).symm⟩
    obtain ⟨hp, hboolean⟩ := commonType_kind (w.constants c.isQuiet)[y.info.id]?
      (w.constants c.isQuiet)[z.info.id]? ha hb (hat.trans hbt.symm)
    refine ⟨hw', .inr ⟨_, hp, rfl, hboolean.trans hat, fun ky kz hcy hcz => ?_⟩⟩
    obtain ⟨rfl, rfl⟩ := hunified ky kz hcy hcz
    rw [hcy, hcz]
    rfl

/-- A branch that has a type is converted to the type of the conditional. -/
theorem coerced_noted (hA : Steady) {β : Type} {x : Expr} {b : BasicType} {rest : Lookup β} {v : β}
    (hw : w.Ready c.isQuiet) (hb : b.isPrimitive)
    (ht : (w.exprTypes c.isQuiet)[x.info.id]? = some t) (hsuits : Suits t x)
    (h : (if t.isSome then do coerce c x.info (base b); rest else rest) w = .ok v w') :
    ∃ w₁, Noted c.isQuiet w w₁ ∧ rest w₁ = .ok v w' := by
  obtain rfl | ⟨a, ha, rfl, -⟩ := hsuits
  · exact ⟨w, .refl _ _, h⟩
  · rw [if_pos (BasicType.base_isSome ha)] at h
    obtain ⟨_, w₁, hcoerce, h⟩ := bind_ok h
    refine ⟨w₁, coerce_noted hA hw ha hb ?_ hcoerce, h⟩
    rw [Std.HashMap.getD_eq_getD_getElem?, ht]
    rfl

/-- Folding a conditional records nothing or the value of the branch that is taken. -/
theorem foldConditional_run {i x y z : Info} {b : BasicType} (hw : w.Settled) (hb : b.isPrimitive)
    (h : (do
      if let some k ← constantOf c x then
        if let some yes ← constantOf c y then
          if let some no ← constantOf c z then
            let v := if k.isTrue then yes else no
            let p ← basicType (base b)
            if let some w := if p == .undefined then some v else v.castTo p then
              setConstant c i w
      return base b : Lookup TypeId) w = .ok t w') :
    t = base b ∧ (w' = w ∨ ∃ kx ky kz k, (w.constants c.isQuiet)[x.id]? = some kx ∧
      (w.constants c.isQuiet)[y.id]? = some ky ∧ (w.constants c.isQuiet)[z.id]? = some kz ∧
      (if kx.isTrue then ky else kz).castTo b = some k ∧
      w' = w.recordConstant c.isQuiet i.id k) := by
  replace h := bind_rest (constantOf_run c x w) h
  cases hx : (w.constants c.isQuiet)[x.id]? with
  | none =>
    rw [hx] at h
    cases h
    exact ⟨rfl, .inl rfl⟩
  | some kx =>
  rw [hx] at h
  replace h := bind_rest (constantOf_run c y w) h
  cases hy : (w.constants c.isQuiet)[y.id]? with
  | none =>
    rw [hy] at h
    cases h
    exact ⟨rfl, .inl rfl⟩
  | some ky =>
  rw [hy] at h
  replace h := bind_rest (constantOf_run c z w) h
  cases hz : (w.constants c.isQuiet)[z.id]? with
  | none =>
    rw [hz] at h
    cases h
    exact ⟨rfl, .inl rfl⟩
  | some kz =>
  rw [hz] at h
  replace h := bind_rest (basicType_base hw hb) h
  rw [beq_eq_false_iff_ne.2 (BasicType.ne_undefined hb)] at h
  cases hk : (if kx.isTrue then ky else kz).castTo b with
  | none =>
    rw [if_neg Bool.false_ne_true, hk] at h
    cases h
    exact ⟨rfl, .inl rfl⟩
  | some k =>
    rw [if_neg Bool.false_ne_true, hk] at h
    cases h
    exact ⟨rfl, .inr ⟨kx, ky, kz, k, rfl, rfl, rfl, hk, rfl⟩⟩

theorem derived_conditional (hA : Steady) (hR : Resolving told) {i : Info} {x y z : Expr}
    (hx : x.Calculation) (hy : y.Calculation) (hz : z.Calculation) (htest : x.isTest)
    (hsame : y.isTest = z.isTest) (ht : Suits target (.conditional i x y z))
    (hp : Pending told c.isQuiet (.conditional i x y z) w)
    (h : resolveConditional c s i x y z target w = .ok t w') :
    Derived told c.isQuiet (.conditional i x y z) w w' t := by
  unfold resolveConditional at h
  obtain ⟨_, w₂, hcond, h⟩ := bind_ok h
  obtain ⟨ty, w₃, hasky, h⟩ := bind_ok h
  obtain ⟨tz, w₄, haskz, h⟩ := bind_ok h
  obtain ⟨tu, w₅, hunify, h⟩ := bind_ok h
  have hstart := Ahead.start told c.isQuiet w
  obtain ⟨tx, w₁, hresx, hn⟩ := resolveCondition_run hA hR hx htest (hstart.pending hp rfl) hcond
  have hone : Ahead told c.isQuiet [x] w w₂ := (hstart.next hp rfl hresx).noted hn
  have hresy := hR hy ht (hone.pending hp rfl) hasky
  have htwo : Ahead told c.isQuiet [x, y] w w₃ := hone.next hp rfl hresy
  have hresz := hR hz (ht.of_kind hsame) (htwo.pending hp rfl) haskz
  have hthree : Ahead told c.isQuiet [x, y, z] w w₄ := htwo.next hp rfl hresz
  -- what was recorded for the first branch stays
  have hd := Ahead.disjoint [x, y] hp.apart rfl
  have hagree : Agree c.isQuiet w₃ w₄ y.info.id :=
    hresz.others _ fun hz => hd y (by simp) List.mem_cons_self hz
  have hty : (w₄.exprTypes c.isQuiet)[y.info.id]? = some ty := hagree.2.trans hresy.typed
  have hky : ∀ k, (w₄.constants c.isQuiet)[y.info.id]? = some k →
      ty = base k.type ∧ y.Holds told k := by
    intro k hk
    rw [hagree.1] at hk
    exact hresy.constant hk
  have hw₄ := hp.ready.of_kept hthree.kept
  obtain ⟨rfl, rfl | ⟨b, hb, rfl, hbt, hunified⟩⟩ := unify_run hA hw₄.settled hty hresz.typed
    hresy.suits (hresz.suits.of_kind hsame.symm) ht hky (fun k hk => hresz.constant hk) hunify
  · cases h
    exact hthree.derived hp (.inl rfl)
  · rw [BasicType.base_isNone hb] at h
    obtain ⟨w₆, hn₆, h⟩ := coerced_noted hA hw₄ hb hty hresy.suits h
    have hw₆ := hw₄.of_kept hn₆.kept
    obtain ⟨w₇, hn₇, h⟩ := coerced_noted hA hw₆ hb (hn₆.types ▸ hresz.typed) hresz.suits h
    replace hn₇ := hn₆.trans hn₇
    obtain ⟨rfl, rfl | ⟨kx, ky, kz, k, hkx, hcy, hcz, hk, rfl⟩⟩ :=
      foldConditional_run (hw₄.of_kept hn₇.kept).settled hb h
    · exact (hthree.noted hn₇).derived hp (.inr ⟨b, hb, rfl, hbt⟩)
    · rw [hn₇.constants] at hkx hcy hcz
      obtain rfl := hunified ky kz hcy hcz
      have hkx := (hthree.done x List.mem_cons_self x List.mem_cons_self kx hkx).2
      have hholds := hkx.conditional (i := i) (hky ky hcy).2 (hresz.constant hcz).2 htest hsame hk
      have hd := (hthree.noted hn₇).record hp hholds
      rwa [Constant.castTo_type hk] at hd

end Lookup

end Javelin
