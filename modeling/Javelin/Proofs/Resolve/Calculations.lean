import Javelin.Proofs.Constant.Folding
import Javelin.Proofs.Constant.Literals
import Javelin.Proofs.Resolve.Plans

/-!
# Calculations

Expressions made of literals of primitive types, parentheses, operators, casts and conditionals, and
what they evaluate to by the rules of the language.

1. `Expr.parts`, an expression and the expressions in it.
2. `Expr.Calculation`, the expressions meant here.
3. `Expr.value?`, their values as far as no floating point numbers are in them.
-/

namespace Javelin

namespace Expr

/-- The expressions in an expression, that one apart. -/
def inner : Expr → List Expr
  | .paren _ x | .unary _ _ x _ | .cast _ _ x => x :: x.inner
  | .binary _ _ x y => x :: x.inner ++ y :: y.inner
  | .conditional _ x y z => x :: x.inner ++ y :: y.inner ++ z :: z.inner
  | _ => []

/-- An expression and the expressions in it. -/
def parts (x : Expr) : List Expr := x :: x.inner

/-- The numbers of the nodes of a calculation. -/
def ids (x : Expr) : List Nat := x.parts.map fun y => y.info.id

/-- The expressions that an expression is put together from. -/
def operands : Expr → List Expr
  | .paren _ x | .unary _ _ x _ | .cast _ _ x => [x]
  | .binary _ _ x y => [x, y]
  | .conditional _ x y z => [x, y, z]
  | _ => []

theorem inner_eq (x : Expr) : x.inner = x.operands.flatMap parts := by
  cases x <;> simp [inner, operands, parts]

theorem ids_eq (x : Expr) : x.ids = x.info.id :: x.operands.flatMap ids := by
  rw [ids, parts, List.map_cons, inner_eq, List.map_flatMap]
  rfl

/-- Nodes that are numbered apart are so in the operands. -/
theorem nodup_operands {x : Expr} (h : x.ids.Nodup) :
    (∀ y ∈ x.operands, x.info.id ∉ y.ids ∧ y.ids.Nodup) ∧
      x.operands.Pairwise fun y z => y.ids.Disjoint z.ids := by
  rw [ids_eq, List.nodup_cons, List.nodup_flatMap] at h
  refine ⟨fun y hy => ⟨fun hx => h.1 ?_, h.2.1 y hy⟩, h.2.2⟩
  exact List.mem_flatMap.2 ⟨y, hy, hx⟩

/-- Whether a calculation gives a truth value. -/
def isTest : Expr → Bool
  | .literal _ kind _ => kind == .boolean
  | .paren _ x => x.isTest
  | .unary _ op _ _ => op == .not
  | .binary _ op x _ =>
    op.isComparison || op == .condAnd || op == .condOr ||
      (op == .and || op == .or || op == .xor) && x.isTest
  | .cast _ (.primitive _ t) _ => t == .boolean
  | .conditional _ _ x _ => x.isTest
  | _ => false

/-- A calculation. The condition of a conditional is a test, and its branches are both tests or both
numbers. -/
inductive Calculation : Expr → Prop
  | literal (i : Info) {kind : Literal.Kind} (raw : Text) (hk : kind.type.isPrimitive) :
    Calculation (.literal i kind raw)
  | paren (i : Info) {x : Expr} (hx : Calculation x) : Calculation (.paren i x)
  | unary (i : Info) {op : Operator} {x : Expr} (isPostfix : Bool)
      (hop : op = .pos ∨ op = .neg ∨ op = .bitNot ∨ op = .not) (hx : Calculation x) :
    Calculation (.unary i op x isPostfix)
  | binary (i : Info) (op : Operator) {x y : Expr} (hx : Calculation x) (hy : Calculation y) :
    Calculation (.binary i op x y)
  | cast (i j : Info) {t : BasicType} {x : Expr} (ht : t.isPrimitive) (hx : Calculation x) :
    Calculation (.cast i (.primitive j t) x)
  | conditional (i : Info) {x y z : Expr} (hx : Calculation x) (hy : Calculation y)
      (hz : Calculation z) (htest : x.isTest) (hsame : y.isTest = z.isTest) :
    Calculation (.conditional i x y z)

/-! ## Values -/

/-- Whether a calculation gives a number of 64 bits; it gives one of 32 bits otherwise. -/
def isLong : Expr → Bool
  | .literal _ kind _ => kind == .long
  | .paren _ x => x.isLong
  | .unary _ op x _ => op != .not && x.isLong
  | .binary _ op x y =>
    if op.isShift then x.isLong
    else !(op.isComparison || op == .condAnd || op == .condOr) && (x.isLong || y.isLong)
  | .cast _ (.primitive _ t) _ => t == .long
  | .conditional _ _ x y => x.isLong || y.isLong
  | _ => false

/-- The width that an operator computes with on operands that are long or not. -/
def bits (isLong : Bool) : Nat := if isLong then 64 else 32

end Expr

/-- A value converted by a cast to an integral type or to a truth value. -/
def Value.cast (t : BasicType) : Value → Option Value
  | .number n => if t.isIntegral then some (.number (convert n t)) else none
  | .truth b => if t = .boolean then some (.truth b) else none

namespace Expr

/-- The value of a calculation; none if it divides by zero. The second operand of `&&` and `||` and
the branches of a conditional are evaluated only if they are needed. -/
def value? : Expr → Option Value
  | .literal _ kind raw => Literal.value? kind raw
  | .paren _ x => x.value?
  | .unary _ op x _ => x.value?.bind (Value.unary (bits x.isLong) op)
  | .binary _ .condAnd x y =>
    match x.value? with
    | some (.truth true) => y.value?
    | some (.truth false) => some (.truth false)
    | _ => none
  | .binary _ .condOr x y =>
    match x.value? with
    | some (.truth true) => some (.truth true)
    | some (.truth false) => y.value?
    | _ => none
  | .binary _ op x y =>
    let width := bits (if op.isShift then x.isLong else x.isLong || y.isLong)
    x.value?.bind fun a => y.value?.bind fun b => Value.binary width op a b
  | .cast _ (.primitive _ t) x => x.value?.bind (Value.cast t)
  | .conditional _ x y z =>
    match x.value? with
    | some (.truth true) => y.value?
    | some (.truth false) => z.value?
    | _ => none
  | _ => none

/-- Whether a node is one of those whose values are told here: a literal is spelled by the rules of
the language and no floating point number, there is no cast to a floating point number, and no minus
stands before an integer literal. -/
def isPlain : Expr → Prop
  | .literal _ kind raw => Literal.IsSpelled kind raw
  | .unary _ op x _ => op = .neg → ∀ i kind raw, x.withoutParens = .literal i kind raw →
      kind ≠ .int ∧ kind ≠ .long
  | .cast _ (.primitive _ t) _ => t.isFloating = false
  | _ => True

/-- A calculation all of whose nodes are plain. -/
def Plain (x : Expr) : Prop := ∀ y ∈ x.parts, y.isPlain

section

-- makes the equations of these functions once, before the proofs that unfold them side by side
attribute [local simp] inner isTest isLong value? isPlain

end

/-- What has to hold of a constant that is recorded for a calculation: it has a primitive type, of
the kind that the calculation gives, and, where values are told, the value of the calculation. -/
structure Holds (told : Prop) (x : Expr) (k : Constant) : Prop where
  primitive : k.type.isPrimitive
  test : k.type = .boolean ↔ x.isTest
  long : told → (k.type = .long ↔ x.isLong)
  value : told → ∃ v, k.value? = some v ∧ x.value? = some v

end Expr

/-! ## Constants of calculations -/

namespace Expr

variable {told : Prop}

theorem Holds.literal {i : Info} {kind : Literal.Kind} {raw : Text} {k : Constant}
    (hk : kind.type.isPrimitive) (hspelled : told → Literal.IsSpelled kind raw)
    (h : Literal.constant kind raw false = .ok (some k)) :
    Holds told (.literal i kind raw) k := by
  have ht := Literal.constant_type h
  refine ⟨ht ▸ hk, ?_, fun _ => ?_, fun hp => ?_⟩
  · rw [ht, Literal.Kind.type_eq_boolean]
    exact beq_iff_eq.symm
  · rw [ht, Literal.Kind.type_eq_long]
    exact beq_iff_eq.symm
  · exact Literal.constant_value? (hspelled hp) h

theorem Holds.paren {i : Info} {x : Expr} {k : Constant} (h : Holds told x k) :
    Holds told (.paren i x) k :=
  ⟨h.primitive, h.test, h.long, h.value⟩

/-- A numeric constant of a plain calculation is a whole number. -/
theorem Holds.number {x : Expr} {c : Constant} (h : Holds told x c) (hp : told)
    (hn : c.type.isNumeric) : ∃ n, c.integer? = some n ∧ x.value? = some (.number n) := by
  obtain ⟨v, hv, hx⟩ := h.value hp
  cases v with
  | truth b =>
    rw [Constant.value?_truth hv] at hn
    cases hn
  | number n => exact ⟨n, Constant.integer?_of_value hv, hx⟩

theorem width_eq {t : BasicType} {long : Bool} (h : t = .long ↔ long) :
    Constant.width t = bits long := by
  unfold Constant.width bits
  simp only [h]

/-- A prefix operator on a number. -/
theorem Holds.unary {i : Info} {op : Operator} {x : Expr} {p : Bool} {c k : Constant}
    (hop : op = .pos ∨ op = .neg ∨ op = .bitNot) (hx : Holds told x c) (hn : c.type.isNumeric)
    (h : Constant.unary op c c.type.promoted = some k) : Holds told (.unary i op x p) k := by
  have hnot : op ≠ .not := by rcases hop with rfl | rfl | rfl <;> nofun
  have ht := Constant.unary_type hnot h
  have hkn : k.type.isNumeric := ht ▸ BasicType.promoted_isNumeric hn
  refine ⟨BasicType.isPrimitive_of_numeric hkn, ?_, fun hp => ?_, fun hp => ?_⟩
  · exact iff_of_false (BasicType.ne_boolean_of_numeric hkn) (by simpa [isTest] using hnot)
  · have hlong := hx.long hp
    rw [ht, BasicType.promoted_eq_long, hlong]
    simp [isLong, hnot]
  · obtain ⟨n, hc, hv⟩ := hx.number hp hn
    have hwidens := BasicType.widens_promoted (Constant.isIntegral_of_integer? hc)
    have hk := (Constant.unary_number hnot hwidens hc h).1
    rw [width_eq (BasicType.promoted_eq_long.trans (hx.long hp))] at hk
    have hval : (Expr.unary i op x p).value? = Value.unary (bits x.isLong) op (.number n) := by
      simp only [value?, hv, Option.bind_some]
    rw [hval, hk]
    rcases hop with rfl | rfl | rfl <;> exact ⟨_, rfl, rfl⟩

/-- The negation of a truth value. -/
theorem Holds.not {i : Info} {x : Expr} {p : Bool} {c k : Constant} {t : BasicType}
    (hx : Holds told x c) (h : Constant.unary .not c t = some k) :
    Holds told (.unary i .not x p) k := by
  obtain ⟨b, rfl, rfl⟩ := Constant.unary_not h
  refine ⟨rfl, iff_of_true rfl rfl, fun _ => iff_of_false nofun nofun, fun hp => ?_⟩
  obtain ⟨v, hv, hvx⟩ := hx.value hp
  cases hv
  refine ⟨_, rfl, ?_⟩
  simp only [value?, hvx, Option.bind_some]
  rfl

theorem value?_binary (i : Info) {op : Operator} (x y : Expr) (hand : op ≠ .condAnd)
    (hor : op ≠ .condOr) : (Expr.binary i op x y).value? =
      x.value?.bind fun a => y.value?.bind fun b =>
        Value.binary (bits (if op.isShift then x.isLong else x.isLong || y.isLong)) op a b := by
  cases op <;> first | rfl | exact absurd rfl hand | exact absurd rfl hor

/-- An operator on truth values. -/
theorem Holds.truths {i : Info} {op : Operator} {x y : Expr} {l r k : Constant}
    (hx : Holds told x l) (hy : Holds told y r) (h : Constant.binary op l r .boolean = some k) :
    Holds told (.binary i op x y) k := by
  obtain ⟨a, b, rfl, rfl, hk, ht⟩ := Constant.binary_boolean h
  have hxt : x.isTest := hx.test.1 rfl
  refine ⟨ht ▸ rfl, iff_of_true ht ?_, fun hp => iff_of_false (ht ▸ nofun) ?_, fun hp => ?_⟩
  · cases op <;> first | rfl | exact hxt | cases h
  · have hxl : ¬ x.isLong := fun hl => nomatch (hx.long hp).2 hl
    have hyl : ¬ y.isLong := fun hl => nomatch (hy.long hp).2 hl
    cases op <;> simp [isLong, hxl, hyl]
  · obtain ⟨v, hv, hvx⟩ := hx.value hp
    obtain ⟨u, hu, hvy⟩ := hy.value hp
    cases hv
    cases hu
    rw [hk]
    cases op
    case and | or | xor | eq | ne | condAnd | condOr =>
      refine ⟨_, rfl, ?_⟩
      simp only [value?, hvx, hvy]
      cases a <;> rfl
    all_goals cases h

/-- An operator on numbers that are promoted to one type. -/
theorem Holds.numbers {i : Info} {op : Operator} {x y : Expr} {l r k : Constant}
    (hx : Holds told x l) (hy : Holds told y r) (hop : op.isShift = false) (hand : op ≠ .condAnd) (hor : op ≠ .condOr)
    (hl : l.type.isNumeric) (hr : r.type.isNumeric)
    (h : Constant.binary op l r (l.type.promotedWith r.type) = some k) :
    Holds told (.binary i op x y) k := by
  have hn := BasicType.promotedWith_isNumeric (BasicType.promotedWith_of_numeric hl hr)
  have ht := Constant.binary_type hn h
  have hxt : x.isTest = false := by
    by_contra hx'
    exact BasicType.ne_boolean_of_numeric hl (hx.test.2 (by simpa using hx'))
  have hkind : k.type = .boolean ∧ op.isComparison ∨
      k.type = l.type.promotedWith r.type ∧ op.isComparison = false := by
    unfold Constant.resultType at ht
    split at ht
    next hc => exact .inl ⟨ht, hc⟩
    next hc => exact .inr ⟨ht, by simpa using hc⟩
  refine ⟨?_, ?_, fun hp => ?_, fun hp => ?_⟩
  · rcases hkind with ⟨hb, -⟩ | ⟨hb, -⟩
    · exact hb ▸ rfl
    · exact hb ▸ BasicType.isPrimitive_of_numeric hn
  · rcases hkind with ⟨hb, hc⟩ | ⟨hb, hc⟩
    · exact iff_of_true hb (by simp [isTest, hc])
    · exact iff_of_false (hb ▸ BasicType.ne_boolean_of_numeric hn)
        (by simp [isTest, hc, hand, hor, hxt])
  · obtain ⟨m, hm, -⟩ := hx.number hp hl
    obtain ⟨n, hn', -⟩ := hy.number hp hr
    rcases hkind with ⟨hb, hc⟩ | ⟨hb, hc⟩
    · exact iff_of_false (hb ▸ nofun) (by simp [isLong, hop, hc])
    · rw [hb, BasicType.promotedWith_eq_long (Constant.isIntegral_of_integer? hm)
        (Constant.isIntegral_of_integer? hn'), hx.long hp, hy.long hp]
      simp [isLong, hop, hc, hand, hor]
  · obtain ⟨m, hm, hvx⟩ := hx.number hp hl
    obtain ⟨n, hn', hvy⟩ := hy.number hp hr
    have hml := Constant.isIntegral_of_integer? hm
    have hnr := Constant.isIntegral_of_integer? hn'
    have hw := BasicType.widens_promotedWith hml hnr
    have hk := (Constant.binary_number hop hw.1 hw.2 hm hn' h).1
    have hlong : l.type.promotedWith r.type = .long ↔ (x.isLong || y.isLong) := by
      rw [BasicType.promotedWith_eq_long hml hnr, hx.long hp, hy.long hp, Bool.or_eq_true]
    obtain ⟨v, hv⟩ := Constant.value?_isSome (k := k) (by
      rcases hkind with ⟨hb, -⟩ | ⟨hb, -⟩
      · exact .inl hb
      · exact .inr (hb ▸ hw.1.isIntegral))
    refine ⟨v, hv, ?_⟩
    rw [width_eq hlong] at hk
    rw [value?_binary i x y hand hor, hvx, hvy, hop]
    exact hk.symm.trans hv

/-- A shift. -/
theorem Holds.shift {i : Info} {op : Operator} {x y : Expr} {l r k : Constant}
    (hx : Holds told x l) (hy : Holds told y r) (hop : op.isShift) (hl : l.type.promoted.isIntegral)
    (hr : r.type.promoted.isIntegral)
    (h : Constant.binary op l r l.type.promoted = some k) : Holds told (.binary i op x y) k := by
  have hkn := BasicType.isNumeric_of_integral hl
  have hresult : Constant.resultType op l.type.promoted = l.type.promoted := by
    cases op <;> first | rfl | cases hop
  have ht := (Constant.binary_type hkn h).trans hresult
  have hli := BasicType.isIntegral_of_promoted hl
  refine ⟨ht ▸ BasicType.isPrimitive_of_numeric hkn, ?_, fun hp => ?_, fun hp => ?_⟩
  · have htest : (Expr.binary i op x y).isTest = false := by
      cases op <;> first | rfl | cases hop
    exact iff_of_false (ht ▸ BasicType.ne_boolean_of_numeric hkn) (by rw [htest]; nofun)
  · rw [ht, BasicType.promoted_eq_long, hx.long hp]
    simp [isLong, hop]
  · obtain ⟨m, hm, hvx⟩ := hx.number hp (BasicType.isNumeric_of_integral hli)
    have hri := BasicType.isIntegral_of_promoted hr
    obtain ⟨n, hn, hvy⟩ := hy.number hp (BasicType.isNumeric_of_integral hri)
    have hk := (Constant.binary_shift hop (BasicType.widens_promoted hli) hm hn h).1
    obtain ⟨v, hv⟩ := Constant.value?_isSome (k := k) (.inr (ht ▸ hl))
    refine ⟨v, hv, ?_⟩
    rw [width_eq (BasicType.promoted_eq_long.trans (hx.long hp))] at hk
    have hand : op ≠ .condAnd := by rintro rfl; cases hop
    have hor : op ≠ .condOr := by rintro rfl; cases hop
    rw [value?_binary i x y hand hor, hvx, hvy, hop]
    exact hk.symm.trans hv

/-- A cast to a primitive type. -/
theorem Holds.cast {i j : Info} {x : Expr} {t : BasicType} {c k : Constant} (ht : t.isPrimitive)
    (hintegral : told → t.isFloating = false) (hx : Holds told x c) (h : c.castTo t = some k) :
    Holds told (.cast i (.primitive j t) x) k := by
  have hk := Constant.castTo_type h
  refine ⟨hk ▸ ht, hk ▸ beq_iff_eq.symm, fun _ => hk ▸ beq_iff_eq.symm, fun hp => ?_⟩
  have hfloating := hintegral hp
  obtain ⟨v, hv, hvx⟩ := hx.value hp
  have hval : (Expr.cast i (.primitive j t) x).value? = Value.cast t v := by
    simp only [value?, hvx, Option.bind_some]
  rw [hval]
  cases v with
  | truth b =>
    obtain rfl := Constant.value?_truth hv
    have hb : t = .boolean := by
      cases t <;> first | rfl | cases h
    subst hb
    cases h
    exact ⟨_, rfl, rfl⟩
  | number n =>
    have hc := Constant.integer?_of_value hv
    have hb : t ≠ .boolean := by
      rintro rfl
      rw [Constant.castTo_boolean h] at hk
      have hi := Constant.isIntegral_of_integer? hc
      rw [hk] at hi
      cases hi
    have hi : t.isIntegral := by
      simpa [BasicType.isPrimitive, BasicType.isNumeric, hb, hfloating] using ht
    have hn := (Constant.castTo_integral hi hc h).1
    exact ⟨_, Constant.value?_of_integer hn, by simp [Value.cast, hi]⟩

end Expr

/-! ### Conditionals -/

namespace Expr

/-- The type of a conditional whose branches are constants. -/
def unified (y z : Constant) : BasicType :=
  if y.type = z.type then y.type else Lookup.numericResult [(y.type, some y), (z.type, some z)]

/-- The branches of a conditional keep their numbers when they are converted to its type. -/
theorem castTo_unified {y z c k : Constant} {m n l : Int} (hab : y.type ≠ z.type)
    (hy : y.integer? = some m) (hz : z.integer? = some n) (hc : c = y ∨ c = z)
    (hl : c.integer? = some l) (h : c.castTo (unified y z) = some k) : k.integer? = some l := by
  have hyi := Constant.isIntegral_of_integer? hy
  have hzi := Constant.isIntegral_of_integer? hz
  rw [unified, if_neg hab] at h
  obtain hp | ⟨-, hpi, hfits⟩ := Lookup.numericResult_two (BasicType.isNumeric_of_integral hyi) hab
  · have hwidens := BasicType.widens_promotedWith hyi hzi
    rw [hp] at h
    rcases hc with rfl | rfl
    · exact (Constant.castTo_widens hwidens.1 hl h).1
    · exact (Constant.castTo_widens hwidens.2 hl h).1
  · have hk := (Constant.castTo_integral hpi hl h).1
    suffices hconvert : Value.convert l _ = l by rwa [hconvert] at hk
    rcases hc with rfl | rfl
    · rcases hfits with ⟨-, -, hfits⟩ | ⟨-, htype, -⟩
      · exact Constant.convert_of_fitsIn hl hfits
      · rw [← htype]
        exact Constant.convert_type hl
    · rcases hfits with ⟨-, htype, -⟩ | ⟨-, -, hfits⟩
      · rw [← htype]
        exact Constant.convert_type hl
      · exact Constant.convert_of_fitsIn hl hfits

theorem unified_eq_long {y z : Constant} (hy : y.type.isIntegral) (hz : z.type.isIntegral)
    (hab : y.type ≠ z.type) : unified y z = .long ↔ y.type = .long ∨ z.type = .long := by
  rw [unified, if_neg hab]
  have hyn := BasicType.isNumeric_of_integral hy
  obtain hp | ⟨hp, -, hfits⟩ := @Lookup.numericResult_two _ _ y z hyn hab
  · rw [hp, BasicType.promotedWith_eq_long hy hz]
  · refine iff_of_false hp ?_
    rintro (hl | hl)
    · rcases hfits with ⟨hint, -, -⟩ | ⟨-, heq, -⟩
      · rw [hl] at hint; cases hint
      · exact hp (heq.symm.trans hl)
    · rcases hfits with ⟨-, heq, -⟩ | ⟨hint, -, -⟩
      · exact hp (heq.symm.trans hl)
      · rw [hl] at hint; cases hint

theorem value?_conditional {i : Info} {x y z : Expr} {b : Bool} (hx : x.value? = some (.truth b)) :
    (Expr.conditional i x y z).value? = if b then y.value? else z.value? := by
  simp only [value?, hx]
  cases b <;> rfl

/-- A conditional with branches of one type. -/
theorem Holds.conditional_same {i : Info} {x y z : Expr} {b : Bool} {ky kz : Constant}
    (hx : Holds told x (.boolean b)) (hy : Holds told y ky) (hz : Holds told z kz)
    (hab : ky.type = kz.type) : Holds told (.conditional i x y z) (if b then ky else kz) := by
  have ht : (if b then ky else kz).type = ky.type := by
    cases b
    · exact hab.symm
    · rfl
  refine ⟨ht ▸ hy.primitive, ht ▸ hy.test, fun hp => ?_, fun hp => ?_⟩
  · have hl : y.isLong = true ↔ z.isLong = true := by
      rw [← hy.long hp, ← hz.long hp, hab]
    rw [ht, hy.long hp]
    simp [isLong, ← hl]
  · obtain ⟨v, hv, hvx⟩ := hx.value hp
    cases hv
    rw [value?_conditional hvx]
    cases b
    · exact hz.value hp
    · exact hy.value hp

/-- A conditional with numeric branches of different types. -/
theorem Holds.conditional_numbers {i : Info} {x y z : Expr} {b : Bool} {ky kz k : Constant}
    (hx : Holds told x (.boolean b)) (hy : Holds told y ky) (hz : Holds told z kz)
    (hab : ky.type ≠ kz.type) (hyn : ky.type.isNumeric) (hzn : kz.type.isNumeric)
    (h : (if b then ky else kz).castTo (unified ky kz) = some k) :
    Holds told (.conditional i x y z) k := by
  have ht := Constant.castTo_type h
  have hkn : k.type.isNumeric := by
    rw [ht, unified, if_neg hab]
    exact Lookup.numericResult_isNumeric _ _ hyn hzn
  have hyt : ¬ y.isTest := fun h => BasicType.ne_boolean_of_numeric hyn (hy.test.2 h)
  have hkb := BasicType.ne_boolean_of_numeric hkn
  refine ⟨BasicType.isPrimitive_of_numeric hkn, iff_of_false hkb hyt, fun hp => ?_, fun hp => ?_⟩
  · obtain ⟨m, hm, -⟩ := hy.number hp hyn
    obtain ⟨n, hn, -⟩ := hz.number hp hzn
    rw [ht, unified_eq_long (Constant.isIntegral_of_integer? hm)
      (Constant.isIntegral_of_integer? hn) hab, hy.long hp, hz.long hp]
    simp [isLong]
  · obtain ⟨m, hm, hvy⟩ := hy.number hp hyn
    obtain ⟨n, hn, hvz⟩ := hz.number hp hzn
    obtain ⟨v, hv, hvx⟩ := hx.value hp
    cases hv
    rw [value?_conditional hvx, hvy, hvz]
    cases b
    · have hk := castTo_unified hab hm hn (.inr rfl) hn h
      exact ⟨_, Constant.value?_of_integer hk, rfl⟩
    · have hk := castTo_unified hab hm hn (.inl rfl) hm h
      exact ⟨_, Constant.value?_of_integer hk, rfl⟩

/-- A conditional with constants for its condition and both branches. -/
theorem Holds.conditional {i : Info} {x y z : Expr} {b ky kz k : Constant} (hx : Holds told x b)
    (hy : Holds told y ky) (hz : Holds told z kz) (htest : x.isTest) (hsame : y.isTest = z.isTest)
    (h : (if b.isTrue then ky else kz).castTo (unified ky kz) = some k) :
    Holds told (.conditional i x y z) k := by
  obtain ⟨v, rfl⟩ : ∃ v, b = .boolean v := by
    have hb := hx.test.2 htest
    cases b <;> first | exact ⟨_, rfl⟩ | cases hb
  by_cases hab : ky.type = kz.type
  · rw [unified, if_pos hab] at h
    obtain rfl : k = if v then ky else kz := by
      cases v
      · exact Constant.castTo_self (hab ▸ h)
      · exact Constant.castTo_self h
    exact hx.conditional_same hy hz hab
  · have hyb : ky.type ≠ .boolean := by
      intro hb
      have hzb := hz.test.2 (hsame ▸ hy.test.1 hb)
      exact hab (hb.trans hzb.symm)
    have hzb : kz.type ≠ .boolean := by
      intro hb
      have hyb' := hy.test.2 (hsame.symm ▸ hz.test.1 hb)
      exact hyb hyb'
    exact hx.conditional_numbers hy hz hab (BasicType.isNumeric_of_ne hy.primitive hyb)
      (BasicType.isNumeric_of_ne hz.primitive hzb) h

end Expr

end Javelin
