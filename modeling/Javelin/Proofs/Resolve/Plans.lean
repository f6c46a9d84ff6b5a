import Javelin.Proofs.Constant.Arithmetic
import Javelin.Resolve.Operators

/-!
# Plans of operators

What an operator does with operands of primitive types.

1. Promotion of one operand and of two.
2. `BinaryPlan`: the plans for operands of primitive types.
3. The common type of the branches of a conditional.
-/

namespace Javelin

/-! ## Promotion -/

namespace BasicType

theorem isPrimitive_of_numeric {t : BasicType} (h : t.isNumeric) : t.isPrimitive := by
  rw [BasicType.isPrimitive, h, Bool.or_true]

theorem ne_boolean_of_numeric {t : BasicType} (h : t.isNumeric) : t ≠ .boolean := by
  rintro rfl
  cases h

theorem isNumeric_of_integral {t : BasicType} (h : t.isIntegral) : t.isNumeric := by
  rw [BasicType.isNumeric, h, Bool.true_or]

theorem isNumeric_of_ne {t : BasicType} (h : t.isPrimitive) (hb : t ≠ .boolean) : t.isNumeric := by
  simpa [BasicType.isPrimitive, hb] using h

theorem isIntegral_of_promoted {t : BasicType} (h : t.promoted.isIntegral) : t.isIntegral := by
  cases t <;> first | rfl | cases h

theorem promoted_eq_long {t : BasicType} : t.promoted = .long ↔ t = .long := by
  cases t <;> decide

theorem promoted_isNumeric {t : BasicType} (h : t.isNumeric) : t.promoted.isNumeric := by
  cases t <;> first | rfl | cases h

theorem promotedWith_isNumeric {a b : BasicType} (h : a.promotedWith b ≠ .undefined) :
    (a.promotedWith b).isNumeric := by
  unfold promotedWith at h ⊢
  split at h
  · exact absurd rfl h
  next hn =>
    rw [if_neg hn]
    split
    · rfl
    split
    · rfl
    split <;> rfl

theorem promotedWith_of_numeric {a b : BasicType} (ha : a.isNumeric) (hb : b.isNumeric) :
    a.promotedWith b ≠ .undefined := by
  unfold promotedWith
  rw [ha, hb]
  simp only [Bool.not_true, Bool.or_self, Bool.false_eq_true, if_false]
  split
  · nofun
  split
  · nofun
  split <;> nofun

theorem isNumeric_of_promoted {b : BasicType} (h : b.promoted ≠ .undefined) : b.isNumeric := by
  cases b <;> first | rfl | exact absurd rfl h

theorem isNumeric_of_promotedWith {a b : BasicType} (h : (a.promotedWith b).isNumeric) :
    a.isNumeric ∧ b.isNumeric := by
  unfold promotedWith at h
  split at h
  · cases h
  next hn => simpa [Bool.or_eq_true, Bool.not_eq_true'] using hn

theorem promoted_promotedWith {a b : BasicType} :
    (a.promotedWith b).promoted = a.promotedWith b := by
  unfold BasicType.promotedWith
  split
  · rfl
  split
  · rfl
  split
  · rfl
  split <;> rfl

theorem promotedWith_integral {a b : BasicType} (ha : a.isIntegral) (hb : b.isIntegral) :
    a.promotedWith b = if a = .long ∨ b = .long then .long else .int := by
  have hall : ∀ a ∈ BasicType.all, ∀ b ∈ BasicType.all, a.isIntegral → b.isIntegral →
      a.promotedWith b = if a = .long ∨ b = .long then .long else .int := by decide
  exact hall a (by cases a <;> decide) b (by cases b <;> decide) ha hb

theorem promotedWith_eq_long {a b : BasicType} (ha : a.isIntegral) (hb : b.isIntegral) :
    a.promotedWith b = .long ↔ a = .long ∨ b = .long := by
  rw [promotedWith_integral ha hb]
  split
  next h => exact iff_of_true rfl h
  next h => exact iff_of_false nofun h

theorem widens_promoted {t : BasicType} (h : t.isIntegral) : Constant.Widens t t.promoted := by
  cases t <;> first | exact .inr ⟨rfl, nofun⟩ | exact .inl rfl | cases h

theorem widens_promotedWith {a b : BasicType} (ha : a.isIntegral) (hb : b.isIntegral) :
    Constant.Widens a (a.promotedWith b) ∧ Constant.Widens b (a.promotedWith b) := by
  rw [promotedWith_integral ha hb]
  split
  · exact ⟨.inl rfl, .inl rfl⟩
  next h => exact ⟨.inr ⟨rfl, fun h' => h (.inl h')⟩, .inr ⟨rfl, fun h' => h (.inr h')⟩⟩

end BasicType

/-! ## Binary operators -/

namespace Lookup.BinaryPlan

variable {op : Operator} {a b : BasicType}

theorem numeric_primitive {o r s : BasicType}
    (h : (if a.promotedWith b == .undefined then invalid else primitive (a.promotedWith b) s) =
      .primitive o r) : o = a.promotedWith b ∧ o.isNumeric ∧ r = s := by
  split at h
  · cases h
  next hne =>
    cases h
    exact ⟨rfl, BasicType.promotedWith_isNumeric (by simpa using hne), rfl⟩

theorem boolean_primitive {o r : BasicType}
    (h : (if a == .boolean && b == .boolean then primitive .boolean .boolean else invalid) =
      .primitive o r) : o = .boolean ∧ a = .boolean ∧ b = .boolean ∧ r = .boolean := by
  split at h
  next hab =>
    cases h
    simp only [Bool.and_eq_true, beq_iff_eq] at hab
    exact ⟨rfl, hab.1, hab.2, rfl⟩
  · cases h

/-- What an operator does with two operands of primitive types. -/
theorem of_primitive {o r : BasicType}
    (h : BinaryPlan.of op a b false false false = .primitive o r) :
    op.isShift = false ∧
      (o = .boolean ∧ a = .boolean ∧ b = .boolean ∧ r = .boolean ∨
        o = a.promotedWith b ∧ o.isNumeric ∧ r = Constant.resultType op o ∧ op ≠ .condAnd ∧
          op ≠ .condOr) := by
  unfold BinaryPlan.of at h
  cases op <;> dsimp only at h
  case condAnd | condOr => exact ⟨rfl, .inl (boolean_primitive h)⟩
  case add | sub | mul | div | rem =>
    obtain ⟨rfl, hn, rfl⟩ := numeric_primitive h
    exact ⟨rfl, .inr ⟨rfl, hn, rfl, nofun, nofun⟩⟩
  case lt | gt | le | ge =>
    obtain ⟨rfl, hn, rfl⟩ := numeric_primitive h
    exact ⟨rfl, .inr ⟨rfl, hn, rfl, nofun, nofun⟩⟩
  case shl | shr | ushr => split at h <;> cases h
  case eq | ne =>
    split at h
    next hn =>
      cases h
      simp only [Bool.and_eq_true] at hn
      have hp := BasicType.promotedWith_of_numeric hn.1.1 hn.1.2
      exact ⟨rfl, .inr ⟨rfl, BasicType.promotedWith_isNumeric hp, rfl, nofun, nofun⟩⟩
    next =>
      split at h
      next hab =>
        cases h
        simp only [Bool.and_eq_true, beq_iff_eq] at hab
        exact ⟨rfl, .inl ⟨rfl, hab.1.1, hab.1.2, rfl⟩⟩
      next => split at h <;> cases h
  case and | or | xor =>
    split at h
    next hab =>
      cases h
      simp only [Bool.and_eq_true, beq_iff_eq] at hab
      exact ⟨rfl, .inl ⟨rfl, hab.1, hab.2, rfl⟩⟩
    next =>
      split at h
      next hn =>
        cases h
        simp only [Bool.and_eq_true] at hn
        have hp := BasicType.promotedWith_of_numeric (Bool.or_eq_true_iff.2 (.inl hn.1))
          (Bool.or_eq_true_iff.2 (.inl hn.2))
        exact ⟨rfl, .inr ⟨rfl, BasicType.promotedWith_isNumeric hp, rfl, nofun, nofun⟩⟩
      next => cases h
  all_goals cases h

theorem of_shift {v d : BasicType} (h : BinaryPlan.of op a b false false false = .shift v d) :
    op.isShift ∧ v = a.promoted ∧ d = b.promoted ∧ v.isIntegral ∧ d.isIntegral := by
  unfold BinaryPlan.of at h
  cases op <;> dsimp only at h
  case shl | shr | ushr =>
    split at h
    next hi =>
      cases h
      simp only [Bool.and_eq_true] at hi
      exact ⟨rfl, rfl, rfl, hi⟩
    · cases h
  all_goals first
    | cases h
    | (repeat' split at h) <;> cases h

theorem of_ne_concat : BinaryPlan.of op a b false false false ≠ .concat := by
  intro h
  unfold BinaryPlan.of at h
  cases op <;> dsimp only at h
  all_goals first
    | cases h
    | (repeat' split at h) <;> contradiction

theorem of_ne_identity : BinaryPlan.of op a b false false false ≠ .identity := by
  intro h
  unfold BinaryPlan.of at h
  cases op <;> dsimp only at h
  all_goals first
    | cases h
    | (repeat' split at h) <;> contradiction

end Lookup.BinaryPlan

/-! ## Conditionals -/

namespace Lookup

/-- The narrow type of two operands of different types. -/
theorem narrowOf_two {a b : BasicType} {ka kb : Constant} (ha : a ≠ .undefined) (hab : a ≠ b) :
    narrowOf .undefined [(a, some ka), (b, some kb)] =
      if a = .int then b else if b = .int then a else .undefined := by
  by_cases hai : a = .int
  · subst hai
    simp [narrowOf, hab.symm]
  · by_cases hbi : b = .int
    · subst hbi
      simp [narrowOf, hai]
    · simp [narrowOf, hai, hbi, ha, hab]

theorem mem_narrow {t : BasicType} (h : [BasicType.byte, .short, .char].contains t) :
    t ≠ .long ∧ t.isIntegral := by
  cases t <;> first | (cases h; done) | exact ⟨by decide, rfl⟩

/-- The type of a conditional with two numeric branches of different types: the narrower of the two,
if the other is an `int` constant that fits, and else the type that both are promoted to. -/
theorem numericResult_two {a b : BasicType} {ka kb : Constant} (ha : a.isNumeric) (hab : a ≠ b) :
    let p := numericResult [(a, some ka), (b, some kb)]
    p = a.promotedWith b ∨ p ≠ .long ∧ p.isIntegral ∧
      (a = .int ∧ b = p ∧ ka.fitsIn p ∨ b = .int ∧ a = p ∧ kb.fitsIn p) := by
  have hundefined : a ≠ .undefined := by
    rintro rfl
    cases ha
  have hnarrow := @narrowOf_two a b ka kb hundefined hab
  unfold numericResult
  dsimp only
  generalize narrowOf .undefined [(a, some ka), (b, some kb)] = narrow at hnarrow ⊢
  split
  next hfits =>
    simp only [Bool.and_eq_true, List.all_cons, List.all_nil, and_true] at hfits
    obtain ⟨hmem, hfa, hfb⟩ := hfits
    refine .inr ⟨(mem_narrow hmem).1, (mem_narrow hmem).2, ?_⟩
    by_cases hai : a = .int
    · subst hai
      rw [if_pos rfl] at hnarrow
      exact .inl ⟨rfl, hnarrow.symm, hfa⟩
    · rw [if_neg hai] at hnarrow
      by_cases hbi : b = .int
      · subst hbi
        rw [if_pos rfl] at hnarrow
        exact .inr ⟨rfl, hnarrow.symm, hfb⟩
      · rw [if_neg hbi] at hnarrow
        subst hnarrow
        cases hmem
  next => exact .inl BasicType.promoted_promotedWith

theorem numericResult_isNumeric {a b : BasicType} (va vb : Option Constant) (ha : a.isNumeric)
    (hb : b.isNumeric) : (numericResult [(a, va), (b, vb)]).isNumeric := by
  unfold numericResult
  dsimp only
  split
  next hfits =>
    rw [Bool.and_eq_true] at hfits
    exact BasicType.isNumeric_of_integral (mem_narrow hfits.1).2
  next =>
    change (a.promotedWith b).promoted.isNumeric = true
    rw [BasicType.promoted_promotedWith]
    exact BasicType.promotedWith_isNumeric (BasicType.promotedWith_of_numeric ha hb)

/-- The common type of two branches of one kind is of that kind. -/
theorem commonType_kind {a b : BasicType} (va vb : Option Constant) (ha : a.isPrimitive)
    (hb : b.isPrimitive) (hkind : a = .boolean ↔ b = .boolean) :
    (if a = b then a else numericResult [(a, va), (b, vb)]).isPrimitive ∧
      ((if a = b then a else numericResult [(a, va), (b, vb)]) = .boolean ↔ a = .boolean) := by
  split
  next => exact ⟨ha, Iff.rfl⟩
  next hab =>
    have hna : a ≠ .boolean := fun h => hab (h.trans (hkind.1 h).symm)
    have hnb : b ≠ .boolean := fun h => hna (hkind.2 h)
    have hn := numericResult_isNumeric va vb (BasicType.isNumeric_of_ne ha hna)
      (BasicType.isNumeric_of_ne hb hnb)
    exact ⟨BasicType.isPrimitive_of_numeric hn,
      iff_of_false (BasicType.ne_boolean_of_numeric hn) hna⟩

end Lookup

end Javelin
