import Javelin.Constant.Fold
import Javelin.Proofs.Number.Integers

/-!
# The arithmetic of whole numbers

What the operators of the language do with truth values and whole numbers, written down on the
integers: a result is cut to the 32 or 64 bits of the type that its operands are promoted to. The
main statements say that folding constants agrees with it.

1. Values and operators on them.
2. Conversions: `Constant.castTo` is a conversion of numbers.
3. Prefix operators: `Constant.unary`.
4. Binary operators: `Constant.binary`.
-/

namespace Javelin

/-- What an expression without floating point numbers and references evaluates to. -/
inductive Value where
  | truth (b : Bool)
  | number (n : Int)
deriving DecidableEq, Repr

namespace Value

/-- The number that the low bits of a number write in two's complement. -/
def wrap (bits : Nat) (n : Int) : Int := n.bmod (2 ^ bits)

/-- A number converted to an integral type. -/
def convert (n : Int) : BasicType → Int
  | .byte => wrap 8 n
  | .short => wrap 16 n
  | .char => n % 2 ^ (16 : Nat)
  | .int => wrap 32 n
  | .long => wrap 64 n
  | _ => n

/-- The value of a prefix operator; numbers have the given width. -/
def unary (bits : Nat) : Operator → Value → Option Value
  | .pos, number n => some (number n)
  | .neg, number n => some (number (wrap bits (-n)))
  | .bitNot, number n => some (number (-n - 1))
  | .not, truth b => some (truth !b)
  | _, _ => none

/-- The value of an operator on two numbers of the given width. Division cuts toward zero, and a
shift takes its distance modulo the width. -/
def ofNumbers (bits : Nat) (op : Operator) (a b : Int) : Option Value :=
  let distance := (b % bits).toNat
  match op with
  | .add => some (number (wrap bits (a + b)))
  | .sub => some (number (wrap bits (a - b)))
  | .mul => some (number (wrap bits (a * b)))
  | .div => if b = 0 then none else some (number (wrap bits (a.tdiv b)))
  | .rem => if b = 0 then none else some (number (a.tmod b))
  | .shl => some (number (wrap bits (a * 2 ^ distance)))
  | .shr => some (number (a / 2 ^ distance))
  | .ushr => some (number (wrap bits (a % 2 ^ bits / 2 ^ distance)))
  | .and => some (number (BitVec.ofInt bits a &&& BitVec.ofInt bits b).toInt)
  | .or => some (number (BitVec.ofInt bits a ||| BitVec.ofInt bits b).toInt)
  | .xor => some (number (BitVec.ofInt bits a ^^^ BitVec.ofInt bits b).toInt)
  | .lt => some (truth (a < b))
  | .gt => some (truth (b < a))
  | .le => some (truth (a ≤ b))
  | .ge => some (truth (b ≤ a))
  | .eq => some (truth (a = b))
  | .ne => some (truth (a ≠ b))
  | _ => none

/-- The value of an operator on two truth values. -/
def ofTruths (op : Operator) (a b : Bool) : Option Value :=
  match op with
  | .and | .condAnd => some (truth (a && b))
  | .or | .condOr => some (truth (a || b))
  | .xor | .ne => some (truth (a != b))
  | .eq => some (truth (a == b))
  | _ => none

def binary (bits : Nat) (op : Operator) : Value → Value → Option Value
  | number a, number b => ofNumbers bits op a b
  | truth a, truth b => ofTruths op a b
  | _, _ => none

end Value

namespace Constant

/-- The value that a constant stands for; texts and floating point numbers stand for none. -/
def value? : Constant → Option Value
  | boolean b => some (.truth b)
  | c => c.integer?.map .number

/-- The width that numbers of a type are computed with. -/
def width (t : BasicType) : Nat := if t = .long then 64 else 32

attribute [local simp] integer? type BasicType.isIntegral

theorem value?_of_integer {c : Constant} {n : Int} (h : c.integer? = some n) :
    c.value? = some (.number n) := by
  cases c <;> simp_all [value?]

theorem integer?_of_value {c : Constant} {n : Int} (h : c.value? = some (.number n)) :
    c.integer? = some n := by
  cases c <;> simp_all [value?]

theorem integer?_isSome {c : Constant} (h : c.type.isIntegral) : ∃ n, c.integer? = some n := by
  cases c <;> simp_all

theorem isIntegral_of_integer? {c : Constant} {n : Int} (h : c.integer? = some n) :
    c.type.isIntegral = true := by
  cases c <;> simp_all

/-! ## Conversions -/

theorem wrap_wrap {m n : Nat} (h : m ≤ n) (k : Int) :
    Value.wrap m (Value.wrap n k) = Value.wrap m k :=
  Int.bmod_bmod_of_dvd (Nat.pow_dvd_pow 2 h)

theorem wrap_emod (n : Nat) (k : Int) : Value.wrap n k % 2 ^ n = k % 2 ^ n := by
  have h := Int.bmod_emod (x := k) (m := 2 ^ n)
  simpa [Value.wrap] using h

theorem toNat_toUInt16 (v : Int16) : (v.toUInt16.toNat : Int) = v.toInt % 2 ^ (16 : Nat) := by
  have h : (v.toUInt16.toNat : Int) < 2 ^ (16 : Nat) := by exact_mod_cast v.toUInt16.toNat_lt
  rw [← Int16.toInt_toBitVec, BitVec.toInt_eq_toNat_bmod, Int16.toNat_toBitVec]
  rw [show (2 ^ (16 : Nat) : Int) = ((2 ^ (16 : Nat) : Nat) : Int) from rfl, Int.bmod_emod]
  exact (Int.emod_eq_of_lt (Int.natCast_nonneg _) h).symm

/-- A number of a type stays what it is when it is converted to that type. -/
theorem convert_type {c : Constant} {n : Int} (h : c.integer? = some n) :
    Value.convert n c.type = n := by
  cases c with
  | byte v => cases h; exact v.toInt_bmod_size
  | short v => cases h; exact v.toInt_bmod_size
  | int v => cases h; exact v.toInt_bmod_size
  | long v => cases h; exact v.toInt_bmod_size
  | char u =>
    cases h
    exact Int.emod_eq_of_lt (Int.natCast_nonneg _) (by exact_mod_cast u.toNat_lt)
  | boolean _ | float _ | double _ | string _ => cases h

/-- Narrowing an `int` is a conversion of its number. -/
theorem integer?_narrow (v : Int32) {t : BasicType} (ht : t.isIntegral) (hl : t ≠ .long) :
    (narrow v t).integer? = some (Value.convert v.toInt t) ∧ (narrow v t).type = t := by
  cases t with
  | byte => exact ⟨congrArg some (Int32.toInt_toInt8 v), rfl⟩
  | short => exact ⟨congrArg some (Int32.toInt_toInt16 v), rfl⟩
  | char =>
    refine ⟨congrArg some ?_, rfl⟩
    rw [toNat_toUInt16, Int32.toInt_toInt16]
    exact wrap_emod 16 v.toInt
  | int => exact ⟨congrArg some v.toInt_bmod_size.symm, rfl⟩
  | long => exact absurd rfl hl
  | undefined | boolean | float | double | string | null | void | object => cases ht

theorem convert_wrap (n : Int) {t : BasicType} (ht : t.isIntegral) (hl : t ≠ .long) :
    Value.convert (Value.wrap 32 n) t = Value.convert n t := by
  cases t with
  | byte | short | int => exact wrap_wrap (by decide) n
  | char =>
    have h : (2 ^ (16 : Nat) : Int) ∣ 2 ^ (32 : Nat) := ⟨2 ^ (16 : Nat), by decide⟩
    have hw := wrap_emod 32 n
    change Value.wrap 32 n % 2 ^ (16 : Nat) = n % 2 ^ (16 : Nat)
    rw [← Int.emod_emod_of_dvd _ h, hw, Int.emod_emod_of_dvd _ h]
  | long => exact absurd rfl hl
  | undefined | boolean | float | double | string | null | void | object => cases ht

/-- A cast between integral types is a conversion of numbers. -/
theorem castTo_integral {c k : Constant} {n : Int} {t : BasicType} (ht : t.isIntegral)
    (hc : c.integer? = some n) (h : c.castTo t = some k) :
    k.integer? = some (Value.convert n t) ∧ k.type = t := by
  unfold castTo at h
  split at h
  next heq =>
    cases h
    rw [← eq_of_beq heq, convert_type hc]
    exact ⟨hc, rfl⟩
  next =>
    have hk : castInteger n t = k := by
      cases c <;> cases t <;> simp_all [BasicType.isNumeric, BasicType.isIntegral, integer?]
    subst hk
    by_cases hl : t = .long
    · subst hl
      exact ⟨congrArg some Int64.toInt_ofInt, rfl⟩
    · have hcast : castInteger n t = narrow (Int32.ofInt n) t := by
        cases t <;> first | rfl | exact absurd rfl hl | cases ht
      have hn := integer?_narrow (Int32.ofInt n) ht hl
      rw [hcast]
      refine ⟨hn.1.trans (congrArg some ?_), hn.2⟩
      rw [Int32.toInt_ofInt]
      exact convert_wrap n ht hl

/-- The types that a promotion to `int` or `long` loses nothing of. -/
def Widens (s t : BasicType) : Prop := t = .long ∨ t = .int ∧ s ≠ .long

theorem Widens.isIntegral {s t : BasicType} (h : Widens s t) : t.isIntegral := by
  rcases h with rfl | ⟨rfl, -⟩ <;> rfl

theorem wrap_of_bounds {m : Nat} {n : Int} (hl : -2 ^ m ≤ n) (hu : n < 2 ^ m) :
    Value.wrap (m + 1) n = n := by
  have hp : ((2 ^ (m + 1) : Nat) : Int) = 2 * 2 ^ m := by
    rw [Int.natCast_pow, Int.pow_succ]
    exact Int.mul_comm _ _
  unfold Value.wrap
  apply Int.bmod_eq_of_le <;> omega

theorem long_bounds {c : Constant} {n : Int} (h : c.integer? = some n) :
    -2 ^ (63 : Nat) ≤ n ∧ n < 2 ^ (63 : Nat) := by
  cases c with
  | byte v => cases h; have := v.le_toInt; have := v.toInt_lt; omega
  | short v => cases h; have := v.le_toInt; have := v.toInt_lt; omega
  | int v => cases h; have := v.le_toInt; have := v.toInt_lt; omega
  | long v => cases h; have := v.le_toInt; have := v.toInt_lt; omega
  | char u => cases h; have := u.toNat_lt; omega
  | boolean _ | float _ | double _ | string _ => cases h

theorem int_bounds {c : Constant} {n : Int} (h : c.integer? = some n) (hl : c.type ≠ .long) :
    -2 ^ (31 : Nat) ≤ n ∧ n < 2 ^ (31 : Nat) := by
  cases c with
  | byte v => cases h; have := v.le_toInt; have := v.toInt_lt; omega
  | short v => cases h; have := v.le_toInt; have := v.toInt_lt; omega
  | int v => cases h; have := v.le_toInt; have := v.toInt_lt; omega
  | long v => exact absurd rfl hl
  | char u => cases h; have := u.toNat_lt; omega
  | boolean _ | float _ | double _ | string _ => cases h

/-- Promotion keeps the number. -/
theorem castTo_widens {c k : Constant} {n : Int} {t : BasicType} (ht : Widens c.type t)
    (hc : c.integer? = some n) (h : c.castTo t = some k) : k.integer? = some n ∧ k.type = t := by
  have hk := castTo_integral ht.isIntegral hc h
  refine ⟨hk.1.trans (congrArg some ?_), hk.2⟩
  rcases ht with rfl | ⟨rfl, hl⟩
  · have hb := long_bounds hc
    exact wrap_of_bounds hb.1 hb.2
  · have hb := int_bounds hc hl
    exact wrap_of_bounds hb.1 hb.2

theorem eq_int {c : Constant} (h : c.type = .int) : ∃ v, c = .int v := by
  cases c <;> first | exact ⟨_, rfl⟩ | cases h

theorem eq_long {c : Constant} (h : c.type = .long) : ∃ v, c = .long v := by
  cases c <;> first | exact ⟨_, rfl⟩ | cases h

/-! ## Prefix operators -/

theorem unary_not {c k : Constant} {t : BasicType} (h : unary .not c t = some k) :
    ∃ b, c = .boolean b ∧ k = .boolean !b := by
  cases c <;> simp_all [unary]

theorem negate?_number {c k : Constant} {n : Int} (hc : c.integer? = some n)
    (ht : c.type = .int ∨ c.type = .long) (h : negate? c = some k) :
    k.integer? = some (Value.wrap (width c.type) (-n)) ∧ k.type = c.type := by
  rcases ht with ht | ht
  · obtain ⟨v, rfl⟩ := eq_int ht
    cases hc
    cases h
    exact ⟨congrArg some v.toInt_neg, rfl⟩
  · obtain ⟨v, rfl⟩ := eq_long ht
    cases hc
    cases h
    exact ⟨congrArg some v.toInt_neg, rfl⟩

theorem complement?_number {c k : Constant} {n : Int} (hc : c.integer? = some n)
    (ht : c.type = .int ∨ c.type = .long) (h : complement? c = some k) :
    k.integer? = some (-n - 1) ∧ k.type = c.type := by
  rcases ht with ht | ht
  · obtain ⟨v, rfl⟩ := eq_int ht
    cases hc
    cases h
    have hl := v.le_toInt
    have hu := v.toInt_lt
    refine ⟨congrArg some (v.toInt_not.trans ?_), rfl⟩
    exact wrap_of_bounds (by omega) (by omega)
  · obtain ⟨v, rfl⟩ := eq_long ht
    cases hc
    cases h
    have hl := v.le_toInt
    have hu := v.toInt_lt
    refine ⟨congrArg some (v.toInt_not.trans ?_), rfl⟩
    exact wrap_of_bounds (by omega) (by omega)

/-- A prefix operator on a number has the value that it has in the language. -/
theorem unary_number {op : Operator} {c k : Constant} {n : Int} {t : BasicType} (hop : op ≠ .not)
    (ht : Widens c.type t) (hc : c.integer? = some n) (h : unary op c t = some k) :
    k.value? = Value.unary (width t) op (.number n) ∧ k.type = t := by
  have hne : (op == .not) = false := beq_eq_false_iff_ne.2 hop
  unfold unary at h
  rw [hne] at h
  cases hv : c.castTo t with
  | none => simp [hv] at h
  | some v =>
    obtain ⟨hn, rfl⟩ := castTo_widens ht hc hv
    have hvt : v.type = .int ∨ v.type = .long := ht.elim .inr fun h => .inl h.1
    cases op <;> simp only [hv, reduceCtorEq, Option.some.injEq, Bool.false_eq_true, if_false] at h
    case pos => subst h; exact ⟨value?_of_integer hn, rfl⟩
    case neg =>
      have hk := negate?_number hn hvt h
      exact ⟨value?_of_integer hk.1, hk.2⟩
    case bitNot =>
      have hk := complement?_number hn hvt h
      exact ⟨value?_of_integer hk.1, hk.2⟩

/-! ## Binary operators -/

theorem binary_truth {op : Operator} {a b : Bool} {k : Constant}
    (h : binary op (.boolean a) (.boolean b) .boolean = some k) :
    k.value? = Value.ofTruths op a b ∧ k.type = .boolean := by
  have h : foldBoolean op a b = some k := h
  cases op <;> cases h <;> exact ⟨rfl, rfl⟩

/-- The type of what an operator gives for numbers of a type. -/
def resultType (op : Operator) (t : BasicType) : BasicType := if op.isComparison then .boolean else t

theorem value?_int {v : Int32} {n : Int} (h : v.toInt = n) :
    (int v).value? = some (.number n) := h ▸ rfl

theorem value?_long {v : Int64} {n : Int} (h : v.toInt = n) :
    (long v).value? = some (.number n) := h ▸ rfl

/-- What the relational operators make of an order. -/
theorem foldOrder_eq (op : Operator) (a b : Int) (h : op.isComparison) (bits : Nat) :
    ∃ v, foldOrder op (some (Ord.compare a b)) = some (.boolean v) ∧
      Value.ofNumbers bits op a b = some (.truth v) := by
  obtain hab | hab | hab := Int.lt_trichotomy a b
  · have ho : Ord.compare a b = .lt := Int.compare_eq_lt.2 hab
    cases op <;> cases h <;> refine ⟨_, rfl, congrArg (some ∘ Value.truth) ?_⟩ <;>
      simp [ho, bne] <;> omega
  · have ho : Ord.compare a b = .eq := Int.compare_eq_eq.2 hab
    cases op <;> cases h <;> refine ⟨_, rfl, congrArg (some ∘ Value.truth) ?_⟩ <;>
      simp [ho, bne] <;> omega
  · have ho : Ord.compare a b = .gt := Int.compare_eq_gt.2 hab
    cases op <;> cases h <;> refine ⟨_, rfl, congrArg (some ∘ Value.truth) ?_⟩ <;>
      simp [ho, bne] <;> omega

theorem foldOrder_number {op : Operator} {a b : Int} {k : Constant} (bits : Nat) (t : BasicType)
    (h : foldOrder op (some (Ord.compare a b)) = some k) :
    k.value? = Value.ofNumbers bits op a b ∧ k.type = resultType op t := by
  have hop : op.isComparison = true := by
    cases op <;> first | rfl | cases h
  obtain ⟨v, hv, hn⟩ := foldOrder_eq op a b hop bits
  rw [hv] at h
  cases h
  exact ⟨hn.symm, by simp [resultType, hop, type]⟩

/-- Every `int` is a double. -/
theorem compare_int (a b : Int32) : Number.compare Number.double
    (Number.ofInt Number.double a.toInt) (Number.ofInt Number.double b.toInt) =
      some (Ord.compare a.toInt b.toInt) := by
  have hbound (v : Int32) : v.toInt.natAbs < 2 * Number.double.unit := by
    have hle := v.le_toInt
    have hlt := v.toInt_lt
    rw [Number.unit_double]
    omega
  exact Number.compare_ofInt (hbound a) (hbound b)

/-- Folding with 32 bits agrees with the language. -/
theorem foldInt_number {op : Operator} {a b : Int32} {k : Constant} (h : foldInt op a b = some k) :
    k.value? = Value.ofNumbers 32 op a.toInt b.toInt ∧ k.type = resultType op .int := by
  unfold foldInt at h
  split at h
  · cases h; exact ⟨value?_int (a.toInt_add b), rfl⟩
  · cases h; exact ⟨value?_int (a.toInt_sub b), rfl⟩
  · cases h; exact ⟨value?_int (a.toInt_mul b), rfl⟩
  · obtain ⟨hb, hk⟩ := Option.ite_none_left_eq_some.1 h
    cases hk
    have hb : b.toInt ≠ 0 := fun h0 => hb (beq_iff_eq.2 (Int32.toInt_inj.1 h0))
    refine ⟨Eq.trans ?_ (if_neg hb).symm, rfl⟩
    exact value?_int (a.toInt_div b)
  · obtain ⟨hb, hk⟩ := Option.ite_none_left_eq_some.1 h
    cases hk
    have hb : b.toInt ≠ 0 := fun h0 => hb (beq_iff_eq.2 (Int32.toInt_inj.1 h0))
    refine ⟨Eq.trans ?_ (if_neg hb).symm, rfl⟩
    exact value?_int (a.toInt_mod b)
  · cases h
    refine ⟨value?_int ?_, rfl⟩
    rw [← Int32.toInt_toBitVec a, ← Int32.toInt_toBitVec b, BitVec.ofInt_toInt, BitVec.ofInt_toInt]
    rfl
  · cases h
    refine ⟨value?_int ?_, rfl⟩
    rw [← Int32.toInt_toBitVec a, ← Int32.toInt_toBitVec b, BitVec.ofInt_toInt, BitVec.ofInt_toInt]
    rfl
  · cases h
    refine ⟨value?_int ?_, rfl⟩
    rw [← Int32.toInt_toBitVec a, ← Int32.toInt_toBitVec b, BitVec.ofInt_toInt, BitVec.ofInt_toInt]
    rfl
  · exact foldOrder_number 32 .int (compare_int a b ▸ h)

/-- Folding with 64 bits agrees with the language. -/
theorem foldLong_number {op : Operator} {a b : Int64} {k : Constant} (h : foldLong op a b = some k) :
    k.value? = Value.ofNumbers 64 op a.toInt b.toInt ∧ k.type = resultType op .long := by
  unfold foldLong at h
  split at h
  · cases h; exact ⟨value?_long (a.toInt_add b), rfl⟩
  · cases h; exact ⟨value?_long (a.toInt_sub b), rfl⟩
  · cases h; exact ⟨value?_long (a.toInt_mul b), rfl⟩
  · obtain ⟨hb, hk⟩ := Option.ite_none_left_eq_some.1 h
    cases hk
    have hb : b.toInt ≠ 0 := fun h0 => hb (beq_iff_eq.2 (Int64.toInt_inj.1 h0))
    refine ⟨Eq.trans ?_ (if_neg hb).symm, rfl⟩
    exact value?_long (a.toInt_div b)
  · obtain ⟨hb, hk⟩ := Option.ite_none_left_eq_some.1 h
    cases hk
    have hb : b.toInt ≠ 0 := fun h0 => hb (beq_iff_eq.2 (Int64.toInt_inj.1 h0))
    refine ⟨Eq.trans ?_ (if_neg hb).symm, rfl⟩
    exact value?_long (a.toInt_mod b)
  · cases h
    refine ⟨value?_long ?_, rfl⟩
    rw [← Int64.toInt_toBitVec a, ← Int64.toInt_toBitVec b, BitVec.ofInt_toInt, BitVec.ofInt_toInt]
    rfl
  · cases h
    refine ⟨value?_long ?_, rfl⟩
    rw [← Int64.toInt_toBitVec a, ← Int64.toInt_toBitVec b, BitVec.ofInt_toInt, BitVec.ofInt_toInt]
    rfl
  · cases h
    refine ⟨value?_long ?_, rfl⟩
    rw [← Int64.toInt_toBitVec a, ← Int64.toInt_toBitVec b, BitVec.ofInt_toInt, BitVec.ofInt_toInt]
    rfl
  · exact foldOrder_number 64 .long h

/-- A shift to the right stays within the bounds of a number. -/
theorem shifted_bounds {a m : Int} (d : Nat) (hl : -m ≤ a) (hu : a < m) :
    -m ≤ a / 2 ^ d ∧ a / 2 ^ d < m := by
  have hp : (0 : Int) < 2 ^ d := Int.pow_pos (by decide)
  have hm : m * 1 ≤ m * 2 ^ d := Int.mul_le_mul_of_nonneg_left (by omega) (by omega)
  have hn : -m * 2 ^ d = -(m * 2 ^ d) := Int.neg_mul _ _
  exact ⟨Int.le_ediv_of_mul_le hp (by omega), Int.ediv_lt_of_lt_mul hp (by omega)⟩

theorem shiftInt_number {op : Operator} {a : Int32} {d : Int} {k : Constant}
    (h : shiftInt op a d = some k) :
    k.value? = Value.ofNumbers 32 op a.toInt d ∧ k.type = .int := by
  unfold shiftInt at h
  split at h
  · cases h; exact ⟨value?_int Int32.toInt_ofInt, rfl⟩
  · cases h
    have hq := shifted_bounds (d % 32).toNat a.le_toInt a.toInt_lt
    exact ⟨value?_int (Int32.toInt_ofInt_of_le hq.1 hq.2), rfl⟩
  · cases h; exact ⟨value?_int Int32.toInt_ofInt, rfl⟩
  · cases h

theorem shiftLong_number {op : Operator} {a : Int64} {d : Int} {k : Constant}
    (h : shiftLong op a d = some k) :
    k.value? = Value.ofNumbers 64 op a.toInt d ∧ k.type = .long := by
  unfold shiftLong at h
  split at h
  · cases h; exact ⟨value?_long Int64.toInt_ofInt, rfl⟩
  · cases h
    have hq := shifted_bounds (d % 64).toNat a.le_toInt a.toInt_lt
    exact ⟨value?_long (Int64.toInt_ofInt_of_le hq.1 hq.2), rfl⟩
  · cases h; exact ⟨value?_long Int64.toInt_ofInt, rfl⟩
  · cases h

/-- A binary operator on numbers that are promoted to one type has the value that it has in the
language. -/
theorem binary_number {op : Operator} {l r k : Constant} {a b : Int} {t : BasicType}
    (hop : op.isShift = false) (hl : Widens l.type t) (hr : Widens r.type t)
    (ha : l.integer? = some a) (hb : r.integer? = some b) (h : binary op l r t = some k) :
    k.value? = Value.ofNumbers (width t) op a b ∧ k.type = resultType op t := by
  cases hx : l.castTo t with
  | none => rcases hl with rfl | ⟨rfl, -⟩ <;> simp [binary, hop, hx] at h
  | some x =>
    cases hy : r.castTo t with
    | none => rcases hl with rfl | ⟨rfl, -⟩ <;> simp [binary, hop, hx, hy] at h
    | some y =>
      obtain ⟨hxa, hxt⟩ := castTo_widens hl ha hx
      obtain ⟨hyb, hyt⟩ := castTo_widens hr hb hy
      rcases hl with rfl | ⟨rfl, -⟩
      · obtain ⟨u, rfl⟩ := eq_long hxt
        obtain ⟨v, rfl⟩ := eq_long hyt
        have hbin : binary op l r .long = foldLong op u v := by
          simp [binary, hop, hx, hy]
        cases hxa
        cases hyb
        exact foldLong_number (hbin ▸ h)
      · obtain ⟨u, rfl⟩ := eq_int hxt
        obtain ⟨v, rfl⟩ := eq_int hyt
        have hbin : binary op l r .int = foldInt op u v := by
          simp [binary, hop, hx, hy]
        cases hxa
        cases hyb
        exact foldInt_number (hbin ▸ h)

/-- A shift has the value that it has in the language, whatever the type of its distance. -/
theorem binary_shift {op : Operator} {l r k : Constant} {a b : Int} {t : BasicType}
    (hop : op.isShift) (hl : Widens l.type t) (ha : l.integer? = some a)
    (hb : r.integer? = some b) (h : binary op l r t = some k) :
    k.value? = Value.ofNumbers (width t) op a b ∧ k.type = t := by
  have hbin : binary op l r t = foldShift op l r t := by
    rcases hl with rfl | ⟨rfl, -⟩ <;> simp only [binary, hop] <;> rfl
  rw [hbin] at h
  simp only [foldShift, hb] at h
  cases hx : l.castTo t with
  | none => simp [hx] at h
  | some x =>
    obtain ⟨hxa, hxt⟩ := castTo_widens hl ha hx
    rw [hx] at h
    rcases hl with rfl | ⟨rfl, -⟩
    · obtain ⟨u, rfl⟩ := eq_long hxt
      cases hxa
      exact shiftLong_number h
    · obtain ⟨u, rfl⟩ := eq_int hxt
      cases hxa
      exact shiftInt_number h

end Constant

end Javelin
