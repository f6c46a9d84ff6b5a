import Mathlib.Tactic.Common
import Javelin.Number.Binary

/-!
# Integers as floating point numbers

An integer of at most as many bits as the significand of a double is a double, and comparing doubles
compares such integers.

1. The fields of a pattern (`decode_fields`).
2. Integers (`exact_ofInt`).
3. Comparison (`compare_ofInt`).
-/

namespace Javelin.Number

/-! ## The fields of a pattern -/

theorem unit_pos (f : Format) : 0 < f.unit := Nat.two_pow_pos _

theorem withSign_eq (f : Format) (negative : Bool) (m : Nat) :
    f.withSign negative m = f.unit * (2 ^ f.exponentBits * negative.toNat) + m := by
  cases negative with
  | false => simp [Format.withSign]
  | true => simp [Format.withSign, Format.signBit]

variable {f : Format} {field fraction : Nat}

/-- A pattern that is put together from its fields decodes to them. -/
theorem decode_fields (hfraction : fraction < f.unit) (hfield : field < f.topField) (hpos : 0 < field)
    (negative : Bool) : decode f (f.withSign negative (field * f.unit + fraction)) =
      .finite negative (f.unit + fraction) (f.leastExponent + field - 1) := by
  have hlt : field < 2 ^ f.exponentBits := Nat.lt_of_lt_of_le hfield (Nat.sub_le _ 1)
  have hbits : f.withSign negative (field * f.unit + fraction) =
      f.unit * (2 ^ f.exponentBits * negative.toNat + field) + fraction := by
    rw [withSign_eq, Nat.mul_add, Nat.mul_comm field, Nat.add_assoc]
  have hhigh : f.withSign negative (field * f.unit + fraction) / f.unit =
      2 ^ f.exponentBits * negative.toNat + field := by
    rw [hbits, Nat.mul_add_div (unit_pos f), Nat.div_eq_of_lt hfraction, Nat.add_zero]
  have hsign : isNegative f (f.withSign negative (field * f.unit + fraction)) = negative := by
    rw [isNegative, Format.signBit, ← Nat.div_div_eq_div_mul, hhigh,
      Nat.mul_add_div (Nat.two_pow_pos _), Nat.div_eq_of_lt hlt]
    cases negative <;> rfl
  unfold decode
  rw [hhigh, hsign, hbits, Nat.mul_add_mod, Nat.mod_eq_of_lt hfraction, Nat.mul_add_mod,
    Nat.mod_eq_of_lt hlt]
  simp [Nat.ne_of_lt hfield, Nat.ne_of_gt hpos]

/-! ## Integers -/

/-- A finite value is the integer `n`: its significand is `n`, moved to a lower exponent. -/
def Exact (n : Int) (v : Value) : Prop :=
  ∃ (negative : Bool) (m k : Nat), v = .finite negative m (-k) ∧ signed negative m = n * 2 ^ k

theorem scale_natCast (num den k : Nat) : scale num den k = (num * 2 ^ k, den) := rfl

theorem roundDiv_one (n : Nat) : roundDiv n 1 = n := by
  simp [roundDiv, Nat.mod_one]

theorem unit_double : double.unit = 2 ^ (52 : Nat) := rfl

/-- A number moved to a significand with the full number of bits. -/
theorem exists_normal {n : Nat} (hn : n ≠ 0) (h : n < 2 * double.unit) :
    ∃ k : Nat, k ≤ 52 ∧ (n.log2 : Int) - 52 = -k ∧ double.unit ≤ n * 2 ^ k ∧
      n * 2 ^ k < 2 * double.unit := by
  have hlog : n.log2 < 53 := (Nat.log2_lt hn).mpr h
  obtain ⟨k, hk⟩ : ∃ k, n.log2 + k = 52 := Nat.le.dest (by omega)
  have hpow : 2 ^ n.log2 * 2 ^ k = double.unit := by rw [← Nat.pow_add, hk, unit_double]
  refine ⟨k, by omega, by omega, ?_, ?_⟩
  · exact hpow ▸ Nat.mul_le_mul_right _ (Nat.log2_self_le hn)
  · have hlt := Nat.mul_lt_mul_of_pos_right (Nat.lt_log2_self (n := n)) (Nat.two_pow_pos k)
    rwa [Nat.pow_succ, Nat.mul_right_comm, hpow, Nat.mul_comm double.unit] at hlt

/-- Rounding an integer that fits the significand only moves it. -/
theorem decode_round {n k : Nat} (hk : k ≤ 52) (hlog : (n.log2 : Int) - 52 = -k)
    (hle : double.unit ≤ n * 2 ^ k) (hlt : n * 2 ^ k < 2 * double.unit) (negative : Bool) :
    decode double (round double negative n 1) = .finite negative (n * 2 ^ k) (-k) := by
  have hn : n ≠ 0 := by
    rintro rfl
    rw [Nat.zero_mul] at hle
    exact absurd (unit_pos double) (Nat.not_lt.mpr hle)
  have hexponent : roundingExponent double n 1 = -k := by
    have he : (n.log2 : Int) - Nat.log2 1 - double.precision + 1 = -k := by
      rw [← hlog, show Nat.log2 1 = 0 by decide]
      change (n.log2 : Int) - 0 - 53 + 1 = _
      omega
    unfold roundingExponent
    simp only [he, Int.neg_neg, scale_natCast, Nat.div_one, Nat.not_lt.mpr hle, if_false]
    exact Int.max_eq_left (show (-1074 : Int) ≤ -k by omega)
  have hencode : encode double (n * 2 ^ k) (-k) =
      (1075 - k) * double.unit + (n * 2 ^ k - double.unit) := by
    have hfield : ((-k : Int) - double.leastExponent + 1).toNat = 1075 - k := by
      change ((-k : Int) - -1074 + 1).toNat = _
      omega
    unfold encode
    rw [if_neg (Nat.not_lt.mpr hle), hfield]
    exact if_neg (show ¬ 1075 - k ≥ 2047 by omega)
  unfold round
  simp only [beq_eq_false_iff_ne.mpr hn, Bool.false_eq_true, if_false, hexponent, Int.neg_neg,
    scale_natCast, roundDiv_one, beq_eq_false_iff_ne.mpr (Nat.ne_of_lt hlt), hencode]
  have hexponent : double.leastExponent + (1075 - k : Nat) - 1 = -k := by
    change (-1074 : Int) + (1075 - k : Nat) - 1 = _
    omega
  rw [decode_fields (by omega) (show 1075 - k < 2047 by omega) (by omega),
    Nat.add_sub_cancel' hle, hexponent]

theorem exact_ofInt {n : Int} (h : n.natAbs < 2 * double.unit) :
    Exact n (decode double (ofInt double n)) := by
  by_cases hn : n.natAbs = 0
  · obtain rfl := Int.natAbs_eq_zero.mp hn
    exact ⟨false, 0, 1074, by decide, (Int.zero_mul _).symm⟩
  · obtain ⟨k, hk, hlog, hle, hlt⟩ := exists_normal hn h
    refine ⟨n < 0, n.natAbs * 2 ^ k, k, decode_round hk hlog hle hlt _, ?_⟩
    unfold signed
    split
    next hneg =>
      have hneg : n < 0 := of_decide_eq_true hneg
      rw [Int.natCast_mul, Int.ofNat_natAbs_of_nonpos (Int.le_of_lt hneg), Int.neg_mul, Int.neg_neg,
        Int.natCast_pow, Int.cast_ofNat_Int]
    next hneg =>
      have hpos : 0 ≤ n := Int.not_lt.mp fun hneg' => hneg (decide_eq_true hneg')
      rw [Int.natCast_mul, Int.natAbs_of_nonneg hpos]
      simp

/-! ## Comparison -/

theorem signed_lowered (negative : Bool) (m : Nat) (e target : Int) :
    signed negative (lowered m e target) = signed negative m * 2 ^ (e - target).toNat := by
  unfold signed lowered
  cases negative with
  | false => simp
  | true =>
    change -((m * 2 ^ (e - target).toNat : Nat) : Int) = -(m : Int) * 2 ^ (e - target).toNat
    rw [Int.natCast_mul, Int.natCast_pow, Int.cast_ofNat_Int, Int.neg_mul]

theorem compare_ofInt {a b : Int} (ha : a.natAbs < 2 * double.unit)
    (hb : b.natAbs < 2 * double.unit) :
    compare double (ofInt double a) (ofInt double b) = some (Ord.compare a b) := by
  obtain ⟨s, m, j, hx, hm⟩ := exact_ofInt ha
  obtain ⟨t, n, k, hy, hn⟩ := exact_ofInt hb
  obtain ⟨l, hl⟩ : ∃ l : Nat, min (-j : Int) (-k) = -l := ⟨max j k, by omega⟩
  have hlow (c : Int) (i : Nat) (hi : i ≤ l) :
      c * 2 ^ i * 2 ^ ((-i : Int) - -l).toNat = c * 2 ^ l := by
    rw [Int.mul_assoc, ← Int.pow_add]
    congr 2
    omega
  unfold compare
  rw [hx, hy]
  simp only [hl, signed_lowered, hm, hn]
  rw [hlow a j (by omega), hlow b k (by omega)]
  have hpos : (0 : Int) < 2 ^ l := Int.pow_pos (by decide)
  refine congrArg some ?_
  rcases Int.lt_trichotomy a b with hab | rfl | hab
  · rw [Int.compare_eq_lt.2 hab, Int.compare_eq_lt.2 (Int.mul_lt_mul_of_pos_right hab hpos)]
  · rw [Int.compare_eq_eq.2 rfl, Int.compare_eq_eq.2 rfl]
  · rw [Int.compare_eq_gt.2 hab, Int.compare_eq_gt.2 (Int.mul_lt_mul_of_pos_right hab hpos)]

end Javelin.Number
