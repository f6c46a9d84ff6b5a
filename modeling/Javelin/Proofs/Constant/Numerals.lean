import Mathlib.Data.List.Basic
import Mathlib.Data.Nat.Digits.Defs
import Mathlib.Tactic.Positivity
import Javelin.Proofs.Constant.Arithmetic
import Javelin.Proofs.Text.Characters

/-!
# The numbers that integer literals write

Digits in one of four radices, underscores among them, and a suffix for `long`. Reading a literal
gives the number that it denotes (`integer_denoted`).
-/

namespace Javelin.Literal

/-- The character that a byte of a literal stands for. -/
def letter (b : UInt8) : Char := Char.ofNat b.toNat

/-- The value of a digit, and a number that is too large for one if it is none. -/
def digit (c : Char) : Nat := "0123456789abcdef".toList.idxOf c.toLower

/-- The radix that a number is written in, and its digits. -/
def radixAndDigits : List Char → Nat × List Char
  | '0' :: 'x' :: ds | '0' :: 'X' :: ds => (16, ds)
  | '0' :: 'b' :: ds | '0' :: 'B' :: ds => (2, ds)
  | '0' :: d :: ds => (8, d :: ds)
  | ds => (10, ds)

/-- Only the letters of the list are looked at, never all characters. -/
scoped instance decidableLetters (p : Char → Prop) [DecidablePred p] (ls : List Char) :
    Decidable (∀ c ∈ ls, p c) := List.decidableBAll p ls

/-- The number that digits write. -/
def written (radix : Nat) (ds : List Char) : Option Nat :=
  if ds ≠ [] ∧ ∀ d ∈ ds, digit d < radix then some (Nat.ofDigits radix (ds.reverse.map digit))
  else none

/-- The letters of an integer literal without underscores and suffix. -/
def body (kind : Kind) (raw : Text) : Option (List Char) :=
  let ls := (raw.toList.map letter).filter (· ≠ '_')
  match kind with
  | .int => some ls
  | .long => if ls.getLast? = some 'l' ∨ ls.getLast? = some 'L' then some ls.dropLast else none
  | _ => none

/-- The number that the digits of an integer literal write. -/
def magnitude (kind : Kind) (raw : Text) : Option Nat := do
  let (radix, ds) := radixAndDigits (← body kind raw)
  written radix ds

/-- What holds of the first 256 numbers holds of all bytes. -/
theorem forall_byte {p : UInt8 → Prop} (h : ∀ n < 256, p (UInt8.ofNat n)) (b : UInt8) : p b := by
  have hb := h b.toNat b.toNat_lt
  rwa [UInt8.ofNat_toNat] at hb

theorem toNat_letter : ∀ b, (letter b).toNat = b.toNat :=
  forall_byte (by decide +kernel)

theorem letter_inj {a b : UInt8} (h : letter a = letter b) : a = b := by
  apply UInt8.toNat_inj.1
  rw [← toNat_letter a, ← toNat_letter b, h]

/-- The letters that are digits. -/
def digitLetters : List Char := "0123456789abcdefABCDEF".toList

theorem mem_digitLetters : ∀ b, digit (letter b) < 16 → letter b ∈ digitLetters :=
  forall_byte (by decide +kernel)

/-- What holds of all digits. -/
theorem forall_digit {p : UInt8 → Prop} (h : ∀ c ∈ digitLetters, p (UInt8.ofNat c.toNat))
    {b : UInt8} (hb : digit (letter b) < 16) : p b := by
  have hp := h _ (mem_digitLetters b hb)
  rwa [toNat_letter, UInt8.ofNat_toNat] at hp

theorem digitValue_eq {b : UInt8} (hb : digit (letter b) < 16) :
    digitValue b = digit (letter b) :=
  forall_digit (p := fun b => digitValue b = digit (letter b)) (by decide) hb

theorem sign_not_digit {b : UInt8} (hb : digit (letter b) < 16) :
    (b == '-') = false ∧ (b == '+') = false :=
  forall_digit (p := fun b => (b == '-') = false ∧ (b == '+') = false) (by decide) hb

theorem radixAndDigits_le (ls : List Char) : (radixAndDigits ls).1 ≤ 16 := by
  unfold radixAndDigits
  split <;> simp

/-- Digits are read from the front. -/
theorem ofDigits_letters (radix : Nat) (bs : List UInt8) (h : ∀ b ∈ bs, digit (letter b) < 16) :
    Nat.ofDigits radix ((bs.map letter).reverse.map digit) =
      bs.foldl (fun n b => n * radix + digitValue b) 0 := by
  rw [← List.map_reverse, List.map_map, Nat.ofDigits_eq_foldr, List.foldr_map, List.foldr_reverse]
  apply List.foldl_ext
  intro n b hb
  have hd := digitValue_eq (h b hb)
  simp only [Function.comp_apply, Nat.cast_id, hd]
  rw [Nat.mul_comm, Nat.add_comm]

theorem written_iff {radix n : Nat} {ds : List Char} : written radix ds = some n ↔
    ds ≠ [] ∧ (∀ d ∈ ds, digit d < radix) ∧ Nat.ofDigits radix (ds.reverse.map digit) = n := by
  unfold written
  split <;> simp_all

/-- Digits of the radix write a number. -/
theorem written_isSome {radix : Nat} {bs : List UInt8} (hne : bs ≠ [])
    (h : ∀ b ∈ bs, digit (letter b) < radix) : (written radix (bs.map letter)).isSome := by
  unfold written
  rw [if_pos]
  · rfl
  · refine ⟨by simpa using hne, fun d hd => ?_⟩
    obtain ⟨b, hb, rfl⟩ := List.mem_map.mp hd
    exact h b hb

/-- The number that a text writes digit by digit. -/
theorem natural?_eq {t : Text} {radix n : Nat} (hr : radix ≤ 16)
    (h : written radix (t.toList.map letter) = some n) : natural? t radix = some n := by
  obtain ⟨hne, hd, rfl⟩ := written_iff.1 h
  have hd16 : ∀ b ∈ t.toList, digit (letter b) < 16 := fun b hb =>
    Nat.lt_of_lt_of_le (hd _ (List.mem_map_of_mem hb)) hr
  have hall : t.all (digitValue · < radix) = true := by
    rw [Text.all_eq, List.all_eq_true]
    intro b hb
    rw [digitValue_eq (hd16 b hb)]
    exact decide_eq_true (hd _ (List.mem_map_of_mem hb))
  have hempty : t.isEmpty = false := by
    rw [Text.isEmpty_eq, List.isEmpty_eq_false_iff]
    exact fun h0 => hne (by rw [h0]; rfl)
  unfold natural?
  rw [hempty, hall, Text.foldl_eq, ofDigits_letters radix t.toList hd16]
  rfl

/-- Digits begin with no sign. -/
theorem integer?_eq {t : Text} {radix n : Nat} (hr : radix ≤ 16)
    (h : written radix (t.toList.map letter) = some n) : integer? t radix = some (n : Int) := by
  obtain ⟨hne, hd, -⟩ := written_iff.1 h
  have hfirst : digit (letter (t.at0 0)) < 16 := by
    cases ht : t.toList with
    | nil => exact absurd (by rw [ht]; rfl) hne
    | cons b bs =>
      rw [Text.at0_eq, ht]
      exact Nat.lt_of_lt_of_le (hd _ (by simp [ht])) hr
  obtain ⟨hminus, hplus⟩ := sign_not_digit hfirst
  unfold integer?
  rw [hminus, hplus, natural?_eq hr h]
  rfl

theorem letter_eq_iff {b : UInt8} {c : Char} (hc : c.toNat < 256) :
    letter b = c ↔ b = UInt8.ofNat c.toNat := by
  have hn : (UInt8.ofNat c.toNat).toNat = c.toNat := UInt8.toNat_ofNat_of_lt' hc
  constructor
  · rintro rfl
    rw [toNat_letter, UInt8.ofNat_toNat]
  · rintro rfl
    unfold letter
    rw [hn, Char.ofNat_toNat]

theorem toList_withoutUnderscores (raw : Text) :
    (withoutUnderscores raw).toList.map letter =
      (raw.toList.map letter).filter (· ≠ '_') := by
  rw [withoutUnderscores, Text.toList_filter, List.filter_map]
  congr 1
  apply List.filter_congr
  intro b _
  have h := letter_eq_iff (b := b) (c := '_') (by decide)
  rw [Function.comp_apply, decide_not, bne, decide_eq_decide.2 h]
  rfl

/-- A suffix of one letter is the last letter. -/
theorem endsWith_letter {t u : Text} {b : UInt8} (hu : u.toList = [b]) :
    t.endsWith u = true ↔ (t.toList.map letter).getLast? = some (letter b) := by
  rw [Text.endsWith_iff, hu, List.getLast?_map]
  constructor
  · rintro ⟨front, h⟩
    rw [← h, List.getLast?_concat]
    rfl
  · intro h
    obtain ⟨a, ha, hab⟩ := Option.map_eq_some_iff.1 h
    rw [letter_inj hab] at ha
    exact ⟨_, List.dropLast_append_getLast? b ha⟩

theorem hasLongSuffix_iff (t : Text) : hasLongSuffix t = true ↔
    (t.toList.map letter).getLast? = some 'l' ∨ (t.toList.map letter).getLast? = some 'L' := by
  rw [hasLongSuffix, Bool.or_eq_true, endsWith_letter (b := 108) rfl, endsWith_letter (b := 76) rfl]
  exact Iff.rfl

theorem radixAndDigits_zero {c : Char} (cs : List Char) (hx : c ≠ 'x' ∧ c ≠ 'X')
    (hb : c ≠ 'b' ∧ c ≠ 'B') : radixAndDigits ('0' :: c :: cs) = (8, c :: cs) := by
  unfold radixAndDigits
  split <;> simp_all

theorem radixAndDigits_decimal {c : Char} (cs : List Char) (h : c ≠ '0') :
    radixAndDigits (c :: cs) = (10, c :: cs) := by
  unfold radixAndDigits
  split <;> simp_all

/-- The radix is told by the first two bytes. -/
theorem cut_eq {s : Text} {radix m : Nat} {ds : List Char}
    (hr : radixAndDigits (s.toList.map letter) = (radix, ds)) (hw : written radix ds = some m) :
    ∃ d : Text, (if s.size > 2 && (s.startsWith "0x" || s.startsWith "0X") then (s.drop 2, 16)
      else if s.size > 2 && (s.startsWith "0b" || s.startsWith "0B") then (s.drop 2, 2)
      else if s.size > 1 && s.at0 0 == '0' then (s.drop 1, 8)
      else (s, 10)) = (d, radix) ∧ d.toList.map letter = ds := by
  have hne := (written_iff.1 hw).1
  have h0x : ("0x" : Text).toList = [48, 120] := rfl
  have h0X : ("0X" : Text).toList = [48, 88] := rfl
  have h0b : ("0b" : Text).toList = [48, 98] := rfl
  have h0B : ("0B" : Text).toList = [48, 66] := rfl
  have hz : (('0' : Char) : UInt8) = 48 := rfl
  have hsize := Text.size_eq s
  have hfirst := Text.at0_eq s 0
  simp only [Bool.and_eq_true, Bool.or_eq_true, Text.startsWith_iff, h0x, h0X, h0b, h0B,
    decide_eq_true_eq, beq_iff_eq, hz]
  match hs : s.toList with
  | [] =>
    rw [hs] at hr
    cases hr
    exact absurd rfl hne
  | [a] =>
    rw [hs] at hr hsize
    have hr' : radixAndDigits [letter a] = (10, [letter a]) := by
      unfold radixAndDigits
      split <;> simp_all
    rw [List.map_singleton, hr'] at hr
    cases hr
    exact ⟨s, by simp [hsize], by simp [hs]⟩
  | a :: b :: rest =>
    rw [hs] at hr hsize hfirst
    have hrest : (s.drop 2).toList = rest := by rw [Text.toList_drop, hs]; rfl
    simp only [List.cons_prefix_cons, List.nil_prefix, and_true, hfirst, hsize,
      List.getD_cons_zero, List.length_cons]
    rw [List.map_cons, List.map_cons] at hr
    by_cases ha : a = 48
    · subst ha
      by_cases hx : b = 120 ∨ b = 88
      · have hr' : (16, rest.map letter) = (radix, ds) := by
          rcases hx with rfl | rfl <;> exact hr
        cases hr'
        have hlen : rest.length ≠ 0 := fun h0 => hne (by simpa using h0)
        refine ⟨s.drop 2, if_pos ?_, by rw [hrest]⟩
        exact ⟨by omega, by simpa [eq_comm] using hx⟩
      · by_cases hb : b = 98 ∨ b = 66
        · have hr' : (2, rest.map letter) = (radix, ds) := by
            rcases hb with rfl | rfl <;> exact hr
          cases hr'
          have hlen : rest.length ≠ 0 := fun h0 => hne (by simpa using h0)
          refine ⟨s.drop 2, ?_, by rw [hrest]⟩
          rw [if_neg (fun h => hx (by simpa [eq_comm] using h.2)), if_pos]
          exact ⟨by omega, by simpa [eq_comm] using hb⟩
        · obtain ⟨hx₁, hx₂⟩ := not_or.1 hx
          obtain ⟨hb₁, hb₂⟩ := not_or.1 hb
          have hother : ∀ {c : Char}, c.toNat < 256 → b ≠ UInt8.ofNat c.toNat → letter b ≠ c :=
            fun hc h he => h ((letter_eq_iff hc).1 he)
          have hr' := radixAndDigits_zero (c := letter b) (rest.map letter)
            ⟨hother (by decide) hx₁, hother (by decide) hx₂⟩
            ⟨hother (by decide) hb₁, hother (by decide) hb₂⟩
          cases hr'.symm.trans hr
          refine ⟨s.drop 1, ?_, by rw [Text.toList_drop, hs]; rfl⟩
          rw [if_neg (fun h => hx (by simpa [eq_comm] using h.2)),
            if_neg (fun h => hb (by simpa [eq_comm] using h.2)), if_pos ⟨by omega, rfl⟩]
    · have hl : letter a ≠ '0' := fun h => ha ((letter_eq_iff (by decide)).1 h)
      rw [radixAndDigits_decimal _ hl] at hr
      cases hr
      refine ⟨s, ?_, by simp [hs]⟩
      simp [Ne.symm ha, ha]

theorem radixAndDigits_suffix (ls : List Char) : (radixAndDigits ls).2 <:+ ls := by
  unfold radixAndDigits
  split
  all_goals simp only [List.suffix_refl, List.suffix_cons_iff, or_true]

/-- The last letter of a number is a digit. -/
theorem digit_getLast {ls ds : List Char} {radix m : Nat} {c : Char}
    (hr : radixAndDigits ls = (radix, ds)) (hw : written radix ds = some m)
    (hc : ls.getLast? = some c) : digit c < 16 := by
  obtain ⟨hne, hd, -⟩ := written_iff.1 hw
  obtain ⟨front, hls⟩ : ds <:+ ls := by simpa only [hr] using radixAndDigits_suffix ls
  have hle : radix ≤ 16 := by simpa only [hr] using radixAndDigits_le ls
  rw [← hls, List.getLast?_append_of_ne_nil _ hne] at hc
  exact Nat.lt_of_lt_of_le (hd c (List.mem_of_getLast? hc)) hle

/-- Reading finds the digits and the radix that a literal is written with. -/
theorem digitsAndRadix_eq {kind : Kind} {raw : Text} {radix m : Nat} {ls ds : List Char}
    (hbody : body kind raw = some ls) (hr : radixAndDigits ls = (radix, ds))
    (hw : written radix ds = some m) :
    ∃ d, digitsAndRadix raw = (d, radix) ∧ d.toList.map letter = ds := by
  have hs : ((if hasLongSuffix (withoutUnderscores raw) then (withoutUnderscores raw).dropRight 1
      else withoutUnderscores raw).toList.map letter) = ls := by
    have hall := toList_withoutUnderscores raw
    cases kind with
    | int =>
      cases hbody
      rw [← hall] at hr
      have hsuffix : ¬ hasLongSuffix (withoutUnderscores raw) = true := by
        rw [hasLongSuffix_iff]
        rintro (h | h)
        · exact absurd (digit_getLast hr hw h) (by decide)
        · exact absurd (digit_getLast hr hw h) (by decide)
      rw [if_neg hsuffix, hall]
    | long =>
      obtain ⟨hlast, hls⟩ := Option.ite_none_right_eq_some.1 hbody
      cases hls
      rw [← hall] at hlast
      rw [if_pos ((hasLongSuffix_iff _).2 hlast), Text.toList_dropRight, ← hall,
        ← List.map_dropLast, List.dropLast_eq_take]
    | float | double | char | string | textBlock | boolean | null => cases hbody
  rw [← hs] at hr
  exact cut_eq hr hw

/-- The width of the integers that literals of a kind denote. -/
def bits : Kind → Nat
  | .long => 64
  | _ => 32

/-- The number that digits denote with a width: in the decimal radix the number itself, in others
its bits. -/
def numberOf (bits radix m : Nat) : Option Int :=
  if radix = 10 then if m < 2 ^ (bits - 1) then some m else none
  else if m < 2 ^ bits then some (Value.wrap bits m) else none

/-- The number that an integer literal denotes. -/
def denoted (kind : Kind) (raw : Text) : Option Int := do
  let (radix, ds) := radixAndDigits (← body kind raw)
  numberOf (bits kind) radix (← written radix ds)

theorem magnitude_iff {kind : Kind} {raw : Text} {m : Nat} : magnitude kind raw = some m ↔
    ∃ ls radix ds, body kind raw = some ls ∧ radixAndDigits ls = (radix, ds) ∧
      written radix ds = some m := by
  simp only [magnitude, Option.bind_eq_bind, Option.bind_eq_some_iff]
  constructor
  · rintro ⟨ls, hb, hw⟩
    exact ⟨ls, _, _, hb, rfl, hw⟩
  · rintro ⟨ls, radix, ds, hb, hr, hw⟩
    exact ⟨ls, hb, by rw [hr]; exact hw⟩

/-- The bounds that reading keeps. -/
theorem integer_eq {n radix m : Nat} {raw d : Text} {v : Int} (hd : digitsAndRadix raw = (d, radix))
    (hi : integer? d radix = some (m : Int)) (h : integer n raw false = .ok v) :
    numberOf n radix m = some v := by
  unfold numberOf
  unfold integer at h
  rw [hd] at h
  simp only [hi, Bool.not_false, Bool.and_true] at h
  by_cases hten : radix = 10
  · rw [if_pos (beq_iff_eq.2 hten)] at h
    rw [if_pos hten]
    have hp : (2 : Int) ^ (n - 1) = ((2 ^ (n - 1) : Nat) : Int) := by norm_cast
    rw [hp] at h
    generalize 2 ^ (n - 1) = limit at h ⊢
    split at h
    · cases h
    next hlt =>
      simp only [Bool.or_eq_true, decide_eq_true_eq, beq_iff_eq, not_or] at hlt
      rw [if_neg (by simpa using hlt.2)] at h
      cases h
      rw [if_pos (by omega)]
  · rw [if_neg (by simpa using hten)] at h
    rw [if_neg hten]
    have hp : (2 : Int) ^ n = ((2 ^ n : Nat) : Int) := by norm_cast
    rw [hp] at h
    split at h
    · cases h
    next hlt =>
      cases h
      rw [if_pos (by omega)]
      rfl

theorem denoted_iff {kind : Kind} {raw : Text} {v : Int} : denoted kind raw = some v ↔
    ∃ ls radix ds m, body kind raw = some ls ∧ radixAndDigits ls = (radix, ds) ∧
      written radix ds = some m ∧ numberOf (bits kind) radix m = some v := by
  simp only [denoted, Option.bind_eq_bind, Option.bind_eq_some_iff]
  constructor
  · rintro ⟨ls, hb, m, hw, hv⟩
    exact ⟨ls, _, _, m, hb, rfl, hw, hv⟩
  · rintro ⟨ls, radix, ds, m, hb, hr, hw, hv⟩
    exact ⟨ls, hb, by rw [hr]; exact ⟨m, hw, hv⟩⟩

/-- Reading an integer literal gives the number that it denotes. -/
theorem integer_denoted {kind : Kind} {raw : Text} {v : Int} (hm : (magnitude kind raw).isSome)
    (h : integer (bits kind) raw false = .ok v) : denoted kind raw = some v := by
  obtain ⟨m, hm⟩ := Option.isSome_iff_exists.1 hm
  obtain ⟨ls, radix, ds, hb, hr, hw⟩ := magnitude_iff.1 hm
  obtain ⟨d, hd, hds⟩ := digitsAndRadix_eq hb hr hw
  have hle : radix ≤ 16 := by simpa only [hr] using radixAndDigits_le ls
  have hi : integer? d radix = some (m : Int) := integer?_eq hle (by rw [hds]; exact hw)
  exact denoted_iff.2 ⟨ls, radix, ds, m, hb, hr, hw, integer_eq hd hi h⟩

/-- The number is one of the width. -/
theorem denoted_wrap {kind : Kind} {raw : Text} {v : Int} (h : denoted kind raw = some v) :
    Value.wrap (bits kind) v = v := by
  have hbits : bits kind = bits kind - 1 + 1 := by cases kind <;> rfl
  obtain ⟨ls, radix, ds, m, -, -, -, hv⟩ := denoted_iff.1 h
  unfold numberOf at hv
  split at hv
  · obtain ⟨hlt, hv⟩ := Option.ite_none_right_eq_some.1 hv
    cases hv
    have hlt : (m : Int) < 2 ^ (bits kind - 1) := by exact_mod_cast hlt
    have hpos : (0 : Int) < 2 ^ (bits kind - 1) := by positivity
    rw [hbits]
    exact Constant.wrap_of_bounds (by omega) hlt
  · obtain ⟨-, hv⟩ := Option.ite_none_right_eq_some.1 hv
    cases hv
    exact Constant.wrap_wrap (Nat.le_refl _) m

end Javelin.Literal
