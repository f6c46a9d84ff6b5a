import Mathlib.Data.List.Chain
import Javelin.Text.Letter

/-!
# Character classes as unions of ranges

The boundaries of a class, in order, are the ends of its ranges. `boundariesUpTo` counts the
boundaries up to a code point (`boundariesUpTo_spec`), so membership is a walk over the ranges
(`inClass_iff`), and one class contains another when its ranges do (`mem_of_covered`). Every
character that may start an identifier may also continue one.
-/

namespace Javelin.Text

/-- The number of leading entries of a table that are at most `c`, with all others above. -/
structure SplitsAt (table : Array Nat) (c r : Nat) : Prop where
  le_size : r ≤ table.size
  low : ∀ k < r, table.getD k 0 ≤ c
  high : ∀ k, r ≤ k → k < table.size → c < table.getD k 0

/-- Halving finds the place where a sorted table passes `c`. -/
theorem boundariesUpTo_spec {table : Array Nat} {c : Nat}
    (sorted : ∀ j k, j ≤ k → k < table.size → table.getD j 0 ≤ table.getD k 0) :
    ∀ (fuel lo hi : Nat), lo ≤ hi → hi ≤ table.size → hi - lo < 2 ^ fuel →
      (∀ k < lo, table.getD k 0 ≤ c) → (∀ k, hi ≤ k → k < table.size → c < table.getD k 0) →
      SplitsAt table c (boundariesUpTo table c lo hi fuel) := by
  intro fuel
  induction fuel with
  | zero =>
    intro lo hi hle hsize hf low high
    have heq : lo = hi := by simp at hf; omega
    subst heq
    exact ⟨hsize, low, high⟩
  | succ fuel ih =>
    intro lo hi hle hsize hf low high
    unfold boundariesUpTo
    rw [Nat.pow_succ] at hf
    by_cases hlt : lo < hi
    · rw [if_pos hlt]
      dsimp only
      by_cases hmid : table.getD ((lo + hi) / 2) 0 ≤ c
      · rw [if_pos hmid]
        apply ih _ _ (by omega) hsize (by omega) _ high
        intro k hk
        exact Nat.le_trans (sorted k ((lo + hi) / 2) (by omega) (by omega)) hmid
      · rw [if_neg hmid]
        apply ih _ _ (by omega) (by omega) (by omega) low
        intro k hk hks
        exact Nat.lt_of_lt_of_le (Nat.not_le.1 hmid) (sorted ((lo + hi) / 2) k hk hks)
    · rw [if_neg hlt]
      have heq : lo = hi := by omega
      subst heq
      exact ⟨hsize, low, high⟩

/-- Membership of `c` by a walk over the boundaries, two for each range. -/
def InRanges (c : Nat) : List Nat → Prop
  | lo :: hi :: rest => (lo ≤ c ∧ c < hi) ∨ InRanges c rest
  | _ => False

/-- An odd number of boundaries lies at or below the code points of the ranges. -/
theorem odd_iff_inRanges {c : Nat} (bounds : List Nat) : ∀ r ≤ bounds.length,
    bounds.length % 2 = 0 → (∀ k < r, bounds.getD k 0 ≤ c) →
    (∀ k, r ≤ k → k < bounds.length → c < bounds.getD k 0) →
    (r % 2 = 1 ↔ InRanges c bounds) := by
  fun_induction InRanges c bounds with
  | case1 lo hi rest ih =>
    intro r hr even low high
    simp only [List.length_cons] at hr even high
    match r with
    | 0 =>
      have hlo : c < lo := high 0 (Nat.le_refl 0) (by omega)
      have hrest := ih 0 (Nat.zero_le _) (by omega) (fun k hk => absurd hk (Nat.not_lt_zero k))
        fun k _ hk => high (k + 2) (Nat.zero_le _) (by omega)
      rw [← hrest]
      omega
    | 1 =>
      have hlo : lo ≤ c := low 0 Nat.one_pos
      have hhi : c < hi := high 1 (Nat.le_refl 1) (by omega)
      exact iff_of_true rfl (.inl ⟨hlo, hhi⟩)
    | r + 2 =>
      have hhi : hi ≤ c := low 1 (by omega)
      have hrest := ih r (by omega) (by omega) (fun k hk => low (k + 2) (by omega))
        fun k hk hlt => high (k + 2) (by omega) (by omega)
      rw [← hrest]
      omega
  | case2 bounds shape =>
    intro r hr even _ _
    match bounds with
    | [] => exact iff_of_false (by simp at hr; omega) id
    | [_] => simp at even
    | lo :: hi :: rest => exact absurd rfl (shape lo hi rest)

/-- A table whose entries ascend, two for each range. -/
def IsRanges (table : Array Nat) : Prop :=
  table.toList.IsChain (· < ·) ∧ table.size % 2 = 0 ∧ table.size < 2 ^ (32 : Nat)

instance (table : Array Nat) : Decidable (IsRanges table) := inferInstanceAs (Decidable (_ ∧ _ ∧ _))

theorem getD_toList (table : Array Nat) (k : Nat) : table.getD k 0 = table.toList.getD k 0 := by
  simp [Array.getD_eq_getD_getElem?, List.getD_eq_getElem?_getD]

theorem IsRanges.sorted {table : Array Nat} (h : IsRanges table) (j k : Nat) (hjk : j ≤ k)
    (hk : k < table.size) : table.getD j 0 ≤ table.getD k 0 := by
  obtain rfl | hlt := Nat.eq_or_lt_of_le hjk
  · exact Nat.le_refl _
  · have hpair := List.pairwise_iff_getElem.1 (List.isChain_iff_pairwise.1 h.1)
    have hlt' := hpair j k (Nat.lt_trans hlt hk) hk hlt
    simp only [getD_toList, List.getD_eq_getElem?_getD]
    rw [List.getElem?_eq_getElem (Nat.lt_trans hlt hk), List.getElem?_eq_getElem hk]
    exact Nat.le_of_lt hlt'

/-- Membership in a class is membership in one of its ranges. -/
theorem inClass_iff {table : Array Nat} (h : IsRanges table) (c : Nat) :
    inClass table c = true ↔ InRanges c table.toList := by
  have hsplit := boundariesUpTo_spec (c := c) h.sorted 32 0 table.size (Nat.zero_le _)
    (Nat.le_refl _) (by simpa using h.2.2) (fun k hk => absurd hk (Nat.not_lt_zero k))
    fun k hk hlt => absurd hlt (Nat.not_lt.2 hk)
  rw [inClass, beq_iff_eq]
  refine odd_iff_inRanges table.toList _ hsplit.le_size h.2.1 ?_ ?_
  · intro k hk
    rw [← getD_toList]
    exact hsplit.low k hk
  · intro k hk hlt
    rw [← getD_toList]
    exact hsplit.high k hk hlt

/-- Whether every range of the first list lies inside a range of the second, by one walk over
both of at most `n` steps. -/
def covered : Nat → List Nat → List Nat → Bool
  | _, [], _ => true
  | n + 1, lo :: hi :: inner, from' :: upTo :: outer =>
    if upTo ≤ lo then covered n (lo :: hi :: inner) outer
    else from' ≤ lo && hi ≤ upTo && covered n inner (from' :: upTo :: outer)
  | _, _, _ => false

theorem mem_of_covered {c n : Nat} {inner outer : List Nat} (h : covered n inner outer = true)
    (hc : InRanges c inner) : InRanges c outer := by
  fun_induction covered n inner outer with
  | case1 => exact hc.elim
  | case2 n lo hi inner from' upTo outer hle ih => exact .inr (ih h hc)
  | case3 n lo hi inner from' upTo outer hle ih =>
    simp only [Bool.and_eq_true, decide_eq_true_eq] at h
    obtain ⟨⟨hfrom, hupTo⟩, hrest⟩ := h
    obtain hhere | hlater := hc
    · exact .inl ⟨Nat.le_trans hfrom hhere.1, Nat.lt_of_lt_of_le hhere.2 hupTo⟩
    · exact ih hrest hlater
  | case4 => exact absurd h Bool.false_ne_true

set_option maxRecDepth 20000 in
theorem letterBoundaries_isRanges : IsRanges letterBoundaries := by decide

set_option maxRecDepth 20000 in
theorem wordBoundaries_isRanges : IsRanges wordBoundaries := by decide

set_option maxRecDepth 20000 in
theorem letters_covered : covered 3000 letterBoundaries.toList wordBoundaries.toList = true := by
  decide

/-- A character that may start an identifier may also continue one. -/
theorem isLetterOrDigit_of_isLetter {c : Char} (h : isLetter c = true) :
    isLetterOrDigit c = true := by
  unfold isLetter at h
  unfold isLetterOrDigit
  split
  next hlow => rw [if_pos hlow] at h; rw [h, Bool.true_or]
  next hlow =>
    rw [if_neg hlow, inClass_iff letterBoundaries_isRanges] at h
    rw [inClass_iff wordBoundaries_isRanges]
    exact mem_of_covered letters_covered h

end Javelin.Text
