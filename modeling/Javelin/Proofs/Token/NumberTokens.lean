import Mathlib.Data.List.TakeWhile
import Javelin.Proofs.Constant.Numerals
import Javelin.Proofs.Text.Cutting
import Javelin.Proofs.Token.Scanning

/-!
# What integer tokens write

The scanner takes a number apart into runs of digits and underscores, and the evaluator reads the
same number from the text of the token. Where the scanner finds nothing wrong, the text writes a
number (`scanNumber_magnitude`), and reading it gives this number unless it is too large
(`integer_of_written`).

1. Runs of digits and underscores.
2. The text of integer tokens: digits and a suffix (`scanDecimal_int`, `scanHex_int`,
   `scanBinary_int`).
3. The digits write a number.
4. What reading gives.
-/

namespace Javelin

open Literal (letter digit body written magnitude radixAndDigits)

namespace Token

variable {t : Text} {p : UInt8 → Bool} {i : Nat}

/-! ## Runs of digits -/

/-- The bytes of a run of digits and underscores. -/
def runAt (t : Text) (p : UInt8 → Bool) (i : Nat) : List UInt8 :=
  (t.toList.drop i).takeWhile fun b => b == '_' || p b

theorem digitRun_stop (t : Text) (p : UInt8 → Bool) (i : Nat) :
    (digitRun t p i).stop = i + (runAt t p i).length :=
  Text.skipWhile_eq ..

theorem toList_run (t : Text) (p : UInt8 → Bool) (i : Nat) :
    (t.slice i (digitRun t p i).stop).toList = runAt t p i := by
  rw [Text.toList_slice, digitRun_stop, Nat.add_sub_cancel_left]
  exact (List.prefix_iff_eq_take.mp (List.takeWhile_prefix _)).symm

theorem drop_run (t : Text) (p : UInt8 → Bool) (i : Nat) :
    t.toList.drop i = runAt t p i ++ t.toList.drop (digitRun t p i).stop :=
  Text.drop_skipWhile ..

theorem hasDigit_eq (t : Text) (p : UInt8 → Bool) (i : Nat) :
    (digitRun t p i).hasDigit = (runAt t p i).any p := by
  rw [← toList_run, ← Text.any_eq]
  rfl

theorem misplaced_eq (t : Text) (p : UInt8 → Bool) (i : Nat) : (digitRun t p i).misplaced =
    (decide (i < (digitRun t p i).stop) &&
      (t.at0 i == '_' || t.at0 ((digitRun t p i).stop - 1) == '_')) := rfl

/-- A run with its underscores in place starts and ends with a digit. -/
theorem ends_of_misplaced (h : (digitRun t p i).misplaced = false) :
    (runAt t p i).head? ≠ some 95 ∧ (runAt t p i).getLast? ≠ some 95 := by
  have hdrop := drop_run t p i
  cases hrun : runAt t p i with
  | nil => simp
  | cons b bs =>
    rw [hrun] at hdrop
    have hstop : (digitRun t p i).stop = i + bs.length + 1 := by
      rw [digitRun_stop, hrun, List.length_cons, Nat.add_assoc]
    have hlast : (b :: bs).getLast? = some (t.at0 (i + bs.length)) := by
      have hget : t.toList[i + bs.length]? = (b :: bs)[bs.length]? := by
        rw [← List.getElem?_drop, hdrop, List.getElem?_append_left (by simp)]
      rw [List.getLast?_eq_getElem?, List.length_cons, Nat.add_sub_cancel, ← hget, Text.at0_eq,
        List.getD_eq_getElem?_getD, hget]
      simp
    rw [misplaced_eq, Text.at0_of_drop hdrop, hstop, Nat.add_sub_cancel,
      decide_eq_true (by omega), Bool.true_and, Bool.or_eq_false_iff] at h
    rw [hlast, List.head?_cons]
    exact ⟨fun he => beq_eq_false_iff_ne.mp h.1 (Option.some.inj he),
      fun he => beq_eq_false_iff_ne.mp h.2 (Option.some.inj he)⟩

/-- The digits of a run. -/
def cleaned (bs : List UInt8) : List UInt8 := bs.filter (· != 95)

/-! ## The text of integer tokens -/

theorem underscoreFault_eq_none {bad : Bool} {fault : Option Problem.Id} :
    underscoreFault bad fault = none ↔ bad = false ∧ fault = none := by
  cases bad <;> simp [underscoreFault]

/-- A number without a point and an exponent is no fraction. -/
theorem scanFraction_int {fault : Option Problem.Id} (h : (scanFraction t i fault).2.1 = false) :
    (t.at0 i == '.' && fractionFollows t i) = false ∧
      scanFraction t i fault = (i, false, fault) := by
  unfold scanFraction at h ⊢
  by_cases hpoint : (t.at0 i == '.' && fractionFollows t i) = true
  · simp only [hpoint, if_true, apply_ite Prod.snd, apply_ite Prod.fst, ite_self] at h
    cases h
  · rw [if_neg hpoint] at h ⊢
    dsimp only at h ⊢
    by_cases hexponent : (t.at0 i == 'e' || t.at0 i == 'E') = true
    · rw [if_pos hexponent] at h
      cases h
    · exact ⟨by simpa using hpoint, if_neg hexponent⟩

/-- A token ends at an offset, or behind the suffix for `long` that stands there. -/
def Suffixed (t : Text) (j stop : Nat) : Prop :=
  stop = j ∨ stop = j + 1 ∧ isLongSuffix (t.at0 j) = true

theorem skipOne_suffixed (t : Text) (j : Nat) : Suffixed t j (skipOne t isLongSuffix j) := by
  unfold skipOne
  split
  next h => exact .inr ⟨rfl, h⟩
  · exact .inl rfl

theorem scanDecimal_int (hkind : (scanDecimal t i).kind = .intLiteral)
    (hfault : (scanDecimal t i).fault = none) :
    (t.at0 (digitRun t Text.isDigit i).stop == '.' &&
        fractionFollows t (digitRun t Text.isDigit i).stop) = false ∧
      (digitRun t Text.isDigit i).misplaced = false ∧
      Suffixed t (digitRun t Text.isDigit i).stop (scanDecimal t i).stop ∧
      hasBadOctal (t.slice i (scanDecimal t i).stop) = false := by
  unfold scanDecimal at hkind hfault ⊢
  dsimp only at hkind hfault ⊢
  generalize hfraction : scanFraction t (digitRun t Text.isDigit i).stop
    (underscoreFault (digitRun t Text.isDigit i).misplaced none) = fraction at hkind hfault ⊢
  obtain ⟨j, isFloat, fault⟩ := fraction
  -- a suffix for floating point numbers would make the token one
  have hfloat : isFloatSuffix (t.at0 j) = false := by
    by_contra hfloat
    rw [Bool.not_eq_false] at hfloat
    simp only [hfloat, if_true, apply_ite Scanned.kind, ite_self] at hkind
    cases hkind
  simp only [hfloat, Bool.false_eq_true, if_false, apply_ite Scanned.kind, ite_self] at hkind hfault ⊢
  have hint : isFloat = false := by
    cases isFloat with
    | false => rfl
    | true => simp at hkind
  subst hint
  have hskip : (if (isLongSuffix (t.at0 j) && !false) = true then (j + 1, false) else (j, false)) =
      (skipOne t isLongSuffix j, false) := by
    rw [Bool.not_false, Bool.and_true, skipOne]
    split <;> rfl
  simp only [hskip] at hfault ⊢
  -- letters behind the number would be a fault, and so would be a bad octal digit
  generalize hoctal : (if (fault.isNone && !false && _) = true then _ else fault) = fault'
    at hfault ⊢
  by_cases hletters :
      (fault'.isNone && Text.isLetterByte (t.at0 (skipOne t isLongSuffix j))) = true
  · rw [if_pos hletters] at hfault
    cases hfault
  rw [if_neg hletters] at hfault ⊢
  obtain rfl : fault' = none := hfault
  by_cases hbad : (fault.isNone && !false &&
      hasBadOctal (t.slice i (skipOne t isLongSuffix j))) = true
  · rw [if_pos hbad] at hoctal
    cases hoctal
  rw [if_neg hbad] at hoctal
  subst hoctal
  obtain ⟨hpoint, hwhole⟩ := scanFraction_int (congrArg (·.2.1) hfraction)
  rw [hwhole, Prod.mk.injEq, Prod.mk.injEq, underscoreFault_eq_none] at hfraction
  obtain ⟨rfl, -, hplaced, -⟩ := hfraction
  exact ⟨hpoint, hplaced, skipOne_suffixed .., by simpa using hbad⟩

theorem scanHex_int (hkind : (scanHex t i).kind = .intLiteral)
    (hfault : (scanHex t i).fault = none) :
    (digitRun t Text.isHexDigit (i + 2)).hasDigit = true ∧
      (digitRun t Text.isHexDigit (i + 2)).misplaced = false ∧
      Suffixed t (digitRun t Text.isHexDigit (i + 2)).stop (scanHex t i).stop := by
  unfold scanHex at hkind hfault ⊢
  dsimp only at hkind hfault ⊢
  generalize digitRun t Text.isHexDigit (i + 2) = whole at hkind hfault ⊢
  -- a point or an exponent would make the token a floating point number
  by_cases hpoint : (t.at0 whole.stop == '.') = true
  · simp only [hpoint, if_true, apply_ite Prod.snd, apply_ite Prod.fst, ite_self] at hkind
    cases hkind
  rw [Bool.not_eq_true] at hpoint
  simp only [hpoint, Bool.false_eq_true, if_false] at hkind hfault ⊢
  by_cases hexponent : (t.at0 whole.stop == 'p' || t.at0 whole.stop == 'P') = true
  · simp only [hexponent, if_true] at hkind
    cases hkind
  rw [Bool.not_eq_true] at hexponent
  simp only [hexponent, Bool.false_eq_true, if_false] at hkind hfault ⊢
  by_cases hdigit : whole.hasDigit = true
  · rw [if_pos hdigit, underscoreFault_eq_none] at hfault
    exact ⟨hdigit, hfault.1, skipOne_suffixed ..⟩
  · rw [if_neg hdigit] at hfault
    cases hfault

theorem scanBinary_int (hfault : (scanBinary t i).fault = none) :
    (digitRun t isBinaryDigit (i + 2)).hasDigit = true ∧
      (digitRun t isBinaryDigit (i + 2)).misplaced = false ∧
      Suffixed t (digitRun t isBinaryDigit (i + 2)).stop (scanBinary t i).stop := by
  unfold scanBinary at hfault ⊢
  dsimp only at hfault ⊢
  generalize digitRun t isBinaryDigit (i + 2) = run at hfault ⊢
  by_cases hdigit : run.hasDigit = true
  · rw [if_pos hdigit] at hfault
    by_cases hmore : Text.isDigit (t.at0 run.stop) = true
    · rw [if_pos hmore] at hfault
      cases hfault
    · rw [if_neg hmore] at hfault ⊢
      exact ⟨hdigit, (underscoreFault_eq_none.mp hfault).1, skipOne_suffixed ..⟩
  · rw [if_neg hdigit] at hfault
    cases hfault

/-! ## The digits of integer tokens -/

/-- What stands behind the digits of an integer. -/
def IsSuffix (bs : List UInt8) : Prop := bs = [] ∨ ∃ b, bs = [b] ∧ isLongSuffix b = true

theorem slice_run {j stop : Nat} (h : Suffixed t (digitRun t p j).stop stop) :
    ∃ suffix, IsSuffix suffix ∧ (t.slice j stop).toList = runAt t p j ++ suffix := by
  rcases h with rfl | ⟨rfl, hlong⟩
  · exact ⟨[], .inl rfl, by rw [toList_run, List.append_nil]⟩
  · have hlt : (digitRun t p j).stop < t.toList.length := Text.lt_size_of_at0 (by decide) hlong
    obtain ⟨b, hdrop⟩ : ∃ b, t.toList.drop (digitRun t p j).stop =
        b :: t.toList.drop ((digitRun t p j).stop + 1) := ⟨_, List.drop_eq_getElem_cons hlt⟩
    rw [Text.at0_of_drop hdrop] at hlong
    refine ⟨[b], .inr ⟨b, rfl, hlong⟩, ?_⟩
    rw [Text.toList_slice, drop_run t p j, hdrop, digitRun_stop, Nat.add_assoc,
      Nat.add_sub_cancel_left, List.take_append, List.take_of_length_le (by omega),
      Nat.add_sub_cancel_left]
    rfl

theorem letter_suffix {b : UInt8} : isLongSuffix b = true ↔ letter b = 'l' ∨ letter b = 'L' := by
  rw [Literal.letter_eq_iff (by decide), Literal.letter_eq_iff (by decide), isLongSuffix,
    Bool.or_eq_true, beq_iff_eq, beq_iff_eq]

theorem map_letter_filter (bs : List UInt8) :
    (bs.map letter).filter (· ≠ '_') = (cleaned bs).map letter := by
  rw [cleaned, List.filter_map]
  congr 1
  apply List.filter_congr
  intro b _
  have h := Literal.letter_eq_iff (b := b) (c := '_') (by decide)
  rw [Function.comp_apply, decide_not, bne, decide_eq_decide.2 h]
  rfl

/-- The kind of an integer literal is told by its suffix, which is no part of its body. -/
theorem body_eq {raw : Text} {front suffix : List UInt8} (hraw : raw.toList = front ++ suffix)
    (hsuffix : IsSuffix suffix) (hlast : ∀ b ∈ front.getLast?, isLongSuffix b = false) :
    body (if Literal.hasLongSuffix raw then .long else .int) raw =
      some ((cleaned front).map letter) := by
  have hlong : Literal.hasLongSuffix raw = true ↔ ∃ b ∈ raw.toList.getLast?, isLongSuffix b = true := by
    rw [Literal.hasLongSuffix_iff, List.getLast?_map]
    cases raw.toList.getLast? with
    | none => simp
    | some b => simp [letter_suffix]
  rcases hsuffix with rfl | ⟨b, rfl, hb⟩
  · rw [List.append_nil] at hraw
    have hint : ¬ Literal.hasLongSuffix raw = true := by
      rw [hlong, hraw]
      rintro ⟨b, hmem, hb⟩
      rw [hlast b hmem] at hb
      cases hb
    rw [if_neg hint, body, hraw, map_letter_filter]
  · have hb' : b ≠ 95 := by rintro rfl; cases hb
    have hcleaned : cleaned (front ++ [b]) = cleaned front ++ [b] := by
      simp [cleaned, hb']
    rw [if_pos (hlong.mpr ⟨b, by rw [hraw, List.getLast?_concat]; rfl, hb⟩), body, hraw,
      map_letter_filter, hcleaned, List.map_append, List.map_singleton, List.getLast?_concat,
      List.dropLast_concat, if_pos]
    simpa using letter_suffix.mp hb

theorem mem_cleaned {bs : List UInt8} {b : UInt8} : b ∈ cleaned bs ↔ b ∈ bs ∧ b ≠ 95 := by
  rw [cleaned, List.mem_filter, bne_iff_ne]

/-- Every byte of a run but the underscores is a digit. -/
theorem of_mem_cleaned_run {b : UInt8} (h : b ∈ cleaned (runAt t p i)) : p b = true := by
  obtain ⟨hmem, hne⟩ := mem_cleaned.mp h
  have hb := List.mem_takeWhile_imp hmem
  rw [Bool.or_eq_true, beq_iff_eq] at hb
  exact hb.resolve_left hne

/-- A run with its underscores in place ends with a digit. -/
theorem last_of_misplaced (h : (digitRun t p i).misplaced = false) {b : UInt8}
    (hb : b ∈ (runAt t p i).getLast?) : p b = true :=
  of_mem_cleaned_run (mem_cleaned.mpr ⟨List.mem_of_getLast? hb, by
    rintro rfl
    exact (ends_of_misplaced h).2 hb⟩)

/-- Behind a prefix of two letters stands a number in its radix. -/
theorem prefixed_magnitude {a b : UInt8} {radix stop : Nat}
    (hdrop : t.toList.drop i = a :: b :: t.toList.drop (i + 2))
    (hradix : ∀ ds, radixAndDigits (letter a :: letter b :: ds) = (radix, ds))
    (hclean : a ≠ 95 ∧ b ≠ 95) (hvalue : ∀ b, p b = true → digit (letter b) < radix)
    (hlong : ∀ b, p b = true → isLongSuffix b = false)
    (hdigit : (digitRun t p (i + 2)).hasDigit = true) (hunder : p 95 = false)
    (hplaced : (digitRun t p (i + 2)).misplaced = false)
    (hstop : Suffixed t (digitRun t p (i + 2)).stop stop) :
    (magnitude (if Literal.hasLongSuffix (t.slice i stop) then .long else .int)
      (t.slice i stop)).isSome := by
  obtain ⟨suffix, hsuffix, hrun⟩ := slice_run hstop
  have hle : i + 2 ≤ stop := by
    have := le_digitRun t p (i + 2)
    rcases hstop with rfl | ⟨rfl, -⟩ <;> omega
  have hraw : (t.slice i stop).toList = (a :: b :: runAt t p (i + 2)) ++ suffix := by
    rw [Text.toList_slice] at hrun ⊢
    rw [hdrop, show stop - i = stop - (i + 2) + 1 + 1 by omega, List.take_succ_cons,
      List.take_succ_cons, hrun]
    rfl
  obtain ⟨d, hd, hpd⟩ : ∃ d ∈ runAt t p (i + 2), p d = true := by
    simpa [hasDigit_eq] using hdigit
  have hne : runAt t p (i + 2) ≠ [] := List.ne_nil_of_mem hd
  have hbody := body_eq hraw hsuffix fun c hc => by
    rw [List.getLast?_cons_of_ne_nil (by simp), List.getLast?_cons_of_ne_nil hne] at hc
    exact hlong c (last_of_misplaced hplaced hc)
  have hcleaned : cleaned (a :: b :: runAt t p (i + 2)) = a :: b :: cleaned (runAt t p (i + 2)) := by
    simp [cleaned, hclean]
  rw [hcleaned, List.map_cons, List.map_cons] at hbody
  rw [magnitude, hbody, Option.bind_eq_bind, Option.bind_some, hradix]
  refine Literal.written_isSome (List.ne_nil_of_mem (mem_cleaned.mpr ⟨hd, ?_⟩))
    fun b hb => hvalue b (of_mem_cleaned_run hb)
  rintro rfl
  rw [hunder] at hpd
  cases hpd

/-- The digits of a number without its suffix. -/
theorem toList_trimSuffix {raw : Text} {front suffix : List UInt8}
    (hraw : raw.toList = front ++ suffix) (hsuffix : IsSuffix suffix)
    (hlast : ∀ b ∈ front.getLast?, isLongSuffix b = false) :
    (raw.trimRight isLongSuffix).toList = front := by
  have hfront : front.rdropWhile isLongSuffix = front := by
    rw [List.rdropWhile_eq_self_iff]
    intro hne hb
    rw [hlast _ (List.getLast?_eq_some_getLast hne)] at hb
    cases hb
  rw [Text.toList_trimRight, hraw]
  rcases hsuffix with rfl | ⟨b, rfl, hb⟩
  · rw [List.append_nil, hfront]
  · rw [List.rdropWhile_concat_pos _ _ _ hb, hfront]

/-- What holds of digits of a radix, by their bytes. -/
theorem digits_bytes : ∀ b, (Text.isDigit b = true → digit (letter b) < 10 ∧
      isLongSuffix b = false ∧ (letter b ≠ 'x' ∧ letter b ≠ 'X') ∧ (letter b ≠ 'b' ∧ letter b ≠ 'B') ∧
      ((b == '8' || b == '9') = false → digit (letter b) < 8)) ∧
    (Text.isHexDigit b = true → digit (letter b) < 16 ∧ isLongSuffix b = false) ∧
    (isBinaryDigit b = true → digit (letter b) < 2 ∧ isLongSuffix b = false) :=
  Literal.forall_byte (by decide +kernel)

theorem runAt_eq (hi : i < t.toList.length) : runAt t p i =
    if (t.at0 i == '_' || p (t.at0 i)) = true then t.at0 i :: runAt t p (i + 1) else [] := by
  have hdrop := List.drop_eq_getElem_cons hi
  rw [runAt, hdrop, List.takeWhile_cons, Text.at0_of_drop hdrop]
  rfl

/-- Digits without a prefix: a number that starts with a zero and goes on is octal. -/
theorem written_decimal {b : UInt8} {bs : List UInt8} (hb : Text.isDigit b = true)
    (hbs : ∀ c ∈ bs, Text.isDigit c = true)
    (hoctal : b = 48 → bs ≠ [] → ∀ c ∈ bs, (c == '8' || c == '9') = false) :
    (written (radixAndDigits ((b :: bs).map letter)).1
      (radixAndDigits ((b :: bs).map letter)).2).isSome := by
  have hall : ∀ c ∈ b :: bs, Text.isDigit c = true := by simpa [hb] using hbs
  by_cases hzero : b = 48
  · subst hzero
    cases bs with
    | nil => decide
    | cons c cs =>
      obtain ⟨-, -, hx, hbinary, -⟩ := (digits_bytes c).1 (hbs c (by simp))
      rw [List.map_cons, List.map_cons, show letter 48 = '0' from rfl,
        Literal.radixAndDigits_zero _ hx hbinary]
      exact Literal.written_isSome (List.cons_ne_nil c cs) fun d hd =>
        ((digits_bytes d).1 (hbs d hd)).2.2.2.2 (hoctal rfl (by simp) d hd)
  · have hletter : letter b ≠ '0' := fun h => hzero ((Literal.letter_eq_iff (by decide)).mp h)
    rw [List.map_cons, Literal.radixAndDigits_decimal _ hletter]
    exact Literal.written_isSome (List.cons_ne_nil b bs) fun d hd =>
      ((digits_bytes d).1 (hall d hd)).1

theorem decimal_magnitude (hstart : Text.isDigit (t.at0 i) = true ∨ t.at0 i = 46 ∧
      Text.isDigit (t.at0 (i + 1)) = true)
    (hkind : (scanDecimal t i).kind = .intLiteral) (hfault : (scanDecimal t i).fault = none) :
    (magnitude (if Literal.hasLongSuffix (t.slice i (scanDecimal t i).stop) then .long else .int)
      (t.slice i (scanDecimal t i).stop)).isSome := by
  obtain ⟨hpoint, hplaced, hstop, hoctal⟩ := scanDecimal_int hkind hfault
  obtain ⟨suffix, hsuffix, hraw⟩ := slice_run hstop
  have hi : i < t.toList.length := by
    rcases hstart with h | ⟨hdot, -⟩
    · exact Text.lt_size_of_at0 (by decide) h
    · exact Text.lt_size_of_beq (b := 46) (by decide) (beq_iff_eq.mpr hdot)
  have hrun := runAt_eq (p := Text.isDigit) hi
  -- a number that starts with a point would have a fraction
  have hdigit : Text.isDigit (t.at0 i) = true := by
    rcases hstart with h | ⟨hdot, hnext⟩
    · exact h
    · rw [hdot, if_neg (by decide)] at hrun
      rw [digitRun_stop, hrun, List.length_nil, Nat.add_zero, hdot, fractionFollows, hnext] at hpoint
      cases hpoint
  rw [hdigit, Bool.or_true, if_pos rfl] at hrun
  generalize hbyte : t.at0 i = b at hrun hdigit
  generalize runAt t Text.isDigit (i + 1) = bs at hrun
  have hlast (c : UInt8) (hc : c ∈ (runAt t Text.isDigit i).getLast?) : isLongSuffix c = false :=
    ((digits_bytes c).1 (last_of_misplaced hplaced hc)).2.1
  have hclean (c : UInt8) (hc : c ∈ cleaned bs) : Text.isDigit c = true := by
    refine of_mem_cleaned_run (t := t) (i := i) (mem_cleaned.mpr ⟨?_, (mem_cleaned.mp hc).2⟩)
    rw [hrun]
    exact List.mem_cons_of_mem _ (mem_cleaned.mp hc).1
  have hfirst : cleaned (b :: bs) = b :: cleaned bs := by
    rw [cleaned, List.filter_cons_of_pos]
    · rfl
    · rw [bne_iff_ne]
      rintro rfl
      cases hdigit
  rw [magnitude, body_eq hraw hsuffix hlast, Option.bind_eq_bind, Option.bind_some, hrun, hfirst]
  refine written_decimal hdigit hclean fun hzero hne c hc => ?_
  -- more than one digit behind a zero: none of them is eight or nine
  rw [hasBadOctal, Text.any_eq, toList_trimSuffix hraw hsuffix hlast, hrun] at hoctal
  have hsize : 1 < (t.slice i (scanDecimal t i).stop).size := by
    obtain ⟨d, hd⟩ := List.exists_mem_of_ne_nil _ hne
    have hpos := List.length_pos_of_mem (mem_cleaned.mp hd).1
    rw [Text.size_eq, hraw, hrun, List.length_append, List.length_cons]
    omega
  have hhead : (t.slice i (scanDecimal t i).stop).at0 0 = 48 := by
    rw [Text.at0_eq, hraw, hrun]
    exact hzero
  rw [hhead, decide_eq_true hsize, Bool.true_and, show ((48 : UInt8) == '0') = true from rfl,
    Bool.true_and, List.any_eq_false] at hoctal
  exact Bool.not_eq_true _ ▸ hoctal c (List.mem_cons_of_mem _ (mem_cleaned.mp hc).1)

theorem drop_cons {b : UInt8} (hb : (0 == b) = false) (h : (t.at0 i == b) = true) :
    t.toList.drop i = b :: t.toList.drop (i + 1) := by
  have hdrop := List.drop_eq_getElem_cons (show i < t.toList.length from Text.lt_size_of_beq hb h)
  rw [hdrop, ← Text.at0_of_drop hdrop, beq_iff_eq.mp h]

/-- The text of an integer token without a fault writes a number. -/
theorem scanNumber_magnitude (hstart : Text.isDigit (t.at0 i) = true ∨ t.at0 i = 46 ∧
      Text.isDigit (t.at0 (i + 1)) = true)
    (hkind : (scanNumber t i).kind = .intLiteral) (hfault : (scanNumber t i).fault = none) :
    (magnitude (if Literal.hasLongSuffix (t.slice i (scanNumber t i).stop) then .long else .int)
      (t.slice i (scanNumber t i).stop)).isSome := by
  unfold scanNumber at hkind hfault ⊢
  dsimp only at hkind hfault ⊢
  by_cases hhex : (t.at0 i == '0' && (t.at0 (i + 1) == 'x' || t.at0 (i + 1) == 'X')) = true
  · simp only [hhex, if_true] at hkind hfault ⊢
    obtain ⟨hdigit, hplaced, hstop⟩ := scanHex_int hkind hfault
    obtain ⟨hzero, hx⟩ := Bool.and_eq_true_iff.mp hhex
    have hvalue (b : UInt8) := (digits_bytes b).2.1
    rcases Bool.or_eq_true_iff.mp hx with hx | hx
    · exact prefixed_magnitude (by rw [drop_cons rfl hzero, drop_cons rfl hx]) (fun _ => rfl)
        (by decide) (fun b hb => (hvalue b hb).1) (fun b hb => (hvalue b hb).2) hdigit (by decide)
        hplaced hstop
    · exact prefixed_magnitude (by rw [drop_cons rfl hzero, drop_cons rfl hx]) (fun _ => rfl)
        (by decide) (fun b hb => (hvalue b hb).1) (fun b hb => (hvalue b hb).2) hdigit (by decide)
        hplaced hstop
  rw [Bool.not_eq_true] at hhex
  simp only [hhex, Bool.false_eq_true, if_false] at hkind hfault ⊢
  by_cases hbinary : (t.at0 i == '0' && (t.at0 (i + 1) == 'b' || t.at0 (i + 1) == 'B')) = true
  · simp only [hbinary, if_true] at hkind hfault ⊢
    obtain ⟨hdigit, hplaced, hstop⟩ := scanBinary_int hfault
    obtain ⟨hzero, hb⟩ := Bool.and_eq_true_iff.mp hbinary
    have hvalue (b : UInt8) := (digits_bytes b).2.2
    rcases Bool.or_eq_true_iff.mp hb with hb | hb
    · exact prefixed_magnitude (by rw [drop_cons rfl hzero, drop_cons rfl hb]) (fun _ => rfl)
        (by decide) (fun b hb => (hvalue b hb).1) (fun b hb => (hvalue b hb).2) hdigit (by decide)
        hplaced hstop
    · exact prefixed_magnitude (by rw [drop_cons rfl hzero, drop_cons rfl hb]) (fun _ => rfl)
        (by decide) (fun b hb => (hvalue b hb).1) (fun b hb => (hvalue b hb).2) hdigit (by decide)
        hplaced hstop
  · rw [Bool.not_eq_true] at hbinary
    simp only [hbinary, Bool.false_eq_true, if_false] at hkind hfault ⊢
    exact decimal_magnitude hstart hkind hfault

end Token

namespace Literal

/-! ## Reading integers -/

/-- The integer of a width that digits of a radix denote, where it has one. Decimal digits write
the number itself; under a minus sign they may write the number whose negation is the least integer,
which is its own negation. Other digits write the bits of the number. -/
def integerValue? (bits radix m : Nat) (negated : Bool) : Option Int :=
  if radix = 10 then
    if m < 2 ^ (bits - 1) then some m
    else if negated ∧ m = 2 ^ (bits - 1) then some (-m)
    else none
  else if m < 2 ^ bits then some (Value.wrap bits m)
  else none

theorem integer_of_digits {n radix m : Nat} {raw d : Text} (negated : Bool)
    (hd : digitsAndRadix raw = (d, radix)) (hi : integer? d radix = some (m : Int)) :
    integer n raw negated = match integerValue? n radix m negated with
      | some v => .ok v
      | none => .error (numberFailure raw .outOfRange) := by
  unfold integer integerValue?
  simp only [hd, hi]
  by_cases hten : radix = 10
  · rw [if_pos (beq_iff_eq.2 hten), if_pos hten]
    have hp : (2 : Int) ^ (n - 1) = ((2 ^ (n - 1) : Nat) : Int) := by norm_cast
    rw [hp]
    generalize 2 ^ (n - 1) = limit
    by_cases hlt : m < limit
    · have hle : ¬ (decide ((m : Int) > limit) || (m : Int) == limit && !negated) = true := by
        simp only [Bool.or_eq_true, decide_eq_true_eq, Bool.and_eq_true, beq_iff_eq]
        omega
      rw [if_neg hle, if_neg (by simp; omega), if_pos hlt]
    · rw [if_neg hlt]
      by_cases heq : m = limit
      · subst heq
        cases negated <;> simp
      · rw [if_pos (by simp; omega), if_neg fun h => heq h.2]
  · rw [if_neg (by simpa using hten), if_neg hten]
    have hp : (2 : Int) ^ n = ((2 ^ n : Nat) : Int) := by norm_cast
    rw [hp]
    by_cases hlt : m < 2 ^ n
    · rw [if_neg (by omega), if_pos hlt]
      rfl
    · rw [if_pos (by omega), if_neg hlt]

/-- Reading a number that is written well fails only where it is too large. -/
theorem integer_of_written {kind : Kind} {raw : Text} {ls : List Char} {m : Nat} (n : Nat)
    (negated : Bool) (hbody : body kind raw = some ls)
    (hw : written (radixAndDigits ls).1 (radixAndDigits ls).2 = some m) :
    integer n raw negated = match integerValue? n (radixAndDigits ls).1 m negated with
      | some v => .ok v
      | none => .error (numberFailure raw .outOfRange) := by
  obtain ⟨d, hd, hds⟩ := digitsAndRadix_eq hbody rfl hw
  exact integer_of_digits negated hd
    (integer?_eq (radixAndDigits_le ls) (by rw [hds]; exact hw))

end Literal

end Javelin
