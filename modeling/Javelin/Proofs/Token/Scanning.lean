import Javelin.Proofs.Text.Characters
import Javelin.Proofs.Text.Classes
import Javelin.Token.Scan

/-!
# Every token takes bytes, and none that are not there

Inside a text, `scan` finds a token that is not the end, takes at least one byte and stops inside
the text (`scan_fits`), whatever the bytes are. Each scanner is a walk that never goes back and
reads a byte only where there is one: past the end `at0` gives zero, which no scanner takes.
-/

namespace Javelin

namespace Text

/-- Past the end there is only the byte zero. -/
theorem lt_size_of_at0 {t : Text} {p : UInt8 → Bool} {i : Nat} (h0 : p 0 = false)
    (h : p (t.at0 i) = true) : i < t.size := by
  by_contra hi
  have hzero : t.at0 i = 0 := dif_neg hi
  rw [hzero, h0] at h
  exact Bool.false_ne_true h

theorem lt_size_of_beq {t : Text} {b : UInt8} {i : Nat} (hb : (0 == b) = false)
    (h : (t.at0 i == b) = true) : i < t.size :=
  lt_size_of_at0 (p := (· == b)) hb h

theorem le_skipWhile (t : Text) (p : UInt8 → Bool) (i : Nat) : i ≤ t.skipWhile p i := by
  fun_induction skipWhile t p i with
  | case1 i h hp ih => omega
  | case2 => omega
  | case3 => omega

theorem skipWhile_le {t : Text} (p : UInt8 → Bool) {i : Nat} (hi : i ≤ t.size) :
    t.skipWhile p i ≤ t.size := by
  fun_induction skipWhile t p i with
  | case1 i h hp ih => exact ih h
  | case2 => exact hi
  | case3 => exact hi

theorem lt_skipWhile {t : Text} {p : UInt8 → Bool} {i : Nat} (hi : i < t.size)
    (hp : p (t.at0 i) = true) : i < t.skipWhile p i := by
  have hi' : i < t.bytes.size := hi
  have hat : t.at0 i = t.bytes[i] := dif_pos hi'
  have hstep : t.skipWhile p i = t.skipWhile p (i + 1) := by
    rw [skipWhile, dif_pos hi', if_pos (hat ▸ hp)]
  have hle := le_skipWhile t p (i + 1)
  omega

theorem hasAt_le {t p : Text} {i : Nat} (h : t.hasAt i p = true) : i + p.size ≤ t.size :=
  ((hasAt_iff t p i).1 h).1

theorem findTextFrom_bounds {t p : Text} {n i j : Nat} (h : t.findTextFrom p i n = some j) :
    i ≤ j ∧ j + p.size ≤ t.size := by
  fun_induction findTextFrom t p i n with
  | case1 => exact absurd h (by simp)
  | case2 i n hat =>
    obtain rfl := Option.some.inj h
    exact ⟨Nat.le_refl _, hasAt_le hat⟩
  | case3 i n hat ih =>
    obtain ⟨hle, hend⟩ := ih h
    exact ⟨by omega, hend⟩

/-- A character takes at least one byte and only bytes that are there. -/
theorem decodeAt_bounds {t : Text} {i : Nat} (hi : i < t.size) :
    0 < (t.decodeAt i).2 ∧ i + (t.decodeAt i).2 ≤ t.size := by
  unfold decodeAt
  rw [if_pos hi]
  split
  · exact ⟨Nat.one_pos, hi⟩
  split
  next c hc =>
    rw [ByteArray.utf8DecodeChar?_eq_utf8DecodeChar?_extract] at hc
    have hbytes := String.toByteArray_utf8EncodeChar_of_utf8DecodeChar?_eq_some hc
    have hsize := congrArg ByteArray.size hbytes
    simp only [List.size_toByteArray, String.length_utf8EncodeChar, ByteArray.size_extract] at hsize
    have hpos := c.utf8Size_pos
    refine ⟨hpos, ?_⟩
    show i + c.utf8Size ≤ t.bytes.size
    omega
  · exact ⟨Nat.one_pos, hi⟩

end Text

namespace Token

/-- What is found at offset `i` is a token of at least one byte inside the text. -/
structure Scanned.Fits (t : Text) (i : Nat) (s : Scanned) : Prop where
  kind : s.kind ≠ .eof
  after : i < s.stop
  inside : s.stop ≤ t.size

variable {t : Text} {i : Nat}

/-! ## Pieces of tokens -/

theorem le_skipOne (t : Text) (p : UInt8 → Bool) (i : Nat) : i ≤ skipOne t p i := by
  unfold skipOne
  split <;> omega

theorem skipOne_le {p : UInt8 → Bool} (h0 : p 0 = false) (hi : i ≤ t.size) :
    skipOne t p i ≤ t.size := by
  unfold skipOne
  split
  next h => exact Text.lt_size_of_at0 h0 h
  next => exact hi

theorem skipAtMost_bounds {p : UInt8 → Bool} (h0 : p 0 = false) (n : Nat) : ∀ i ≤ t.size,
    i ≤ skipAtMost t p i n ∧ skipAtMost t p i n ≤ t.size := by
  induction n with
  | zero => exact fun i hi => ⟨Nat.le_refl _, hi⟩
  | succ n ih =>
    intro i hi
    unfold skipAtMost
    split
    next h =>
      obtain ⟨hle, hend⟩ := ih (i + 1) (Text.lt_size_of_at0 h0 h)
      exact ⟨by omega, hend⟩
    next => exact ⟨Nat.le_refl _, hi⟩

theorem escapeEnd_bounds (inBlock : Bool) (hi : i ≤ t.size) :
    i ≤ (escapeEnd t inBlock i).1 ∧ (escapeEnd t inBlock i).1 ≤ t.size := by
  unfold escapeEnd
  dsimp only
  split
  next h => exact ⟨Nat.le_succ i, Text.lt_size_of_at0 (p := isSimpleEscape) rfl h⟩
  split
  next => exact skipAtMost_bounds rfl _ i hi
  split
  next =>
    have hle := Text.le_skipWhile t (· == 'u') i
    have hskip := skipAtMost_bounds (p := Text.isHexDigit) rfl 4 _ (Text.skipWhile_le (· == 'u') hi)
    exact ⟨Nat.le_trans hle hskip.1, hskip.2⟩
  split
  next h => exact ⟨Nat.le_succ i, Text.lt_size_of_beq rfl (Bool.and_eq_true_iff.1 h).2⟩
  split
  next h =>
    have hlt := Text.lt_size_of_beq (by decide) (Bool.and_eq_true_iff.1 h).2
    have hle := le_skipOne t (· == '\n') (i + 1)
    exact ⟨by omega, skipOne_le (p := (· == '\n')) (by decide) hlt⟩
  split
  next h =>
    simp only [Bool.and_eq_true, decide_eq_true_eq] at h
    exact ⟨Nat.le_succ i, h.1⟩
  next => exact ⟨Nat.le_refl i, hi⟩

/-! ## Comments and words -/

theorem scanLineComment_fits (h : i + 2 ≤ t.size) : (scanLineComment t i).Fits t i := by
  have hle := Text.le_skipWhile t (fun b => !isLineEnd b) (i + 2)
  exact ⟨by simp [scanLineComment], Nat.lt_of_lt_of_le (by omega) hle, Text.skipWhile_le _ h⟩

theorem scanBlockComment_fits (h : i + 2 ≤ t.size) : (scanBlockComment t i).Fits t i := by
  unfold scanBlockComment
  split
  next j hj =>
    obtain ⟨hle, hend⟩ := Text.findTextFrom_bounds hj
    exact ⟨by simp, show i < j + 2 by omega, hend⟩
  next => exact ⟨by simp, show i < t.size by omega, Nat.le_refl _⟩

theorem wordEnd_bounds (fuel : Nat) : ∀ i ≤ t.size,
    i ≤ wordEnd t i fuel ∧ wordEnd t i fuel ≤ t.size := by
  induction fuel with
  | zero => exact fun i hi => ⟨Nat.le_refl _, hi⟩
  | succ fuel ih =>
    intro i hi
    unfold wordEnd
    dsimp only
    split
    next => exact ⟨Nat.le_refl _, hi⟩
    next h =>
      have hpos : (t.decodeAt i).2 ≠ 0 := by
        intro hzero
        simp [hzero] at h
      have hlt : i < t.size := by
        by_contra hge
        exact hpos (by simp [Text.decodeAt, hge])
      obtain ⟨hle, hend⟩ := ih _ (Text.decodeAt_bounds hlt).2
      exact ⟨by omega, hend⟩

/-- A word takes its first letter at least. -/
theorem lt_wordEnd (hi : i < t.size) (hletter : Text.isLetter (t.decodeAt i).1 = true) :
    i < wordEnd t i (t.size - i) := by
  obtain ⟨fuel, hfuel⟩ : ∃ fuel, t.size - i = fuel + 1 := ⟨t.size - i - 1, by omega⟩
  obtain ⟨hpos, hend⟩ := Text.decodeAt_bounds hi
  have hword := Text.isLetterOrDigit_of_isLetter hletter
  have hnext := (wordEnd_bounds fuel _ hend).1
  rw [hfuel, wordEnd]
  dsimp only
  rw [hword, if_neg (by simp; omega)]
  omega

theorem keywords_distinct :
    (keywords.map fun k => (k.spelling, k)).Pairwise fun a b => (a.1 == b.1) = false := by
  decide +kernel

theorem mem_keywords_of_getElem? {word : Text} {k : Kind} (h : keywordTable[word]? = some k) :
    k ∈ keywords := by
  cases hc : ((keywords.map fun k => (k.spelling, k)).map Prod.fst).contains word with
  | false =>
    rw [keywordTable, Std.HashMap.getElem?_ofList_of_contains_eq_false hc] at h
    exact nomatch h
  | true =>
    simp only [List.contains_iff_mem, List.mem_map] at hc
    obtain ⟨_, ⟨k', hk', rfl⟩, rfl⟩ := hc
    have hfound : keywordTable[k'.spelling]? = some k' := Std.HashMap.getElem?_ofList_of_mem
      (beq_self_eq_true k'.spelling) keywords_distinct (List.mem_map_of_mem hk')
    rw [hfound] at h
    exact Option.some.inj h ▸ hk'

/-- A word is a keyword or an identifier. -/
theorem kindOfWord_mem (word : Text) (level : Level) :
    kindOfWord word level ∈ Kind.identifier :: keywords := by
  unfold kindOfWord
  split
  next k hk =>
    split
    · exact List.mem_cons_self
    · exact List.mem_cons_of_mem _ (mem_keywords_of_getElem? hk)
  next => exact List.mem_cons_self

theorem scanWord_mem {level : Level} :
    (scanWord t level i).kind ∈ Kind.nonSealed :: Kind.identifier :: keywords := by
  unfold scanWord
  dsimp only
  split
  · exact List.mem_cons_self
  · exact List.mem_cons_of_mem _ (kindOfWord_mem _ _)

theorem scanWord_fits {level : Level} (hi : i < t.size)
    (hletter : Text.isLetter (t.decodeAt i).1 = true) : (scanWord t level i).Fits t i := by
  have hlt := lt_wordEnd hi hletter
  have hend := (wordEnd_bounds (t.size - i) i (Nat.le_of_lt hi)).2
  have hkind : (scanWord t level i).kind ≠ .eof :=
    ne_of_mem_of_not_mem scanWord_mem (by decide)
  unfold scanWord at hkind ⊢
  dsimp only at hkind ⊢
  split
  next h =>
    have hsealed : t.hasAt (wordEnd t i (t.size - i)) "-sealed" = true := by
      simp only [sealedFollows, Bool.and_eq_true] at h
      exact h.2.1
    exact ⟨by simp, Nat.lt_add_right 7 hlt, Text.hasAt_le hsealed⟩
  next h =>
    rw [if_neg h] at hkind
    exact ⟨hkind, hlt, hend⟩

/-! ## Numbers -/

theorem le_digitRun (t : Text) (p : UInt8 → Bool) (i : Nat) : i ≤ (digitRun t p i).stop :=
  Text.le_skipWhile t _ i

theorem digitRun_le (p : UInt8 → Bool) (hi : i ≤ t.size) : (digitRun t p i).stop ≤ t.size :=
  Text.skipWhile_le _ hi

theorem lt_digitRun {p : UInt8 → Bool} (hi : i < t.size) (hp : p (t.at0 i) = true) :
    i < (digitRun t p i).stop :=
  Text.lt_skipWhile hi (by rw [hp, Bool.or_true])

/-- The digits behind the sign of an exponent. -/
theorem exponent_bounds (hi : i < t.size) :
    i < (digitRun t Text.isDigit (skipOne t isSign (i + 1))).stop ∧
      (digitRun t Text.isDigit (skipOne t isSign (i + 1))).stop ≤ t.size := by
  have hsign := le_skipOne t isSign (i + 1)
  have hrun := le_digitRun t Text.isDigit (skipOne t isSign (i + 1))
  exact ⟨by omega, digitRun_le _ (skipOne_le (p := isSign) (by decide) hi)⟩

theorem lt_size_of_either {b c : UInt8} (hb : (0 == b) = false) (hc : (0 == c) = false)
    (h : (t.at0 i == b || t.at0 i == c) = true) : i < t.size :=
  Text.lt_size_of_at0 (p := fun x => x == b || x == c) (by simp only [hb, hc, Bool.or_false]) h

theorem scanFraction_bounds (fault : Option Problem.Id) (hi : i ≤ t.size) :
    i ≤ (scanFraction t i fault).1 ∧ (scanFraction t i fault).1 ≤ t.size ∧
      ((t.at0 i == '.' && fractionFollows t i) = true → i < (scanFraction t i fault).1) := by
  unfold scanFraction
  by_cases hpoint : (t.at0 i == '.' && fractionFollows t i) = true
  · have hlt : i < t.size := Text.lt_size_of_beq (by decide) (Bool.and_eq_true_iff.1 hpoint).1
    have hrun := le_digitRun t Text.isDigit (i + 1)
    simp only [hpoint, if_true]
    split
    next he =>
      have hexp := exponent_bounds (lt_size_of_either (by decide) (by decide) he)
      exact ⟨by dsimp only; omega, hexp.2, fun _ => by dsimp only; omega⟩
    next => exact ⟨by dsimp only; omega, digitRun_le _ hlt, fun _ => hrun⟩
  · rw [Bool.not_eq_true] at hpoint
    simp only [hpoint, Bool.false_eq_true, if_false]
    split
    next he =>
      have hexp := exponent_bounds (lt_size_of_either (by decide) (by decide) he)
      exact ⟨Nat.le_of_lt hexp.1, hexp.2, nofun⟩
    next => exact ⟨Nat.le_refl i, hi, nofun⟩

/-- A suffix is taken where there is one. -/
theorem suffix_bounds (isFloat : Bool) (hi : i ≤ t.size) :
    let r := if isFloatSuffix (t.at0 i) then (i + 1, true)
      else if isLongSuffix (t.at0 i) && !isFloat then (i + 1, isFloat)
      else (i, isFloat)
    i ≤ r.1 ∧ r.1 ≤ t.size := by
  dsimp only
  split
  next h => exact ⟨Nat.le_succ i, Text.lt_size_of_at0 (p := isFloatSuffix) (by decide) h⟩
  split
  next h =>
    have hlong := (Bool.and_eq_true_iff.1 h).1
    exact ⟨Nat.le_succ i, Text.lt_size_of_at0 (p := isLongSuffix) (by decide) hlong⟩
  next => exact ⟨Nat.le_refl i, hi⟩

theorem numberKind_ne_eof (isFloat : Bool) :
    (if isFloat then Kind.floatLiteral else .intLiteral) ≠ .eof := by
  cases isFloat <;> decide

/-- A decimal literal starts with a digit, or with a point and a digit. -/
theorem scanDecimal_fits (hi : i < t.size)
    (hstart : (Text.isDigit (t.at0 i) || (t.at0 i == '.' && Text.isDigit (t.at0 (i + 1)))) = true) :
    (scanDecimal t i).Fits t i := by
  have hwhole := le_digitRun t Text.isDigit i
  have hbounds := scanFraction_bounds (underscoreFault (digitRun t Text.isDigit i).misplaced none)
    (digitRun_le Text.isDigit (Nat.le_of_lt hi))
  have hafter : i < (scanFraction t (digitRun t Text.isDigit i).stop
      (underscoreFault (digitRun t Text.isDigit i).misplaced none)).1 := by
    by_cases hdigit : Text.isDigit (t.at0 i) = true
    · have hlt := lt_digitRun (p := Text.isDigit) hi hdigit
      omega
    by_cases hlt : i < (digitRun t Text.isDigit i).stop
    · omega
    · have heq : (digitRun t Text.isDigit i).stop = i := by omega
      simp only [hdigit, Bool.false_or, Bool.and_eq_true] at hstart
      rw [heq] at hbounds ⊢
      apply hbounds.2.2
      rw [Bool.and_eq_true, fractionFollows]
      exact ⟨hstart.1, by simp only [hstart.2, if_true]⟩
  unfold scanDecimal
  dsimp only
  generalize scanFraction t (digitRun t Text.isDigit i).stop
    (underscoreFault (digitRun t Text.isDigit i).misplaced none) = fraction at hbounds hafter ⊢
  obtain ⟨j, isFloat, fault⟩ := fraction
  have hsuffix := suffix_bounds isFloat hbounds.2.1
  dsimp only at hafter hsuffix ⊢
  generalize (if isFloatSuffix (t.at0 j) then (j + 1, true)
    else if isLongSuffix (t.at0 j) && !isFloat then (j + 1, isFloat)
    else (j, isFloat)) = suffixed at hsuffix ⊢
  obtain ⟨k, isFloat⟩ := suffixed
  have hkind := numberKind_ne_eof isFloat
  have hword := Text.le_skipWhile t (fun b => Text.isLetterByte b || Text.isDigit b) k
  have hend := Text.skipWhile_le (fun b => Text.isLetterByte b || Text.isDigit b) hsuffix.2
  dsimp only at hsuffix hkind ⊢
  split <;> split
  all_goals exact ⟨hkind, by dsimp only; omega, by dsimp only; omega⟩

theorem scanHex_fits (h : i + 2 ≤ t.size) : (scanHex t i).Fits t i := by
  have hwhole := le_digitRun t Text.isHexDigit (i + 2)
  have hwholeEnd := digitRun_le Text.isHexDigit h
  unfold scanHex
  dsimp only
  -- the point and the digits behind it
  generalize hpoint : (if t.at0 (digitRun t Text.isHexDigit (i + 2)).stop == '.' then _ else _ :
    Nat × Bool × Bool × Option Problem.Id) = point
  obtain ⟨j, isFloat, hasDigit, fault⟩ := point
  have hj : i < j ∧ j ≤ t.size := by
    split at hpoint
    next hdot =>
      have hlt : _ + 1 ≤ t.size := Text.lt_size_of_beq (by decide) hdot
      have hrun := le_digitRun t Text.isHexDigit ((digitRun t Text.isHexDigit (i + 2)).stop + 1)
      have hrunEnd := digitRun_le Text.isHexDigit hlt
      cases hpoint
      omega
    next =>
      cases hpoint
      omega
  dsimp only
  -- the exponent
  generalize hexponent : (if t.at0 j == 'p' || t.at0 j == 'P' then _ else _ :
    Nat × Bool × Option Problem.Id) = exponent
  obtain ⟨k, isFloat, fault⟩ := exponent
  have hk : i < k ∧ k ≤ t.size := by
    split at hexponent
    next hp =>
      have hexp := exponent_bounds (lt_size_of_either (by decide) (by decide) hp)
      cases hexponent
      omega
    next => split at hexponent <;> (cases hexponent; exact hj)
  have hsuffix : ((if isFloat = true then isFloatSuffix else isLongSuffix) 0) = false := by
    cases isFloat <;> decide
  have hstop := le_skipOne t (if isFloat = true then isFloatSuffix else isLongSuffix) k
  exact ⟨numberKind_ne_eof isFloat, Nat.lt_of_lt_of_le hk.1 hstop, skipOne_le hsuffix hk.2⟩

theorem scanBinary_fits (h : i + 2 ≤ t.size) : (scanBinary t i).Fits t i := by
  have hrun := le_digitRun t isBinaryDigit (i + 2)
  have hrunEnd := digitRun_le isBinaryDigit h
  unfold scanBinary
  dsimp only
  generalize hdigits : (if Text.isDigit (t.at0 (digitRun t isBinaryDigit (i + 2)).stop) then _
    else _ : Nat × Option Problem.Id) = digits
  obtain ⟨j, fault⟩ := digits
  have hj : i < j ∧ j ≤ t.size := by
    split at hdigits
    next =>
      have hskip := Text.le_skipWhile t (fun b => Text.isDigit b || b == '_')
        (digitRun t isBinaryDigit (i + 2)).stop
      have hskipEnd := Text.skipWhile_le (fun b => Text.isDigit b || b == '_') hrunEnd
      cases hdigits
      omega
    next =>
      cases hdigits
      omega
  have hstop := le_skipOne t isLongSuffix j
  exact ⟨by simp, Nat.lt_of_lt_of_le hj.1 hstop, skipOne_le (p := isLongSuffix) (by decide) hj.2⟩

theorem scanNumber_fits (hi : i < t.size)
    (hstart : (Text.isDigit (t.at0 i) || (t.at0 i == '.' && Text.isDigit (t.at0 (i + 1)))) = true) :
    (scanNumber t i).Fits t i := by
  unfold scanNumber
  dsimp only
  split
  next h =>
    exact scanHex_fits (lt_size_of_either (by decide) (by decide) (Bool.and_eq_true_iff.1 h).2)
  split
  next h =>
    exact scanBinary_fits (lt_size_of_either (by decide) (by decide) (Bool.and_eq_true_iff.1 h).2)
  next => exact scanDecimal_fits hi hstart

/-! ## Quoted literals -/

theorem charBody_bounds (fuel : Nat) : ∀ (i count : Nat) (fault : Option Problem.Id), i ≤ t.size →
    i ≤ (charBody t i count fault fuel).1 ∧ (charBody t i count fault fuel).1 ≤ t.size := by
  induction fuel with
  | zero => exact fun i _ _ hi => ⟨Nat.le_refl i, hi⟩
  | succ fuel ih =>
    intro i count fault hi
    unfold charBody
    dsimp only
    split
    next h =>
      have hlt : i < t.size := by
        simp only [Bool.and_eq_true, decide_eq_true_eq] at h
        exact h.1.1
      split
      next =>
        have hescape := escapeEnd_bounds (t := t) (i := i + 1) false hlt
        have hrest := ih (escapeEnd t false (i + 1)).1 (count + 1)
          (escapeFault (escapeEnd t false (i + 1)).2 fault) hescape.2
        exact ⟨by omega, hrest.2⟩
      next =>
        have hrest := ih (i + (t.decodeAt i).2) (count + 1) fault (Text.decodeAt_bounds hlt).2
        exact ⟨by omega, hrest.2⟩
    next => exact ⟨Nat.le_refl i, hi⟩

theorem scanChar_fits (hi : i < t.size) : (scanChar t i).Fits t i := by
  have hbody := charBody_bounds (t.size - i) (i + 1) 0 none hi
  unfold scanChar
  dsimp only
  split
  next h => exact ⟨by simp, by dsimp only; omega, Text.lt_size_of_beq (by decide) h⟩
  next => exact ⟨by simp, by dsimp only; omega, hbody.2⟩

theorem stringBody_bounds (fuel : Nat) : ∀ (i : Nat) (fault : Option Problem.Id), i ≤ t.size →
    i ≤ (stringBody t i fault fuel).1 ∧ (stringBody t i fault fuel).1 ≤ t.size := by
  induction fuel with
  | zero => exact fun i _ hi => ⟨Nat.le_refl i, hi⟩
  | succ fuel ih =>
    intro i fault hi
    unfold stringBody
    dsimp only
    split
    next h =>
      have hlt : i < t.size := by
        simp only [Bool.and_eq_true, decide_eq_true_eq] at h
        exact h.1.1
      split
      next =>
        have hescape := escapeEnd_bounds (t := t) (i := i + 1) false hlt
        have hrest := ih (escapeEnd t false (i + 1)).1
          (escapeFault (escapeEnd t false (i + 1)).2 fault) hescape.2
        exact ⟨by omega, hrest.2⟩
      next =>
        have hrest := ih (i + 1) fault hlt
        exact ⟨by omega, hrest.2⟩
    next => exact ⟨Nat.le_refl i, hi⟩

theorem scanString_fits (hi : i < t.size) : (scanString t i).Fits t i := by
  have hbody := stringBody_bounds (t.size - i) (i + 1) none hi
  unfold scanString
  dsimp only
  split
  next h => exact ⟨by simp, by dsimp only; omega, Text.lt_size_of_beq (by decide) h⟩
  next => exact ⟨by simp, by dsimp only; omega, hbody.2⟩

theorem blockBody_bounds (fuel : Nat) : ∀ (i : Nat) (fault : Option Problem.Id), i ≤ t.size →
    i ≤ (blockBody t i fault fuel).1 ∧ (blockBody t i fault fuel).1 ≤ t.size := by
  induction fuel with
  | zero => exact fun i _ hi => ⟨Nat.le_refl i, hi⟩
  | succ fuel ih =>
    intro i fault hi
    unfold blockBody
    split
    next hlt =>
      split
      next h => exact ⟨Nat.le_add_right i 3, Text.hasAt_le h⟩
      split
      next =>
        have hescape := escapeEnd_bounds (t := t) (i := i + 1) true hlt
        have hrest := ih (escapeEnd t true (i + 1)).1
          (escapeFault (escapeEnd t true (i + 1)).2 fault) hescape.2
        exact ⟨by dsimp only; omega, hrest.2⟩
      next =>
        have hrest := ih (i + 1) fault hlt
        exact ⟨by omega, hrest.2⟩
    next => exact ⟨Nat.le_refl i, hi⟩

theorem scanTextBlock_fits {level : Level} (h : i + 3 ≤ t.size) :
    (scanTextBlock t level i).Fits t i := by
  unfold scanTextBlock
  dsimp only
  have hskip := Text.le_skipWhile t (fun b => b == ' ' || b == '\t' || b == 0x0c) (i + 3)
  have hskipEnd := Text.skipWhile_le (fun b => b == ' ' || b == '\t' || b == 0x0c) h
  have hbody := blockBody_bounds (t := t) (t.size - t.skipWhile
    (fun b => b == ' ' || b == '\t' || b == 0x0c) (i + 3) + 1) _ (if isLineEnd (t.at0 (t.skipWhile
      (fun b => b == ' ' || b == '\t' || b == 0x0c) (i + 3))) then none
        else some Problem.Id.unterminatedTextBlock) hskipEnd
  exact ⟨by simp, by dsimp only; omega, hbody.2⟩

/-! ## Operators and the whole -/

theorem operators_spelled : ∀ k ∈ operators, k ≠ .eof ∧ 0 < k.spelling.size := by decide +kernel

theorem scanOperator_mem : (scanOperator t i).kind ∈ Kind.invalid :: operators := by
  unfold scanOperator
  split
  next k hk => exact List.mem_cons_of_mem _ (List.mem_of_find?_eq_some hk)
  next => exact List.mem_cons_self

theorem scanOperator_fits (hi : i < t.size) : (scanOperator t i).Fits t i := by
  unfold scanOperator
  split
  next k hk =>
    have hspelled := operators_spelled k (List.mem_of_find?_eq_some hk)
    have hat := List.find?_some hk
    exact ⟨hspelled.1, Nat.lt_add_of_pos_right hspelled.2, Text.hasAt_le hat⟩
  next =>
    obtain ⟨hpos, hend⟩ := Text.decodeAt_bounds hi
    exact ⟨by simp, by dsimp only; omega, by dsimp only; omega⟩

/-- Inside a text there is always a token, and it takes at least one byte. -/
theorem scan_fits (t : Text) (level : Level) {i : Nat} (hi : i < t.size) :
    (scan t level i).Fits t i := by
  unfold scan
  rw [if_neg (Nat.not_le.2 hi)]
  dsimp only
  split
  next h =>
    exact scanLineComment_fits (Text.lt_size_of_beq (by decide) (Bool.and_eq_true_iff.1 h).2)
  split
  next h =>
    exact scanBlockComment_fits (Text.lt_size_of_beq (by decide) (Bool.and_eq_true_iff.1 h).2)
  split
  next h => exact ⟨by simp, Text.lt_skipWhile hi h, Text.skipWhile_le _ (Nat.le_of_lt hi)⟩
  split
  next h => exact scanWord_fits hi h
  split
  next h => exact scanNumber_fits hi h
  split
  next => exact scanChar_fits hi
  split
  next =>
    split
    next h =>
      exact scanTextBlock_fits (Text.lt_size_of_beq (by decide) (Bool.and_eq_true_iff.1 h).2)
    next => exact scanString_fits hi
  next => exact scanOperator_fits hi

/-- At the end there is only the end. -/
theorem scan_end (t : Text) (level : Level) {i : Nat} (hi : t.size ≤ i) :
    scan t level i = ⟨.eof, i, none⟩ := if_pos hi

end Token

end Javelin
