import Javelin.Proofs.Token.EscapeSequences
import Javelin.Proofs.Token.Lossless
import Javelin.Proofs.Token.NumberTokens
import Javelin.Proofs.Token.TextBlocks
import Javelin.Parse.Expressions

/-!
# Literal tokens have values

The scanner and the evaluator implement the grammar of literals twice. They agree: a literal token
in which the scanner finds no fault has a value (`literals_evaluated`), with two exceptions. A
number may be too large for its type, and a character literal may hold a single character that is no
UTF-16 unit, which the scanner does not look for.

1. Character literals and strings.
2. What the scanners of quoted literals take.
3. Which tokens are literals.
4. Evaluation.
-/

namespace Javelin

namespace Literal

open Token (IsEscape Escaped)

/-! ## Character literals -/

theorem charOf_lt {n : Nat} (h : n < 2 ^ 16) : (Text.charOf n).toNat < 2 ^ 16 := by
  unfold Text.charOf
  split
  next hvalid =>
    rw [Char.ofNat, dif_pos hvalid]
    exact h
  next => decide

theorem simpleEscape?_lt {b c : UInt8} (h : simpleEscape? b = some c) : c < 0x80 := by
  have hall : ∀ b, (simpleEscape? b).all (fun c => c < 0x80) = true :=
    forall_byte (by decide +kernel)
  have hb := hall b
  rw [h, Option.all_some] at hb
  exact of_decide_eq_true hb

theorem octal_value : ∀ b, Token.isOctalDigit b = true → b.toNat - 48 < 8 :=
  forall_byte (by decide +kernel)

theorem foldl_octal_lt (bs : List UInt8) : ∀ a, (∀ b ∈ bs, Token.isOctalDigit b = true) →
    bs.foldl (fun n b => n * 8 + (b.toNat - 48)) a < (a + 1) * 8 ^ bs.length := by
  induction bs with
  | nil => simp
  | cons b bs ih =>
    intro a h
    have hb := octal_value b (h b List.mem_cons_self)
    have hlt := ih (a * 8 + (b.toNat - 48)) fun c hc => h c (List.mem_cons_of_mem _ hc)
    rw [List.foldl_cons, List.length_cons, Nat.pow_succ']
    refine Nat.lt_of_lt_of_le hlt ?_
    rw [← Nat.mul_assoc]
    exact Nat.mul_le_mul_right _ (by omega)

/-- An escape sequence between quotes is one character, which fits into a unit. -/
theorem unescapeAt?_char {e : List UInt8} (he : IsEscape (fun b => false && Token.isLineEnd b) e) :
    ∃ c : Char, c.toNat < 2 ^ 16 ∧
      unescapeAt? (Text.ofList (92 :: e)) false 1 = some (Text.ofChar c, e.length + 1) := by
  have hdrop : (Text.ofList (92 :: e)).toList.drop 1 = e ++ [] := by simp
  unfold unescapeAt?
  cases he with
  | @simple b hb =>
    obtain ⟨c, hc⟩ := Option.isSome_iff_exists.mp ((escape_bytes b).1 hb)
    have hlt := UInt8.lt_iff_toNat_lt.mp (simpleEscape?_lt hc)
    refine ⟨Char.ofNat c.toNat, ?_, ?_⟩
    · rw [Text.toNat_ofNat (by change c.toNat < 128 at hlt; omega)]
      change c.toNat < 128 at hlt
      omega
    · rw [get?_of_drop hdrop]
      simp only [hc]
      rw [← singleton_eq hlt, UInt8.ofNat_toNat]
      rfl
  | @octal b bs hall hlen =>
    obtain ⟨hsimple, hfeed, hu, -⟩ := (escape_bytes b).2.1 (hall b List.mem_cons_self)
    have hend := skipAtMost_eq (t := Text.ofList (92 :: b :: bs)) (p := Token.isOctalDigit) rfl
      (if b ≤ '3' then 3 else 2) (hdrop.trans (List.append_nil _)) hall
    rw [Nat.min_eq_right hlen, Nat.add_comm] at hend
    refine ⟨Text.charOf (octalValue ((Text.ofList (92 :: b :: bs)).slice 1 ((b :: bs).length + 1))),
      charOf_lt ?_, ?_⟩
    · rw [octalValue, Text.foldl_eq, Text.toList_slice, hdrop, List.append_nil, Nat.add_sub_cancel,
        List.take_length]
      have hlt := foldl_octal_lt (b :: bs) 0 hall
      have hthree : (b :: bs).length ≤ 3 := by
        split at hlen <;> omega
      have hpow : 8 ^ (b :: bs).length ≤ 8 ^ 3 := Nat.pow_le_pow_right (by decide) hthree
      omega
    · rw [get?_of_drop hdrop]
      simp only [hsimple, hfeed, hu, hall b List.mem_cons_self, Bool.false_eq_true, if_false,
        if_true, hend]
      rfl
  | @unicode n ds hlen hhex =>
    obtain ⟨hskip, hsize, hslice⟩ := skip_letters hdrop hlen hhex
    have hdigits : (((Text.ofList (92 :: (List.replicate (n + 1) 117 ++ ds))).slice (1 + n + 1)
        (1 + n + 1 + 4)).all Text.isHexDigit) = true := by
      rw [Text.all_eq, hslice, List.all_eq_true]
      exact hhex
    obtain ⟨m, hm⟩ := Option.isSome_iff_exists.mp (written_isSome
      (List.ne_nil_of_length_pos (by omega)) fun d hd => ((escape_bytes d).2.2 (hhex d hd)).2)
    have hnat := natural?_eq (by decide) ((congrArg (fun l => written 16 (l.map letter)) hslice).trans hm)
    have hfirst : (Text.ofList (92 :: (List.replicate (n + 1) 117 ++ ds))).get? 1 = some 117 := rfl
    have hsimple : simpleEscape? 117 = none := rfl
    refine ⟨Text.charOf m, charOf_lt ?_, ?_⟩
    · obtain ⟨-, hvalid, rfl⟩ := written_iff.mp hm
      have hlt := Nat.ofDigits_lt_base_pow_length (b := 16) (l := (ds.map letter).reverse.map digit)
        (by decide) (by simpa using hvalid)
      rwa [List.length_map, List.length_reverse, List.length_map, hlen] at hlt
    · rw [hfirst]
      simp only [hsimple, hskip, hdigits, hnat]
      rw [if_neg (by decide), if_pos (by decide), decide_eq_true hsize]
      simp [hlen, Text.ofCodePoint]
      omega
  | line hb => cases hb

/-- A character beyond the first 65536 is no unit. -/
theorem char_supplementary {c : Char} (hc : 2 ^ 16 ≤ c.toNat) :
    char (Text.ofChars ['\'', c, '\'']) =
      .error (quotedFailure (Text.ofChars ['\'', c, '\'']) .malformed) := by
  have hne : c ≠ '\\' := by
    rintro rfl
    exact absurd hc (by decide)
  have hquoted : Text.ofChars ['\'', c, '\''] =
      Text.ofList (39 :: String.utf8EncodeChar c ++ [39]) := by
    rw [← List.flatMap_singleton String.utf8EncodeChar c]
    exact ofChars_quoted [c]
  have hbody : unescape? (Text.ofList (String.utf8EncodeChar c)) false = some (Text.ofChar c) := by
    unfold unescape?
    rw [unescapeFrom_plain _ rfl (by omega) (by simpa using backslash_notMem hne),
      Text.empty_append]
    refine congrArg some (Text.ext_toList ?_)
    rw [Text.toList_drop, Text.toList_ofList, Text.toList_ofChar, List.drop_zero]
  have hpos := c.utf8Size_pos
  unfold char
  rw [hquoted, unquoted?_eq _ (Text.utf8EncodeChar_ne_nil c)]
  simp only [hbody, Text.decodeAt_ofChar]
  have hzero : ¬ (c.utf8Size == 0) = true := by simpa using hpos.ne'
  rw [if_neg hzero, if_pos]
  simp
  omega

/-- A byte that starts no character is read as the replacement character. -/
theorem char_byte {b : UInt8} (hb : 0x80 ≤ b) :
    char (Text.ofList (39 :: [b] ++ [39])) = .ok 0xFFFD := by
  have hbody : unescape? (Text.ofList [b]) false = some (Text.ofList [b]) := by
    unfold unescape?
    rw [unescapeFrom_plain _ rfl (by omega), Text.empty_append]
    · rfl
    · rw [Text.toList_ofList, List.drop_zero, List.mem_singleton]
      rintro rfl
      exact absurd hb (by decide)
  have hdecode : (Text.ofList [b]).decodeAt 0 = (Text.replacement, 1) := by
    rcases Text.decodeAt_cases (t := Text.ofList [b]) (i := 0) (by simp) with ⟨c, -, hc⟩ | ⟨h, -⟩
    · -- one byte holds ASCII characters only
      have hlen := congrArg List.length hc
      simp only [Text.toList_ofList, List.drop_zero, List.length_append,
        String.length_utf8EncodeChar, List.length_singleton] at hlen
      have hpos := c.utf8Size_pos
      have hascii : c.toNat < 0x80 := by
        have hone : c.val ≤ 127 := Char.utf8Size_eq_one_iff.mp (by omega)
        exact Nat.lt_succ_of_le (UInt32.le_iff_toNat_le.mp hone)
      rw [Text.utf8EncodeChar_ascii hascii] at hc
      obtain rfl : b = UInt8.ofNat c.toNat := List.head_eq_of_cons_eq hc
      rw [UInt8.le_iff_toNat_le, UInt8.toNat_ofNat_of_lt' (show c.toNat < 256 by omega)] at hb
      exact absurd hb (Nat.not_le.mpr hascii)
    · exact h
  unfold char
  rw [unquoted?_eq [b] (by simp)]
  simp only [hbody, hdecode]
  rfl

/-- The body of an escape sequence between quotes. -/
theorem char_of_escape {e : List UInt8} (he : IsEscape (fun b => false && Token.isLineEnd b) e) :
    ∃ n, char (Text.ofList (39 :: (92 :: e) ++ [39])) = .ok n := by
  obtain ⟨c, hc, hpiece⟩ := unescapeAt?_char he
  exact ⟨c.toNat, char_eq (by simp) hc (unescape?_escape hpiece)⟩

/-! ## Strings -/

theorem unquoted?_of_toList {raw : Text} {quote : UInt8} {least : Nat} {bs : List UInt8}
    (h : raw.toList = quote :: bs ++ [quote]) (hleast : least ≤ bs.length + 2) :
    unquoted? raw quote least = some (Text.ofList bs) := by
  have hsize : raw.size = bs.length + 2 := by
    rw [Text.size_eq, h]
    simp
  have hfirst : raw.at0 0 = quote := by
    rw [Text.at0_eq, h]
    rfl
  have hlast : raw.at0 (bs.length + 2 - 1) = quote := by
    rw [Text.at0_eq, h]
    simp
  unfold unquoted?
  rw [hsize, hfirst, hlast, if_neg (by simpa using hleast)]
  refine congrArg some (Text.ext_toList ?_)
  rw [Text.toList_slice, h, Text.toList_ofList]
  simp

theorem string_of_escaped {raw : Text} {bs : List UInt8} (h : raw.toList = 34 :: bs ++ [34])
    (hbs : Escaped (fun b => false && Token.isLineEnd b) bs) : ∃ s, string raw = .ok s := by
  have hsome : (unescape? (Text.ofList bs) false).isSome := unescape?_isSome hbs
  obtain ⟨s, hs⟩ := Option.isSome_iff_exists.mp hsome
  unfold string
  rw [unquoted?_of_toList h (by omega)]
  simp only [hs]
  exact ⟨s, rfl⟩

end Literal

namespace Token

open Literal (char string quotedFailure)

variable {t : Text} {i : Nat}

/-! ## Tokens -/

theorem toList_between {j : Nat} {front : List UInt8}
    (h : t.toList.drop i = front ++ t.toList.drop j) (hj : j ≤ t.size) :
    (t.slice i j).toList = front := by
  have hlen := congrArg List.length h
  rw [List.length_drop, List.length_append, List.length_drop] at hlen
  have hsize := Text.size_eq t
  rw [Text.toList_slice, h]
  exact List.take_left' (by omega)

theorem toList_quoted {quote : UInt8} {j : Nat} {body : List UInt8}
    (hquote : (0 == quote) = false) (hi : t.at0 i = quote) (hj : t.at0 j = quote)
    (h : t.toList.drop (i + 1) = body ++ t.toList.drop j) :
    (t.slice i (j + 1)).toList = quote :: body ++ [quote] := by
  refine toList_between ?_ (Text.lt_size_of_beq hquote (beq_iff_eq.mpr hj))
  rw [drop_of_at0 hquote hi, h, drop_of_at0 hquote hj]
  simp

/-- A single character between quotes has a value unless it is beyond the units. -/
theorem singleChar_value {j : Nat} (hi : t.at0 i = 39) (hlt : i + 1 < t.toList.length)
    (hne : t.at0 (i + 1) ≠ 92) (hend : j = i + 1 + (t.decodeAt (i + 1)).2) (hj : t.at0 j = 39) :
    (∃ n, char (t.slice i (j + 1)) = .ok n) ∨
      ∃ c : Char, 2 ^ 16 ≤ c.toNat ∧ t.slice i (j + 1) = Text.ofChars ['\'', c, '\''] := by
  rcases Text.decodeAt_cases hlt with ⟨c, hc, hdrop⟩ | ⟨hc, hbeyond⟩
  · rw [hc] at hend
    subst hend
    have hraw := toList_quoted rfl hi hj hdrop
    have hchars : t.slice i (i + 1 + c.utf8Size + 1) = Text.ofChars ['\'', c, '\''] := by
      apply Text.ext_toList
      rw [hraw, ← List.flatMap_singleton String.utf8EncodeChar c]
      exact (congrArg Text.toList (Literal.ofChars_quoted [c])).symm
    by_cases hunit : 2 ^ 16 ≤ c.toNat
    · exact .inr ⟨c, hunit, hchars⟩
    · rw [hchars]
      refine .inl ⟨c.toNat, Literal.char_plain ?_ (by omega)⟩
      rintro rfl
      rw [Text.utf8EncodeChar_ascii (by decide)] at hdrop
      exact hne (Text.at0_of_drop hdrop)
  · -- a byte that starts no character
    have hdrop := List.drop_eq_getElem_cons hlt
    rw [← Text.at0_of_drop hdrop] at hdrop
    rw [hc] at hend
    subst hend
    have hraw : (t.slice i (i + 1 + 1 + 1)).toList = 39 :: [t.at0 (i + 1)] ++ [39] :=
      toList_quoted rfl hi hj hdrop
    left
    refine ⟨0xFFFD, ?_⟩
    rw [← Literal.char_byte hbeyond]
    exact congrArg char (Text.ext_toList hraw)

/-- A character literal without a fault has a value unless its character is beyond the units. -/
theorem scanChar_value (hstart : t.at0 i = 39) (hfault : (scanChar t i).fault = none) :
    (∃ n, char (t.slice i (scanChar t i).stop) = .ok n) ∨
      ∃ c : Char, 2 ^ 16 ≤ c.toNat ∧
        t.slice i (scanChar t i).stop = Text.ofChars ['\'', c, '\''] := by
  unfold scanChar at hfault ⊢
  dsimp only at hfault ⊢
  generalize hbody : charBody t (i + 1) 0 none (t.size - i) = r at hfault ⊢
  obtain ⟨j, count, fault⟩ := r
  by_cases hclosed : (t.at0 j == 0x27) = true
  · rw [if_pos hclosed] at hfault ⊢
    have hone : count = 1 ∧ fault = none := by
      by_cases hzero : (count == 0) = true
      · rw [if_pos hzero] at hfault
        cases hfault
      rw [if_neg hzero] at hfault
      by_cases hmany : (decide (count > 1) && fault.isNone) = true
      · rw [if_pos hmany] at hfault
        cases hfault
      rw [if_neg hmany] at hfault
      subst hfault
      simp only [beq_iff_eq] at hzero
      simp at hmany
      exact ⟨by omega, rfl⟩
    obtain ⟨rfl, rfl⟩ := hone
    have hj := beq_iff_eq.mp hclosed
    rcases charBody_one (by rw [hbody]) (by rw [hbody]) with ⟨e, he, hdrop⟩ | ⟨hlt, hne, hend⟩
    · rw [hbody] at hdrop
      obtain ⟨n, hn⟩ := Literal.char_of_escape he
      left
      refine ⟨n, ?_⟩
      rw [← hn]
      exact congrArg char (Text.ext_toList (toList_quoted rfl hstart hj hdrop))
    · rw [hbody] at hend
      exact singleChar_value hstart hlt hne hend hj
  · rw [if_neg hclosed] at hfault
    cases hfault

theorem scanString_value (hstart : t.at0 i = 34) (hfault : (scanString t i).fault = none) :
    ∃ s, string (t.slice i (scanString t i).stop) = .ok s := by
  unfold scanString at hfault ⊢
  dsimp only at hfault ⊢
  by_cases hclosed : (t.at0 (stringBody t (i + 1) none (t.size - i)).1 == 0x22) = true
  · rw [if_pos hclosed] at hfault ⊢
    obtain ⟨body, hbody, hescaped⟩ := stringBody_escaped _ _ hfault
    exact Literal.string_of_escaped (toList_quoted rfl hstart (beq_iff_eq.mp hclosed) hbody) hescaped
  · rw [if_neg hclosed] at hfault
    cases hfault

/-- A text block without a fault: a line that ends behind blanks, and a body up to the closing
delimiter. -/
theorem scanTextBlock_literal {level : Level} (h : t.at0 i = 34 ∧ t.at0 (i + 1) = 34 ∧
      t.at0 (i + 2) = 34) (hfault : (scanTextBlock t level i).fault = none) :
    ∃ (blanks body : List UInt8) (b : UInt8),
      (t.slice i (scanTextBlock t level i).stop).toList =
          [34, 34, 34] ++ (blanks ++ b :: body) ++ [34, 34, 34] ∧
        (∀ c ∈ blanks, Literal.isIndent c = true) ∧ isLineEnd b = true ∧
          Escaped (fun b => true && isLineEnd b) (b :: body) := by
  obtain ⟨h₀, h₁, h₂⟩ := h
  unfold scanTextBlock at hfault ⊢
  dsimp only at hfault ⊢
  have hblanks := Text.drop_skipWhile t Literal.isIndent (i + 3)
  have hindent (c : UInt8) (hc : c ∈ (t.toList.drop (i + 3)).takeWhile Literal.isIndent) :
      Literal.isIndent c = true := List.mem_takeWhile_imp hc
  generalize (t.toList.drop (i + 3)).takeWhile Literal.isIndent = blanks at hblanks hindent
  have hj : t.skipWhile (fun b => b == ' ' || b == '\t' || b == 0x0c) (i + 3) =
      t.skipWhile Literal.isIndent (i + 3) := rfl
  rw [hj] at hfault ⊢
  have hinside := Text.skipWhile_le Literal.isIndent (t := t) (i := i + 3)
    (Text.lt_size_of_beq (b := 34) rfl (beq_iff_eq.mpr h₂))
  generalize t.skipWhile Literal.isIndent (i + 3) = j at hblanks hfault hinside ⊢
  have hbounds := blockBody_bounds (t := t) (t.size - j + 1) j none hinside
  have hclean : isLineEnd (t.at0 j) = true ∧ (blockBody t j none (t.size - j + 1)).2.1 = true ∧
      (blockBody t j none (t.size - j + 1)).2.2 = none := by
    cases hline : isLineEnd (t.at0 j) with
    | false =>
      rw [hline] at hfault
      simp [blockBody_fault] at hfault
    | true =>
      rw [hline, if_pos rfl] at hfault
      cases hclosed : (blockBody t j none (t.size - j + 1)).2.1 with
      | false =>
        rw [hclosed] at hfault
        cases hfault
      | true =>
        rw [hclosed, if_neg (by decide)] at hfault
        refine ⟨rfl, rfl, ?_⟩
        split at hfault
        · cases hfault
        · exact hfault
  obtain ⟨hline, hclosed, hnone⟩ := hclean
  rw [if_pos hline]
  obtain ⟨body, hbody, hescaped⟩ := blockBody_escaped _ _ hclosed hnone
  generalize (blockBody t j none (t.size - j + 1)).1 = stop at hbody hbounds ⊢
  cases body with
  | nil =>
    rw [Text.at0_of_drop hbody] at hline
    cases hline
  | cons b body =>
    rw [Text.at0_of_drop hbody] at hline
    refine ⟨blanks, body, b, toList_between ?_ hbounds.2, hindent, hline, hescaped⟩
    rw [drop_of_at0 rfl h₀, drop_of_at0 rfl h₁, drop_of_at0 rfl h₂, hblanks, hbody]
    simp

theorem scanTextBlock_value {level : Level} (h : t.at0 i = 34 ∧ t.at0 (i + 1) = 34 ∧
      t.at0 (i + 2) = 34) (hfault : (scanTextBlock t level i).fault = none) :
    ∃ s, Literal.textBlock (t.slice i (scanTextBlock t level i).stop) = .ok s := by
  obtain ⟨blanks, body, b, hraw, hblanks, hline, hescaped⟩ := scanTextBlock_literal h hfault
  exact Literal.textBlock_of_escaped hraw hblanks hline hescaped

/-! ## Which tokens are literals -/

/-- The kinds of tokens that literals are read from, but for floating point numbers. -/
def literalKinds : List Kind := [.intLiteral, .charLiteral, .stringLiteral, .textBlock]

theorem scanWord_notLiteral {level : Level} : (scanWord t level i).kind ∉ literalKinds := by
  have hall : ∀ k ∈ Kind.nonSealed :: Kind.identifier :: keywords, k ∉ literalKinds := by decide
  exact hall _ scanWord_mem

theorem scanBlockComment_notLiteral : (scanBlockComment t i).kind ∉ literalKinds := by
  unfold scanBlockComment
  split <;> exact show Kind.blockComment ∉ literalKinds by decide

theorem scanOperator_notLiteral : (scanOperator t i).kind ∉ literalKinds := by
  have hall : ∀ k ∈ Kind.invalid :: operators, k ∉ literalKinds := by decide
  exact hall _ scanOperator_mem

theorem scanNumber_kind : (scanNumber t i).kind = .intLiteral ∨
    (scanNumber t i).kind = .floatLiteral := by
  have hite {c : Bool} : (if c then Kind.floatLiteral else .intLiteral) = .intLiteral ∨
      (if c then Kind.floatLiteral else .intLiteral) = .floatLiteral := by cases c <;> simp
  unfold scanNumber
  dsimp only
  split
  · exact hite
  split
  · exact .inl rfl
  · unfold scanDecimal
    dsimp only
    rw [apply_ite Scanned.kind, ite_self]
    exact hite

theorem scanChar_kind : (scanChar t i).kind = .charLiteral := by
  unfold scanChar
  dsimp only
  split <;> rfl

theorem scanString_kind : (scanString t i).kind = .stringLiteral := by
  unfold scanString
  dsimp only
  split <;> rfl

/-- Where a literal token comes from. -/
theorem scan_literal {level : Level} (h : (scan t level i).kind ∈ literalKinds) :
    ((scan t level i).kind = .intLiteral ∧ scan t level i = scanNumber t i ∧
        (Text.isDigit (t.at0 i) = true ∨ t.at0 i = 46 ∧ Text.isDigit (t.at0 (i + 1)) = true)) ∨
      ((scan t level i).kind = .charLiteral ∧ scan t level i = scanChar t i ∧ t.at0 i = 39) ∨
      ((scan t level i).kind = .textBlock ∧ scan t level i = scanTextBlock t level i ∧
        t.at0 i = 34 ∧ t.at0 (i + 1) = 34 ∧ t.at0 (i + 2) = 34) ∨
      ((scan t level i).kind = .stringLiteral ∧ scan t level i = scanString t i ∧
        t.at0 i = 34) := by
  unfold scan at h ⊢
  dsimp only at h ⊢
  by_cases hend : i ≥ t.size
  · rw [if_pos hend] at h
    exact absurd h (show Kind.eof ∉ literalKinds by decide)
  rw [if_neg hend] at h ⊢
  by_cases hline : (t.at0 i == '/' && t.at0 (i + 1) == '/') = true
  · rw [if_pos hline] at h
    exact absurd h (show Kind.lineComment ∉ literalKinds by decide)
  rw [if_neg hline] at h ⊢
  by_cases hblock : (t.at0 i == '/' && t.at0 (i + 1) == '*') = true
  · rw [if_pos hblock] at h
    exact absurd h scanBlockComment_notLiteral
  rw [if_neg hblock] at h ⊢
  by_cases hblank : isBlankByte (t.at0 i) = true
  · rw [if_pos hblank] at h
    exact absurd h (show Kind.whitespace ∉ literalKinds by decide)
  rw [if_neg hblank] at h ⊢
  by_cases hword : Text.isLetter (t.decodeAt i).1 = true
  · rw [if_pos hword] at h
    exact absurd h scanWord_notLiteral
  rw [if_neg hword] at h ⊢
  by_cases hnumber : (Text.isDigit (t.at0 i) ||
      (t.at0 i == '.' && Text.isDigit (t.at0 (i + 1)))) = true
  · rw [if_pos hnumber] at h ⊢
    rw [Bool.or_eq_true, Bool.and_eq_true, beq_iff_eq] at hnumber
    refine .inl ⟨scanNumber_kind.resolve_right fun hfloat => ?_, rfl, hnumber⟩
    rw [hfloat] at h
    exact absurd h (by decide)
  rw [if_neg hnumber] at h ⊢
  by_cases hchar : (t.at0 i == 0x27) = true
  · rw [if_pos hchar]
    exact .inr (.inl ⟨scanChar_kind, rfl, beq_iff_eq.mp hchar⟩)
  rw [if_neg hchar] at h ⊢
  by_cases hquote : (t.at0 i == 0x22) = true
  · rw [if_pos hquote]
    have hfirst := beq_iff_eq.mp hquote
    by_cases hthree : (t.at0 (i + 1) == 0x22 && t.at0 (i + 2) == 0x22) = true
    · rw [if_pos hthree]
      rw [Bool.and_eq_true, beq_iff_eq, beq_iff_eq] at hthree
      exact .inr (.inr (.inl ⟨rfl, rfl, hfirst, hthree⟩))
    · rw [if_neg hthree]
      exact .inr (.inr (.inr ⟨scanString_kind, rfl, hfirst⟩))
  · rw [if_neg hquote] at h
    exact absurd h scanOperator_notLiteral

end Token

namespace Literal

/-! ## Evaluation -/

/-- A number that reading gives is one of its width. -/
theorem integerValue?_wrap {kind : Kind} {radix m : Nat} {negated : Bool} {v : Int}
    (h : integerValue? (bits kind) radix m negated = some v) : Value.wrap (bits kind) v = v := by
  have hbits : bits kind = bits kind - 1 + 1 := by cases kind <;> rfl
  unfold integerValue? at h
  split at h
  · have hpow : ((2 ^ (bits kind - 1) : Nat) : Int) = 2 ^ (bits kind - 1) := by norm_cast
    rw [hbits]
    split at h
    next hlt =>
      cases h
      exact Constant.wrap_of_bounds (by omega) (by omega)
    next =>
      obtain ⟨⟨-, hm⟩, hv⟩ := Option.ite_none_right_eq_some.1 h
      cases hv
      have hpos : (0 : Int) < 2 ^ (bits kind - 1) := by positivity
      exact Constant.wrap_of_bounds (by omega) (by omega)
  · obtain ⟨-, hv⟩ := Option.ite_none_right_eq_some.1 h
    cases hv
    exact Constant.wrap_wrap (Nat.le_refl _) m

/-- The integer literal `raw` writes the number `m` in a radix, and reading it gives this number
wherever it fits the type of the literal. -/
structure ReadsAs (kind : Kind) (raw : Text) (radix m : Nat) : Prop where
  written : ∃ ls ds, body kind raw = some ls ∧ radixAndDigits ls = (radix, ds) ∧
    written radix ds = some m
  value : ∀ negated v, integerValue? (bits kind) radix m negated = some v →
    ∃ k, constant kind raw negated = .ok (some k) ∧ k.type = kind.type ∧
      k.value? = some (.number v)
  outOfRange : ∀ negated, integerValue? (bits kind) radix m negated = none →
    constant kind raw negated = .error (numberFailure raw .outOfRange)

theorem readsAs_of_magnitude {kind : Kind} {raw : Text} (hkind : kind = .int ∨ kind = .long)
    (h : (magnitude kind raw).isSome) : ∃ radix m, ReadsAs kind raw radix m := by
  obtain ⟨m, hm⟩ := Option.isSome_iff_exists.mp h
  obtain ⟨ls, radix, ds, hbody, hradix, hw⟩ := magnitude_iff.mp hm
  have hread (negated : Bool) := integer_of_written (bits kind) negated hbody
    (by rw [hradix]; exact hw)
  rw [hradix] at hread
  refine ⟨radix, m, ⟨ls, ds, hbody, hradix, hw⟩, fun negated v hv => ?_, fun negated hv => ?_⟩
  · have hwrap := integerValue?_wrap hv
    have hint := hread negated
    rw [hv] at hint
    rcases hkind with rfl | rfl
    · refine ⟨.int (Int32.ofInt v), ?_, rfl, Constant.value?_int (Int32.toInt_ofInt.trans hwrap)⟩
      rw [constant, int32, show integer 32 raw negated = .ok v from hint]
      rfl
    · refine ⟨.long (Int64.ofInt v), ?_, rfl, Constant.value?_long (Int64.toInt_ofInt.trans hwrap)⟩
      rw [constant, int64, show integer 64 raw negated = .ok v from hint]
      rfl
  · have hint := hread negated
    rw [hv] at hint
    rcases hkind with rfl | rfl
    · rw [constant, int32, show integer 32 raw negated = _ from hint]
      rfl
    · rw [constant, int64, show integer 64 raw negated = _ from hint]
      rfl

end Literal

namespace Lexer

open Literal

/-- A literal token without a fault has a value: an integer is the number that its digits write, or
too large for its type, and a quoted literal fails only where it is a single character beyond the
units. -/
theorem literals_evaluated (l : Lexer) (hclean : l.next.1.fault = none) :
    (l.next.1.kind = .intLiteral → ∃ kind radix m, Parse.literalKind? l.next.1 = some kind ∧
      (kind = .int ∨ kind = .long) ∧ ReadsAs kind l.next.1.literal radix m) ∧
    (l.next.1.kind = .charLiteral → (∃ n, char l.next.1.literal = .ok n) ∨
      ∃ c : Char, 2 ^ 16 ≤ c.toNat ∧ l.next.1.literal = Text.ofChars ['\'', c, '\''] ∧
        char l.next.1.literal = .error (quotedFailure l.next.1.literal .malformed)) ∧
    (l.next.1.kind = .stringLiteral → ∃ s, string l.next.1.literal = .ok s) ∧
    (l.next.1.kind = .textBlock → ∃ s, textBlock l.next.1.literal = .ok s) := by
  have hfault : (Token.scan l.input.text l.level l.cursor.offset).fault = none := hclean
  have hliteral : l.next.1.literal = l.input.text.slice l.cursor.offset
    (Token.scan l.input.text l.level l.cursor.offset).stop := rfl
  by_cases hlit : l.next.1.kind ∈ Token.literalKinds
  · obtain ⟨hkind, hscan, hstart⟩ | ⟨hkind, hscan, hstart⟩ | ⟨hkind, hscan, hstart⟩ |
      ⟨hkind, hscan, hstart⟩ := Token.scan_literal hlit
    all_goals
      change l.next.1.kind = _ at hkind
      rw [hkind]
      rw [hscan] at hfault hliteral
    · refine ⟨fun _ => ?_, nofun, nofun, nofun⟩
      have hm := Token.scanNumber_magnitude hstart (by rw [← hscan]; exact hkind) hfault
      rw [← hliteral] at hm
      have hlong : (if hasLongSuffix l.next.1.literal then Kind.long else .int) = .int ∨
          (if hasLongSuffix l.next.1.literal then Kind.long else .int) = .long := by
        split
        · exact .inr rfl
        · exact .inl rfl
      obtain ⟨radix, m, hread⟩ := readsAs_of_magnitude hlong hm
      exact ⟨_, radix, m, by rw [Parse.literalKind?, hkind], hlong, hread⟩
    · refine ⟨nofun, fun _ => ?_, nofun, nofun⟩
      rw [hliteral]
      refine (Token.scanChar_value hstart hfault).imp_right ?_
      rintro ⟨c, hc, hchars⟩
      rw [hchars]
      exact ⟨c, hc, rfl, char_supplementary hc⟩
    · refine ⟨nofun, nofun, nofun, fun _ => ?_⟩
      rw [hliteral]
      exact Token.scanTextBlock_value hstart hfault
    · refine ⟨nofun, nofun, fun _ => ?_, nofun⟩
      rw [hliteral]
      exact Token.scanString_value hstart hfault
  · refine ⟨fun h => ?_, fun h => ?_, fun h => ?_, fun h => ?_⟩
    all_goals exact absurd (by rw [h]; decide) hlit

theorem literals_evaluated_hexadecimal :
    (Lexer.new "0x7FL" {} .latest).next.1.fault = none ∧
      (Lexer.new "0x7FL" {} .latest).next.1.kind = .intLiteral ∧
      ∃ kind radix m, Parse.literalKind? (Lexer.new "0x7FL" {} .latest).next.1 = some kind ∧
        (kind = .int ∨ kind = .long) ∧
        ReadsAs kind (Lexer.new "0x7FL" {} .latest).next.1.literal radix m :=
  ⟨by decide +kernel, by decide +kernel,
    (literals_evaluated (Lexer.new "0x7FL" {} .latest) (by decide +kernel)).1 (by decide +kernel)⟩

end Lexer

end Javelin
