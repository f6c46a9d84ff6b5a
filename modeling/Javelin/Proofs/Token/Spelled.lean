import Javelin.Proofs.Text.Characters
import Javelin.Proofs.Text.Cutting
import Javelin.Proofs.Token.Scanning
import Javelin.Source.Name

/-!
# What is spelled is scanned

Where a word or an operator is spelled, `scan` finds it, as long as what stands behind it does not
go on with it: behind a word there is no letter or digit, and no longer operator starts where a
shorter one is meant.

1. Words, and the names that are identifiers.
2. Operators: the longest one that is spelled is found.
-/

namespace Javelin

namespace Token

variable {t : Text} {i : Nat} {rest : List UInt8}

/-! ## Words -/

/-- What ends a word: an ASCII byte that is no letter, no digit and no hyphen, or the end. -/
def EndsWord (rest : List UInt8) : Prop :=
  ∀ b ∈ rest.head?, b < 0x80 ∧ Text.isLetterOrDigit (Char.ofNat b.toNat) = false ∧ b ≠ '-'

/-- White space, separators, closing brackets and a plus sign end a word. -/
theorem endsWord_cons {b : UInt8} (hb : b ∈ ([32, 40, 41, 43, 44, 46, 60, 62, 91] : List UInt8))
    (bs : List UInt8) : EndsWord (b :: bs) := by
  have hends : ∀ b ∈ ([32, 40, 41, 43, 44, 46, 60, 62, 91] : List UInt8), b < 0x80 ∧
      Text.isLetterOrDigit (Char.ofNat b.toNat) = false ∧ b ≠ '-' := by decide +kernel
  rintro c ⟨⟩
  exact hends b hb

theorem decodeAt_of_ascii {b : UInt8} {bs : List UInt8} (hdrop : t.toList.drop i = b :: bs)
    (hb : b < 0x80) : t.decodeAt i = (Char.ofNat b.toNat, 1) := by
  rw [Text.decodeAt, if_pos (Text.lt_size_of_drop hdrop), Text.at0_of_drop hdrop, if_pos hb]

theorem wordEnd_of_ends (hrest : EndsWord rest) {fuel : Nat} (hdrop : t.toList.drop i = rest) :
    wordEnd t i fuel = i := by
  cases fuel with
  | zero => rfl
  | succ fuel =>
    unfold wordEnd
    cases rest with
    | nil =>
      have hi : ¬i < t.size := by
        rw [Text.size_eq, Nat.not_lt, ← List.drop_eq_nil_iff]
        exact hdrop
      simp [Text.decodeAt, hi]
    | cons b bs =>
      obtain ⟨hb, hword, -⟩ := hrest b rfl
      simp [decodeAt_of_ascii hdrop hb, hword]

/-- The word goes on to its last letter or digit. -/
theorem wordEnd_of_drop (hrest : EndsWord rest) (cs : List Char) : ∀ {i fuel : Nat},
    (∀ c ∈ cs, Text.isLetterOrDigit c = true) →
    t.toList.drop i = cs.flatMap String.utf8EncodeChar ++ rest →
    (cs.flatMap String.utf8EncodeChar).length ≤ fuel →
    wordEnd t i fuel = i + (cs.flatMap String.utf8EncodeChar).length := by
  induction cs with
  | nil => exact fun _ hdrop _ => wordEnd_of_ends hrest hdrop
  | cons c cs ih =>
    intro i fuel hcs hdrop hfuel
    rw [List.flatMap_cons, List.append_assoc] at hdrop
    rw [List.flatMap_cons, List.length_append, String.length_utf8EncodeChar] at hfuel ⊢
    have hpos := c.utf8Size_pos
    obtain ⟨fuel, rfl⟩ : ∃ n, fuel = n + 1 := ⟨fuel - 1, by omega⟩
    have hbehind : t.toList.drop (i + c.utf8Size) = cs.flatMap String.utf8EncodeChar ++ rest := by
      rw [← List.drop_drop, hdrop, ← String.length_utf8EncodeChar c, List.drop_left]
    unfold wordEnd
    simp only [Text.decodeAt_of_drop hdrop, hcs c List.mem_cons_self, Bool.not_true, Bool.or_false,
      beq_eq_false_iff_ne.2 (Nat.ne_of_gt hpos), Bool.false_eq_true, if_false]
    rw [ih (fun d hd => hcs d (List.mem_cons_of_mem c hd)) hbehind (by omega), Nat.add_assoc]

/-- The first byte of a letter is no byte of another class. -/
theorem head_of_letter {c : Char} {p : UInt8 → Bool}
    (hp : ∀ b, p b = true → b < 0x80 ∧ Text.isLetter (Char.ofNat b.toNat) = false)
    (hc : Text.isLetter c = true) (bs : List UInt8) :
    ∀ b ∈ (String.utf8EncodeChar c ++ bs).head?, p b = false := by
  intro b hb
  rw [Bool.eq_false_iff]
  intro hbyte
  obtain ⟨hlt, hletter⟩ := hp b hbyte
  by_cases hascii : c.toNat < 0x80
  · rw [Text.utf8EncodeChar_ascii hascii] at hb
    obtain rfl : UInt8.ofNat c.toNat = b := Option.some.inj hb
    rw [UInt8.toNat_ofNat_of_lt' (show c.toNat < 256 by omega), Char.ofNat_toNat, hc] at hletter
    cases hletter
  · obtain ⟨b', bs', heq, hle⟩ := Text.utf8EncodeChar_head (Nat.not_lt.1 hascii)
    rw [heq] at hb
    obtain rfl : b' = b := Option.some.inj hb
    exact absurd hlt (UInt8.not_lt.2 hle)

theorem byte_of_letter {c : Char} {p : UInt8 → Bool}
    (hp : ∀ b, p b = true → b < 0x80 ∧ Text.isLetter (Char.ofNat b.toNat) = false)
    (hc : Text.isLetter c = true) {bs : List UInt8}
    (hdrop : t.toList.drop i = String.utf8EncodeChar c ++ bs) : p (t.at0 i) = false := by
  obtain ⟨b, bs', hb⟩ := List.exists_cons_of_ne_nil
    (show String.utf8EncodeChar c ++ bs ≠ [] by simp)
  rw [Text.at0_of_drop (hdrop.trans hb)]
  exact head_of_letter hp hc bs b (by rw [hb]; rfl)

theorem blank_noLetter (b : UInt8) (h : isBlankByte b = true) :
    b < 0x80 ∧ Text.isLetter (Char.ofNat b.toNat) = false := by
  simp only [isBlankByte, Bool.or_eq_true, beq_iff_eq] at h
  obtain (((rfl | rfl) | rfl) | rfl) | rfl := h <;> decide

theorem slash_noLetter (b : UInt8) (h : (b == '/') = true) :
    b < 0x80 ∧ Text.isLetter (Char.ofNat b.toNat) = false := by
  rw [beq_iff_eq] at h
  subst h
  decide

theorem scanWord_of_drop {cs : List Char} {level : Level} (hrest : EndsWord rest)
    (hcs : ∀ d ∈ cs, Text.isLetterOrDigit d = true)
    (hdrop : t.toList.drop i = (Text.ofChars cs).toList ++ rest) :
    scanWord t level i = ⟨kindOfWord (Text.ofChars cs) level, i + (Text.ofChars cs).size,
      if Text.ofChars cs == "_" && level.atLeast 9 then some .underscoreAsIdentifier
      else none⟩ := by
  have hlength := congrArg List.length hdrop
  rw [List.length_drop, List.length_append, ← Text.size_eq, ← Text.size_eq] at hlength
  have hstop : wordEnd t i (t.size - i) = i + (Text.ofChars cs).size :=
    wordEnd_of_drop hrest cs hcs hdrop (by show (Text.ofChars cs).size ≤ _; omega)
  have hslice : t.slice i (i + (Text.ofChars cs).size) = Text.ofChars cs := by
    refine Text.ext_toList ?_
    rw [Text.toList_slice, hdrop, Nat.add_sub_cancel_left, Text.size_eq, List.take_left]
  have hbehind : t.toList.drop (i + (Text.ofChars cs).size) = rest := by
    rw [← List.drop_drop, hdrop, Text.size_eq, List.drop_left]
  have hsealed : sealedFollows t (i + (Text.ofChars cs).size) = false := by
    rw [sealedFollows, Bool.and_eq_false_iff]
    refine .inl (Bool.eq_false_iff.2 fun hat => ?_)
    obtain ⟨-, hfront⟩ := (Text.hasAt_iff _ _ _).1 hat
    rw [hbehind] at hfront
    obtain ⟨more, hmore⟩ := hfront
    refine (hrest 45 ?_).2.2 rfl
    rw [← hmore]
    rfl
  unfold scanWord
  simp only [hstop, hslice, hsealed, Bool.and_false, Bool.false_eq_true, if_false]

/-- A word is found where one is spelled. -/
theorem scan_word {c : Char} {cs : List Char} {level : Level} (hrest : EndsWord rest)
    (hc : Text.isLetter c = true) (hcs : ∀ d ∈ cs, Text.isLetterOrDigit d = true)
    (hdrop : t.toList.drop i = (Text.ofChars (c :: cs)).toList ++ rest) :
    scan t level i = ⟨kindOfWord (Text.ofChars (c :: cs)) level,
      i + (Text.ofChars (c :: cs)).size,
      if Text.ofChars (c :: cs) == "_" && level.atLeast 9 then some .underscoreAsIdentifier
      else none⟩ := by
  have hfirst := hdrop
  rw [Text.toList_ofChars, List.flatMap_cons, List.append_assoc] at hfirst
  have hlt : ¬i ≥ t.size := by
    rw [Nat.not_le, Text.size_eq]
    have hpos := c.utf8Size_pos
    have hlength := congrArg List.length hfirst
    rw [List.length_drop, List.length_append, String.length_utf8EncodeChar] at hlength
    omega
  have hletter : Text.isLetter (t.decodeAt i).1 = true := by
    rw [Text.decodeAt_of_drop hfirst]
    exact hc
  unfold scan
  simp only [if_neg hlt, byte_of_letter slash_noLetter hc hfirst,
    byte_of_letter blank_noLetter hc hfirst, Bool.false_and, Bool.false_eq_true, if_false, hletter,
    if_true]
  refine scanWord_of_drop hrest ?_ hdrop
  exact List.forall_mem_cons.2 ⟨Text.isLetterOrDigit_of_isLetter hc, hcs⟩

/-- A backslash is no letter and no digit. -/
theorem backslash_not_mem {cs : List Char} (h : ∀ c ∈ cs, Text.isLetterOrDigit c = true) :
    (92 : UInt8) ∉ (Text.ofChars cs).toList := by
  rw [Text.toList_ofChars, List.mem_flatMap]
  rintro ⟨c, hc, hmem⟩
  have hword := h c hc
  by_cases hascii : c.toNat < 0x80
  · rw [Text.utf8EncodeChar_ascii hascii, List.mem_singleton] at hmem
    have hbyte := congrArg UInt8.toNat hmem
    rw [UInt8.toNat_ofNat_of_lt' (show c.toNat < 256 by omega)] at hbyte
    have hchar : c = Char.ofNat 92 := by rw [← Char.ofNat_toNat c, ← hbyte]; rfl
    rw [hchar] at hword
    revert hword
    decide
  · exact absurd (Text.utf8EncodeChar_ge (Nat.not_lt.1 hascii) _ hmem) (by decide)

/-! ## Operators -/

/-- No operator starts with an operator that stands before it. -/
theorem operators_ordered : operators.Pairwise fun a b =>
    ¬a.spelling.toList <+: b.spelling.toList := by decide

/-- The bytes that make an operator the start of a longer one. -/
def goesOn (k : Kind) : List UInt8 :=
  operators.filterMap fun k' =>
    if k' ≠ k ∧ k.spelling.toList <+: k'.spelling.toList then k'.spelling.toList[k.spelling.size]?
    else none

/-- The longest operator that is spelled is found. -/
theorem scanOperator_longest {k : Kind} (hk : k ∈ operators)
    (hdrop : t.toList.drop i = k.spelling.toList ++ rest)
    (hrest : ∀ b ∈ rest.head?, b ∉ goesOn k) :
    scanOperator t i = ⟨k, i + k.spelling.size, none⟩ := by
  have hlt : i < t.toList.length := by
    have hlength := congrArg List.length hdrop
    rw [List.length_drop, List.length_append] at hlength
    have hpos : 0 < k.spelling.toList.length := (operators_spelled k hk).2
    omega
  obtain ⟨before, behind, hsplit⟩ := List.append_of_mem hk
  have hfind : operators.find? (fun k => t.hasAt i k.spelling) = some k := by
    rw [List.find?_eq_some_iff_append]
    refine ⟨?_, before, behind, hsplit, fun k' hk' => ?_⟩
    · rw [Text.hasAt_eq t hlt, hdrop, decide_eq_true_iff]
      exact List.prefix_append _ _
    rw [Text.hasAt_eq t hlt, hdrop, Bool.not_eq_true', decide_eq_false_iff_not]
    intro hfront
    have hordered : ¬k'.spelling.toList <+: k.spelling.toList := by
      have hpairs := operators_ordered
      rw [hsplit, List.pairwise_append] at hpairs
      exact hpairs.2.2 k' hk' k List.mem_cons_self
    have hmem : k' ∈ operators := hsplit ▸ List.mem_append_left _ hk'
    obtain hle | hle := List.prefix_or_prefix_of_prefix hfront (List.prefix_append _ rest)
    · exact hordered hle
    -- what is found before is longer, so its next byte is the one behind
    have hlonger := hle
    obtain ⟨more, hmore⟩ := hle
    rw [← hmore, List.prefix_append_right_inj] at hfront
    cases more with
    | nil => exact absurd (by rw [← hmore, List.append_nil]) hordered
    | cons b more =>
      obtain ⟨rest', rfl⟩ := hfront
      refine hrest b rfl (List.mem_filterMap.2 ⟨k', hmem, ?_⟩)
      rw [if_pos ⟨fun heq => hordered (heq ▸ List.prefix_rfl), hlonger⟩, ← hmore, Text.size_eq,
        List.getElem?_append_right (Nat.le_refl _), Nat.sub_self]
      rfl
  unfold scanOperator
  rw [hfind]

/-- A byte that starts an operator and nothing else, unless it is a point in front of a digit. -/
def startsOperator (b : UInt8) : Bool :=
  b < 0x80 && b != '/' && !isBlankByte b && !Text.isLetter (Char.ofNat b.toNat) &&
    !Text.isDigit b && b != 0x27 && b != 0x22

/-- An operator is found where one is spelled. -/
theorem scan_operator {k : Kind} {b : UInt8} {bs : List UInt8} {level : Level} (hk : k ∈ operators)
    (hspelling : k.spelling.toList = b :: bs) (hb : startsOperator b = true)
    (hdigit : b = '.' → ∀ d ∈ (bs ++ rest).head?, Text.isDigit d = false)
    (hdrop : t.toList.drop i = k.spelling.toList ++ rest)
    (hrest : ∀ b ∈ rest.head?, b ∉ goesOn k) :
    scan t level i = ⟨k, i + k.spelling.size, none⟩ := by
  have hfirst := hdrop
  rw [hspelling, List.cons_append] at hfirst
  have hlt : ¬i ≥ t.size := Nat.not_le.2 (Text.lt_size_of_drop hfirst)
  simp only [startsOperator, Bool.and_eq_true, decide_eq_true_eq, Bool.not_eq_true', bne_iff_ne,
    ne_eq] at hb
  obtain ⟨⟨⟨⟨⟨⟨hascii, hslash⟩, hblank⟩, hletter⟩, hnumber⟩, hquote⟩, hstring⟩ := hb
  have hpoint : (b == '.' && Text.isDigit (t.at0 (i + 1))) = false := by
    rw [Bool.and_eq_false_iff, beq_eq_false_iff_ne]
    by_cases heq : b = '.'
    · right
      have hbehind : t.toList.drop (i + 1) = bs ++ rest := by
        rw [← List.drop_drop, hfirst]
        rfl
      rw [Text.at0_eq, List.getD_eq_getElem?_getD, ← List.head?_drop, hbehind]
      cases hhead : (bs ++ rest).head? with
      | none => rfl
      | some d => exact hdigit heq d hhead
    · exact .inl heq
  unfold scan
  simp only [if_neg hlt, Text.at0_of_drop hfirst, beq_eq_false_iff_ne.2 hslash,
    beq_eq_false_iff_ne.2 hquote, beq_eq_false_iff_ne.2 hstring, hblank, hnumber, hpoint,
    decodeAt_of_ascii hfirst hascii, hletter, Bool.false_and, Bool.or_false, Bool.false_eq_true,
    if_false]
  exact scanOperator_longest hk hdrop hrest

end Token

/-! ## Names -/

namespace Text

variable {t : Text}

/-- The characters of a text that has no malformed bytes are written one after the other. -/
theorem drop_charsFrom (fuel : Nat) : ∀ i, t.toList.length ≤ i + fuel →
    (∀ p ∈ t.charsFrom i fuel, p.2 ≠ replacement) →
    t.toList.drop i = ((t.charsFrom i fuel).map Prod.snd).flatMap String.utf8EncodeChar := by
  induction fuel with
  | zero => exact fun i hi _ => List.drop_of_length_le hi
  | succ fuel ih =>
    intro i hi h
    unfold charsFrom at h ⊢
    by_cases hlt : i < t.size
    · rw [if_pos hlt] at h ⊢
      obtain ⟨c, hc, hdrop⟩ | ⟨hc, -⟩ := decodeAt_cases (t := t) hlt
      · simp only [hc, List.mem_cons, forall_eq_or_imp] at h
        simp only [hc, List.map_cons, List.flatMap_cons]
        have hpos := c.utf8Size_pos
        rw [hdrop, ← ih _ (by omega) h.2]
      · simp only [hc, List.mem_cons, forall_eq_or_imp] at h
        exact absurd rfl h.1
    · rw [if_neg hlt]
      exact List.drop_of_length_le (Nat.not_lt.1 hlt)

theorem le_of_mem_charsFrom (fuel : Nat) : ∀ i, ∀ p ∈ t.charsFrom i fuel, i ≤ p.1 := by
  induction fuel with
  | zero => simp [charsFrom]
  | succ fuel ih =>
    intro i p hp
    unfold charsFrom at hp
    split at hp
    · obtain rfl | hp := List.mem_cons.1 hp
      · exact Nat.le_refl i
      · exact Nat.le_of_add_right_le (ih _ p hp)
    · cases hp

end Text

namespace Name

theorem characterFault?_eq_none {ps : List (Nat × Char)} (h : characterFault? ps = none) :
    ∀ p ∈ ps, p.2 ≠ Text.replacement ∧ (p.1 = 0 → Text.isLetter p.2 = true) ∧
      (0 < p.1 → Text.isLetterOrDigit p.2 = true) := by
  fun_induction characterFault? ps with
  | case1 => simp
  | case2 | case3 | case4 => cases h
  | case5 i c rest hvalid hletter hword ih =>
    refine List.forall_mem_cons.2 ⟨⟨by simpa using hvalid, fun hi => ?_, fun hi => ?_⟩, ih h⟩
    · simpa [show i = 0 from hi] using hletter
    · simpa [show i > 0 from hi] using hword

/-- The characters of a name in which none is out of place. -/
theorem eq_of_characterFault? {name : Text} (hempty : name.isEmpty = false)
    (h : characterFault? name.chars = none) : ∃ c cs, name = Text.ofChars (c :: cs) ∧
      Text.isLetter c = true ∧ ∀ d ∈ cs, Text.isLetterOrDigit d = true := by
  have hfits := characterFault?_eq_none h
  have hlist : name.toList = ((name.charsFrom 0 name.size).map Prod.snd).flatMap
      String.utf8EncodeChar := by
    have hdrop := Text.drop_charsFrom (t := name) name.size 0 (by rw [← Text.size_eq]; omega)
      fun p hp => (hfits p hp).1
    rwa [List.drop_zero] at hdrop
  have hlt : 0 < name.size := by
    rw [Text.isEmpty_eq, List.isEmpty_eq_false_iff] at hempty
    exact List.length_pos_iff.2 hempty
  obtain ⟨n, hn⟩ : ∃ n, name.size = n + 1 := ⟨name.size - 1, by omega⟩
  unfold Text.chars at hfits
  rw [hn, Text.charsFrom, if_pos hlt] at hfits hlist
  obtain ⟨hfirst, hrest⟩ := List.forall_mem_cons.1 hfits
  refine ⟨_, _, Text.ext_toList hlist, hfirst.2.1 rfl, fun d hd => ?_⟩
  obtain ⟨p, hp, rfl⟩ := List.mem_map.1 hd
  refine (hrest p hp).2.2 (Nat.lt_of_lt_of_le ?_ (Text.le_of_mem_charsFrom _ _ p hp))
  rw [Nat.zero_add]
  exact (Text.decodeAt_bounds hlt).1

/-- The names without fault are the words that are identifiers. -/
theorem eq_of_identifierFault? {name : Text} {level : Level}
    (h : identifierFault? name level = none) : ∃ c cs, name = Text.ofChars (c :: cs) ∧
      Text.isLetter c = true ∧ (∀ d ∈ cs, Text.isLetterOrDigit d = true) ∧
      Token.kindOfWord name level = .identifier ∧ (name == "_" && level.atLeast 9) = false := by
  unfold identifierFault? at h
  split at h
  · cases h
  next hempty =>
    split at h
    · cases h
    next hchars =>
      obtain ⟨c, cs, hname, hc, hcs⟩ := eq_of_characterFault? (by simpa using hempty) hchars
      refine ⟨c, cs, hname, hc, hcs, ?_⟩
      split at h
      · cases h
      next hreserved =>
        split at h
        · cases h
        next hunderscore =>
          exact ⟨by simpa [Token.isReserved] using hreserved, by simpa using hunderscore⟩

/-- Names without a fault, as can be decided from their texts. -/
theorem identifierFault?_eq_none {names : List Text} {level : Level}
    (h : ∀ name ∈ names, name.isEmpty = false ∧ characterFault? name.chars = none ∧
      (Token.keywords.map fun k => k.spelling).contains name = false ∧ (name == "_") = false) :
    ∀ name ∈ names, identifierFault? name level = none := by
  intro name hmem
  obtain ⟨hempty, hchars, hkeyword, hunderscore⟩ := h name hmem
  have hnone : Token.keywordTable[name]? = none := by
    refine Std.HashMap.getElem?_ofList_of_contains_eq_false ?_
    rw [List.map_map]
    exact hkeyword
  have hreserved : Token.isReserved name level = false := by
    rw [Token.isReserved, Token.kindOfWord, hnone]
    rfl
  rw [identifierFault?, hempty, hchars, hreserved, hunderscore]
  rfl

end Name

end Javelin
