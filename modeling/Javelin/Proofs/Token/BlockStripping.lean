import Javelin.Proofs.Token.LiteralTokens

/-!
# What stripping a text block removes

A text block without escape sequences has the value that its lines have, as characters, when each
loses the same number of leading blanks and all trailing ones (`textBlock_stripped`). The evaluator
counts and cuts bytes. This makes no difference for the lines that set the indentation, whose cut
part is blank. A line that is white space for another reason is cut without a look at its
characters, so that the statement is about blocks in which these are of one byte.

1. Bytes and characters.
2. Lines of characters.
3. Indentation and stripping.
4. Values of tokens.
-/

namespace Javelin

namespace Text

/-! ## Bytes and characters -/

/-- Around a byte of ASCII the bytes are those of the characters around it. -/
theorem exists_around {b : UInt8} (hb : b < 0x80) {cs : List Char} : ∀ {xs ys : List UInt8},
    (ofChars cs).toList = xs ++ b :: ys → ∃ front back,
      cs = front ++ Char.ofNat b.toNat :: back ∧ (ofChars front).toList = xs ∧
        (ofChars back).toList = ys := by
  induction cs with
  | nil =>
    intro xs ys h
    exact absurd h.symm (by simp [toList_ofChars])
  | cons c cs ih =>
    intro xs ys h
    rw [ofChars_cons] at h
    rcases List.append_eq_append_iff.mp h with ⟨zs, rfl, hzs⟩ | ⟨zs, hc, hzs⟩
    · obtain ⟨front, back, rfl, rfl, rfl⟩ := ih hzs
      exact ⟨c :: front, back, rfl, rfl, rfl⟩
    · cases zs with
      | nil =>
        obtain ⟨front, back, rfl, hfront, rfl⟩ := @ih [] ys hzs.symm
        refine ⟨c :: front, back, rfl, ?_, rfl⟩
        rw [List.append_nil] at hc
        rw [ofChars_cons, hfront, hc, List.append_nil]
      | cons z zs =>
        rw [List.cons_append] at hzs
        obtain ⟨rfl, rfl⟩ := List.cons.inj hzs
        obtain ⟨hascii, rfl⟩ := eq_of_mem_utf8EncodeChar hb
          (hc ▸ List.mem_append_right _ List.mem_cons_self)
        rw [utf8EncodeChar_ascii hascii] at hc
        obtain ⟨rfl, hrest⟩ : xs = [] ∧ zs = [] := by
          have hlen := congrArg List.length hc
          rw [List.length_append, List.length_cons, List.length_cons, List.length_nil] at hlen
          exact ⟨List.eq_nil_of_length_eq_zero (by omega), List.eq_nil_of_length_eq_zero (by omega)⟩
        refine ⟨[], cs, rfl, rfl, ?_⟩
        rw [hrest, List.nil_append]

/-- A property of bytes and one of characters that agree and hold only within ASCII. -/
structure OfAscii (p : UInt8 → Bool) (q : Char → Bool) : Prop where
  ascii : ∀ c, q c = true → c.toNat < 0x80
  agree : ∀ c, ∀ b ∈ String.utf8EncodeChar c, p b = q c

section OfAscii

variable {p : UInt8 → Bool} {q : Char → Bool} (h : OfAscii p q) (cs : List Char)

include h

theorem OfAscii.takeWhile :
    (ofChars cs).toList.takeWhile p = (ofChars (cs.takeWhile q)).toList := by
  induction cs with
  | nil => rfl
  | cons c cs ih =>
    rw [ofChars_cons]
    cases hc : q c with
    | true =>
      have hbyte := utf8EncodeChar_ascii (h.ascii c hc)
      have hp := (h.agree c _ (hbyte ▸ List.mem_singleton_self _)).trans hc
      rw [List.takeWhile_cons_of_pos hc, ofChars_cons, hbyte, List.singleton_append,
        List.takeWhile_cons_of_pos hp, ih, List.singleton_append]
    | false =>
      obtain ⟨b, bs, hbs⟩ := List.exists_cons_of_ne_nil (utf8EncodeChar_ne_nil c)
      have hp := (h.agree c b (hbs ▸ List.mem_cons_self)).trans hc
      rw [List.takeWhile_cons_of_neg (by rw [hc]; exact Bool.false_ne_true), hbs, List.cons_append,
        List.takeWhile_cons_of_neg (by rw [hp]; exact Bool.false_ne_true)]
      rfl

theorem OfAscii.length_takeWhile :
    ((ofChars cs).toList.takeWhile p).length = (cs.takeWhile q).length := by
  rw [h.takeWhile, toList_ofChars, List.length_flatMap]
  have hone : ∀ c ∈ cs.takeWhile q, (String.utf8EncodeChar c).length = 1 := by
    intro c hc
    rw [utf8EncodeChar_ascii (h.ascii c (List.mem_takeWhile_imp hc)), List.length_singleton]
  rw [List.map_congr_left hone, List.map_const', List.sum_replicate_nat, Nat.mul_one]

theorem OfAscii.rdropWhile :
    (ofChars cs).toList.rdropWhile p = (ofChars (cs.rdropWhile q)).toList := by
  induction cs using List.reverseRecOn with
  | nil => rfl
  | append_singleton cs c ih =>
    have hsplit : (ofChars (cs ++ [c])).toList =
        (ofChars cs).toList ++ String.utf8EncodeChar c := by
      rw [ofChars_append, ofChars_cons]
      exact congrArg _ (List.append_nil _)
    rw [hsplit]
    cases hc : q c with
    | true =>
      have hbyte := utf8EncodeChar_ascii (h.ascii c hc)
      have hp := (h.agree c _ (hbyte ▸ List.mem_singleton_self _)).trans hc
      rw [hbyte, List.rdropWhile_concat_pos _ _ _ hp, List.rdropWhile_concat_pos _ _ _ hc, ih]
    | false =>
      obtain ⟨bs, b, hbs⟩ := List.eq_nil_or_concat' (String.utf8EncodeChar c) |>.resolve_left
        (utf8EncodeChar_ne_nil c)
      have hp := (h.agree c b (hbs ▸ List.mem_append_right _ List.mem_cons_self)).trans hc
      rw [hbs, ← List.append_assoc, List.rdropWhile_concat_neg _ _ _ (by simp [hp]),
        List.rdropWhile_concat_neg _ _ _ (by simp [hc]), List.append_assoc, ← hbs, hsplit]

end OfAscii

/-- Characters of ASCII are as many as their bytes. -/
theorem drop_ofChars {n : Nat} : ∀ {cs : List Char}, (∀ c ∈ cs.take n, c.toNat < 0x80) →
    (ofChars cs).toList.drop n = (ofChars (cs.drop n)).toList := by
  induction n with
  | zero => exact fun _ => rfl
  | succ n ih =>
    intro cs h
    cases cs with
    | nil => rfl
    | cons c cs =>
      rw [List.take_succ_cons, List.forall_mem_cons] at h
      rw [ofChars_cons, utf8EncodeChar_ascii h.1, List.drop_succ_cons, List.singleton_append,
        List.drop_succ_cons]
      exact ih h.2

end Text

namespace Token

/-! ## Lines of characters -/

/-- The lines of characters. A carriage return and a line feed behind it end one line. -/
def textLines : List Char → List (List Char)
  | [] => [[]]
  | '\r' :: '\n' :: cs => [] :: textLines cs
  | c :: cs =>
    if c = '\r' ∨ c = '\n' then [] :: textLines cs else (textLines cs).modifyHead (c :: ·)

theorem map_modifyHead_ofChars (c : Char) (lines : List (List Char)) :
    (lines.modifyHead (c :: ·)).map (fun cs => (Text.ofChars cs).toList) =
      (lines.map fun cs => (Text.ofChars cs).toList).modifyHead (String.utf8EncodeChar c ++ ·) := by
  cases lines <;> rfl

/-- The bytes of the lines are the lines of the bytes. -/
theorem splitOn_lineFeeds (cs : List Char) : (lineFeeds (Text.ofChars cs).toList).splitOn 10 =
    (textLines cs).map fun cs => (Text.ofChars cs).toList := by
  have hfirst (bs : List UInt8) : (10 :: bs).splitOn 10 = [] :: bs.splitOn 10 := by
    rw [List.splitOn_cons_eq_if_modifyHead, if_pos BEq.rfl]
  fun_induction textLines cs with
  | case1 => rfl
  | case2 cs ih =>
    show (lineFeeds (13 :: 10 :: (Text.ofChars cs).toList)).splitOn 10 = _
    rw [lineFeeds_pair, hfirst, ih]
    rfl
  | case3 c cs hpair hend ih =>
    rcases hend with rfl | rfl
    · have hnext : (Text.ofChars cs).toList.head? ≠ some 10 := by
        cases cs with
        | nil => simp [Text.toList_ofChars]
        | cons d ds =>
          have hd : d ≠ '\n' := fun hd => hpair ds rfl (by rw [hd])
          intro hhead
          have hmem := List.mem_of_head? hhead
          obtain ⟨b, bs, hbs⟩ := List.exists_cons_of_ne_nil (Text.utf8EncodeChar_ne_nil d)
          rw [Text.ofChars_cons, hbs, List.cons_append, List.head?_cons, Option.some.injEq] at hhead
          apply Text.notMem_utf8EncodeChar (d := '\n') (by decide) hd
          rw [hbs, hhead]
          exact List.mem_cons_self
      show (lineFeeds (13 :: (Text.ofChars cs).toList)).splitOn 10 = _
      rw [lineFeeds_return hnext, hfirst, ih]
      rfl
    · show (lineFeeds (10 :: (Text.ofChars cs).toList)).splitOn 10 = _
      rw [lineFeeds_plain (by decide), hfirst, ih]
      rfl
  | case4 c cs _ hend ih =>
    rw [not_or] at hend
    have hreturn : 13 ∉ String.utf8EncodeChar c :=
      Text.notMem_utf8EncodeChar (d := '\r') (by decide) hend.1
    have hfeed : 10 ∉ String.utf8EncodeChar c :=
      Text.notMem_utf8EncodeChar (d := '\n') (by decide) hend.2
    rw [Text.ofChars_cons, lineFeeds_append hreturn, splitOn_append hfeed, ih,
      map_modifyHead_ofChars]

/-- Characters that end no line stand in front of the first one. -/
theorem textLines_append {front : List Char} (h : ∀ c ∈ front, c ≠ '\r' ∧ c ≠ '\n')
    (cs : List Char) : textLines (front ++ cs) = (textLines cs).modifyHead (front ++ ·) := by
  induction front with
  | nil => cases hcs : textLines cs <;> simp [hcs]
  | cons c front ih =>
    obtain ⟨hc, hfront⟩ := List.forall_mem_cons.mp h
    have hstep : textLines (c :: (front ++ cs)) =
        (textLines (front ++ cs)).modifyHead (c :: ·) := by
      rw [textLines, if_neg (by simp [hc])]
      exact fun _ hr => absurd hr hc.1
    rw [List.cons_append, hstep, ih hfront, List.modifyHead_modifyHead]
    rfl

end Token

namespace Literal

open Token (textLines)

/-! ## Indentation and stripping -/

/-- The characters that are stripped. -/
def isIndentChar (c : Char) : Bool := c == ' ' || c == '\t' || c.toNat == 0x0c

theorem isIndentChar_ascii : ∀ n < 128, isIndent (UInt8.ofNat n) = isIndentChar (Char.ofNat n) := by
  decide

theorem isIndent_ofAscii : Text.OfAscii isIndent isIndentChar where
  ascii := by
    intro c hc
    simp only [isIndentChar, Bool.or_eq_true, beq_iff_eq] at hc
    rcases hc with (rfl | rfl) | hc
    · decide
    · decide
    · omega
  agree := by
    intro c b hb
    by_cases hc : c.toNat < 0x80
    · rw [Text.utf8EncodeChar_ascii hc, List.mem_singleton] at hb
      rw [hb, isIndentChar_ascii _ hc, Char.ofNat_toNat]
    · have hge := Text.utf8EncodeChar_ge (Nat.le_of_not_lt hc) b hb
      have hbyte : isIndent b = false := by
        rw [Bool.eq_false_iff]
        intro hindent
        simp only [isIndent, Bool.or_eq_true, beq_iff_eq] at hindent
        rcases hindent with (rfl | rfl) | rfl <;> exact absurd hge (by decide)
      have hchar : isIndentChar c = false := by
        rw [Bool.eq_false_iff]
        intro hindent
        simp only [isIndentChar, Bool.or_eq_true, beq_iff_eq] at hindent
        rcases hindent with (rfl | rfl) | hindent
        · exact hc (by decide)
        · exact hc (by decide)
        · omega
      rw [hbyte, hchar]

theorem isSpace_of_isIndentChar {c : Char} (h : isIndentChar c = true) : Text.isSpace c = true := by
  simp only [isIndentChar, Bool.or_eq_true, beq_iff_eq] at h
  rcases h with (rfl | rfl) | h
  · decide
  · decide
  · simp [Text.isSpace, h]

/-- The lines that set the indentation: those that are not white space, and the last. -/
def countedLines (lines : List (List Char)) : List (List Char) :=
  lines.dropLast.filter (fun cs => !cs.all Text.isSpace) ++ lines.getLast?.toList

/-- The number of blanks that all lines that set the indentation start with. -/
def sharedIndent (lines : List (List Char)) : Nat :=
  ((countedLines lines).map fun cs => (cs.takeWhile isIndentChar).length).min?.getD 0

theorem isBlank_ofChars (cs : List Char) : (Text.ofChars cs).isBlank = cs.all Text.isSpace := by
  have hall := congrArg (List.all · Text.isSpace) (Text.chars_ofChars cs)
  rwa [List.all_map] at hall

theorem indentOf_ofChars (cs : List Char) :
    indentOf (Text.ofChars cs) = (cs.takeWhile isIndentChar).length := by
  rw [indentOf, Text.skipWhile_eq, List.drop_zero, Nat.zero_add, isIndent_ofAscii.length_takeWhile]

theorem commonIndent_ofChars (lines : List (List Char)) :
    commonIndent (lines.map Text.ofChars) = sharedIndent lines := by
  have hcounted : (lines.map Text.ofChars).dropLast.filter (fun l => !l.isBlank) ++
      (lines.map Text.ofChars).drop ((lines.map Text.ofChars).length - 1) =
        (countedLines lines).map Text.ofChars := by
    rw [countedLines, List.map_append, ← List.map_dropLast, List.filter_map, List.length_map,
      ← List.map_drop]
    congr 2
    · refine List.filter_congr fun cs _ => ?_
      rw [Function.comp_apply, isBlank_ofChars]
    · rcases List.eq_nil_or_concat' lines with rfl | ⟨front, cs, rfl⟩
      · rfl
      · simp
  have hindent : ((countedLines lines).map Text.ofChars).map indentOf =
      (countedLines lines).map fun cs => (cs.takeWhile isIndentChar).length := by
    rw [List.map_map]
    exact List.map_congr_left fun cs _ => indentOf_ofChars cs
  unfold commonIndent sharedIndent
  dsimp only
  rw [hcounted, hindent]
  split
  next hnil => rw [hnil]; rfl
  next n ns hcons => rw [hcons, List.min?_cons', Option.getD_some]

/-- A line without its indentation and without blanks at its end. -/
def strippedLine (n : Nat) (cs : List Char) : List Char := (cs.drop n).rdropWhile isIndentChar

theorem sharedIndent_le {lines : List (List Char)} {cs : List Char} (h : cs ∈ countedLines lines) :
    sharedIndent lines ≤ (cs.takeWhile isIndentChar).length := by
  have hmem := List.mem_map_of_mem (f := fun cs => (cs.takeWhile isIndentChar).length) h
  unfold sharedIndent
  cases hmin : ((countedLines lines).map fun cs => (cs.takeWhile isIndentChar).length).min? with
  | none =>
    rw [List.min?_eq_none_iff.mp hmin] at hmem
    cases hmem
  | some n => exact (List.min?_eq_some_iff.mp hmin).2 _ hmem

/-- A line sets the indentation or is white space and not the last. -/
theorem mem_countedLines {lines : List (List Char)} {cs : List Char} (h : cs ∈ lines) :
    cs ∈ countedLines lines ∨ cs ∈ lines.dropLast ∧ cs.all Text.isSpace = true := by
  rcases List.eq_nil_or_concat' lines with rfl | ⟨front, last, rfl⟩
  · cases h
  · rw [countedLines, List.dropLast_concat, List.getLast?_concat]
    rcases List.mem_append.mp h with h | h
    · cases hblank : cs.all Text.isSpace with
      | true => exact .inr ⟨h, rfl⟩
      | false =>
        left
        apply List.mem_append_left
        exact List.mem_filter.mpr ⟨h, by rw [hblank]; rfl⟩
    · exact .inl (List.mem_append_right _ h)

theorem isIndentChar_of_counted {lines : List (List Char)} {cs : List Char}
    (h : cs ∈ countedLines lines) : ∀ c ∈ cs.take (sharedIndent lines), isIndentChar c = true := by
  intro c hc
  rw [← List.takeWhile_append_dropWhile (p := isIndentChar) (l := cs),
    List.take_append_of_le_length (sharedIndent_le h)] at hc
  exact List.mem_takeWhile_imp (List.mem_of_mem_take hc)

/-- Only white space is cut off. -/
theorem isSpace_of_cut {lines : List (List Char)} {cs : List Char} (h : cs ∈ lines) :
    ∀ c ∈ cs.take (sharedIndent lines), Text.isSpace c = true := by
  intro c hc
  rcases mem_countedLines h with hcounted | ⟨-, hblank⟩
  · exact isSpace_of_isIndentChar (isIndentChar_of_counted hcounted c hc)
  · exact List.all_eq_true.mp hblank c (List.mem_of_mem_take hc)

theorem join_ofChars (lines : List (List Char)) :
    Text.join "\n" (lines.map Text.ofChars) = Text.ofChars (['\n'].intercalate lines) := by
  apply Text.ext_toList
  rw [Text.toList_join, List.map_map]
  induction lines with
  | nil => rfl
  | cons cs lines ih =>
    by_cases hlines : lines = []
    · rw [hlines]
      simp
    · rw [List.map_cons, List.intercalate_cons_of_ne_nil (by simpa using hlines), ih,
        List.intercalate_cons_of_ne_nil hlines, Text.ofChars_append, Text.ofChars_append]
      rfl

/-- Stripping the bytes is stripping the characters if no line is cut inside of one. -/
theorem stripLines_ofChars {lines : List (List Char)}
    (h : ∀ cs ∈ lines.dropLast, cs.all Text.isSpace = true →
      ∀ c ∈ cs.take (sharedIndent lines), c.toNat < 0x80) :
    stripLines (lines.map Text.ofChars) =
      (lines.map (strippedLine (sharedIndent lines))).map Text.ofChars := by
  unfold stripLines
  dsimp only
  rw [commonIndent_ofChars, List.map_map, List.map_map]
  refine List.map_congr_left fun cs hcs => ?_
  have hascii : ∀ c ∈ cs.take (sharedIndent lines), c.toNat < 0x80 := by
    intro c hc
    rcases mem_countedLines hcs with hcounted | ⟨hmem, hblank⟩
    · exact isIndent_ofAscii.ascii c (isIndentChar_of_counted hcounted c hc)
    · exact h cs hmem hblank c hc
  apply Text.ext_toList
  rw [Function.comp_apply, Function.comp_apply, Text.toList_trimRight, Text.toList_drop,
    Text.drop_ofChars hascii, isIndent_ofAscii.rdropWhile]
  rfl

theorem unescape?_plain {t : Text} (h : 92 ∉ t.toList) (inBlock : Bool) :
    unescape? t inBlock = some t := by
  have hall : t.drop 0 = t := Text.ext_toList (by rw [Text.toList_drop, List.drop_zero])
  unfold unescape?
  rw [unescapeFrom_plain _ rfl (by omega) (by rwa [List.drop_zero]), Text.empty_append, hall]

theorem forall_mem_intercalate {α : Type} {p : α → Prop} {sep : List α} (hsep : ∀ a ∈ sep, p a)
    {ls : List (List α)} (h : ∀ l ∈ ls, ∀ a ∈ l, p a) : ∀ a ∈ sep.intercalate ls, p a := by
  induction ls with
  | nil => simp
  | cons l ls ih =>
    obtain ⟨hl, hls⟩ := List.forall_mem_cons.mp h
    by_cases hnil : ls = []
    · rw [hnil]
      simpa using hl
    · rw [List.intercalate_cons_of_ne_nil hnil, List.forall_mem_append, List.forall_mem_append]
      exact ⟨⟨hl, hsep⟩, ih hls⟩

/-- The value of a text block without escape sequences, by its lines. -/
theorem textBlock_of_lines {raw : Text} {lines : List (List Char)}
    (hlines : blockLines? raw = some (lines.map Text.ofChars))
    (hplain : ∀ cs ∈ lines, ∀ c ∈ cs, c ≠ '\\')
    (hcut : ∀ cs ∈ lines.dropLast, cs.all Text.isSpace = true →
      ∀ c ∈ cs.take (sharedIndent lines), c.toNat < 0x80) :
    textBlock raw = .ok (Text.ofChars (['\n'].intercalate
      (lines.map (strippedLine (sharedIndent lines))))) := by
  have hchars : ∀ c ∈ ['\n'].intercalate (lines.map (strippedLine (sharedIndent lines))),
      c ≠ '\\' := by
    refine forall_mem_intercalate (by simp) fun cs hcs c hc => ?_
    obtain ⟨line, hline, rfl⟩ := List.mem_map.mp hcs
    exact hplain line hline c
      (List.mem_of_mem_drop ((List.rdropWhile_prefix _ _).subset hc))
  have hbody : 92 ∉ (Text.ofChars (['\n'].intercalate
      (lines.map (strippedLine (sharedIndent lines))))).toList := by
    intro hmem
    obtain ⟨c, hc, hbyte⟩ := List.mem_flatMap.mp hmem
    exact backslash_notMem (hchars c hc) hbyte
  unfold textBlock
  rw [hlines]
  dsimp only
  rw [stripLines_ofChars hcut, join_ofChars, unescape?_plain hbody]

/-- What stands between the delimiters of a text block, by its lines: a first one of blanks, which
ends behind the opening delimiter, and the others, which are the content. -/
def HasContent (raw : Text) (lines : List (List Char)) : Prop :=
  ∃ inner first, raw = Text.ofChars (['"', '"', '"'] ++ inner ++ ['"', '"', '"']) ∧
    textLines inner = first :: lines ∧ lines ≠ [] ∧ ∀ c ∈ first, isIndentChar c = true

/-- A text block has one content. -/
theorem HasContent.unique {raw : Text} {lines lines' : List (List Char)}
    (h : HasContent raw lines) (h' : HasContent raw lines') : lines = lines' := by
  obtain ⟨inner, first, hraw, hlines, -⟩ := h
  obtain ⟨inner', first', hraw', hlines', -⟩ := h'
  have hinner := List.append_cancel_right (Text.ofChars_inj (hraw.symm.trans hraw'))
  rw [List.append_cancel_left hinner, hlines'] at hlines
  exact (List.cons.inj hlines).2.symm

theorem mem_of_mem_textLines (cs : List Char) : ∀ line ∈ textLines cs, ∀ c ∈ line, c ∈ cs := by
  fun_induction textLines cs with
  | case1 => simp
  | case2 cs ih =>
    rw [List.forall_mem_cons]
    refine ⟨by simp, fun line hline c hc => ?_⟩
    exact List.mem_cons_of_mem _ (List.mem_cons_of_mem _ (ih line hline c hc))
  | case3 c cs _ _ ih =>
    rw [List.forall_mem_cons]
    exact ⟨by simp, fun line hline d hd => List.mem_cons_of_mem _ (ih line hline d hd)⟩
  | case4 c cs _ _ ih =>
    cases hlines : textLines cs with
    | nil => simp
    | cons line lines =>
      rw [hlines, List.forall_mem_cons] at ih
      rw [List.modifyHead_cons, List.forall_mem_cons, List.forall_mem_cons]
      refine ⟨⟨List.mem_cons_self, fun d hd => List.mem_cons_of_mem _ (ih.1 d hd)⟩, ?_⟩
      exact fun l hl d hd => List.mem_cons_of_mem _ (ih.2 l hl d hd)

/-- Blanks as characters. -/
theorem exists_blanks {blanks : List UInt8} (h : ∀ b ∈ blanks, isIndent b = true) :
    ∃ cs, (Text.ofChars cs).toList = blanks ∧ ∀ c ∈ cs, isIndentChar c = true := by
  induction blanks with
  | nil => exact ⟨[], rfl, by simp⟩
  | cons b blanks ih =>
    obtain ⟨hb, hblanks⟩ := List.forall_mem_cons.mp h
    obtain ⟨cs, hcs, hall⟩ := ih hblanks
    simp only [isIndent, Bool.or_eq_true, beq_iff_eq] at hb
    rcases hb with (rfl | rfl) | rfl
    · exact ⟨' ' :: cs, congrArg (32 :: ·) hcs, List.forall_mem_cons.mpr ⟨by decide, hall⟩⟩
    · exact ⟨'\t' :: cs, congrArg (9 :: ·) hcs, List.forall_mem_cons.mpr ⟨by decide, hall⟩⟩
    · exact ⟨Char.ofNat 12 :: cs, congrArg (12 :: ·) hcs,
        List.forall_mem_cons.mpr ⟨by decide, hall⟩⟩

/-- The content of a text block starts behind the end of the first line. -/
theorem exists_textLines {b : UInt8} (hb : Token.isLineEnd b = true) {cs : List Char}
    {body : List UInt8} (hcs : (Text.ofChars cs).toList = b :: body) :
    ∃ lines, textLines cs = [] :: lines ∧ lines ≠ [] ∧
      lines.map (fun cs => (Text.ofChars cs).toList) =
        ((Token.lineFeeds (b :: body)).drop 1).splitOn 10 := by
  have hbytes := Token.splitOn_lineFeeds cs
  obtain ⟨tail, htail⟩ := Token.lineFeeds_lineEnd hb body
  rw [hcs, htail, List.splitOn_cons_eq_if_modifyHead, if_pos BEq.rfl] at hbytes
  rw [htail]
  cases hlines : textLines cs with
  | nil =>
    rw [hlines] at hbytes
    cases hbytes
  | cons first lines =>
    rw [hlines, List.map_cons, List.cons.injEq] at hbytes
    obtain ⟨hfirst, hrest⟩ := hbytes
    have hnil : first = [] := by
      cases first with
      | nil => rfl
      | cons c cs => exact absurd hfirst (by simp [Text.ofChars_cons])
    refine ⟨lines, by rw [hnil], ?_, hrest.symm⟩
    rintro rfl
    exact List.splitOn_ne_nil _ _ hrest

/-- The lines that the evaluator cuts a well-formed text block into. -/
theorem blockLines?_content {cs : List Char} {blanks body : List UInt8} {b : UInt8}
    (hraw : (Text.ofChars cs).toList = [34, 34, 34] ++ (blanks ++ b :: body) ++ [34, 34, 34])
    (hblanks : ∀ c ∈ blanks, isIndent c = true) (hb : Token.isLineEnd b = true) :
    ∃ lines, HasContent (Text.ofChars cs) lines ∧
      blockLines? (Text.ofChars cs) = some (lines.map Text.ofChars) := by
  obtain ⟨ls, hls, hbytes⟩ := blockLines?_eq hraw hblanks hb
  obtain ⟨first, hfirst, hall⟩ := exists_blanks hblanks
  have hascii : b < 0x80 := by
    rcases Bool.or_eq_true_iff.mp hb with hb | hb <;> obtain rfl := beq_iff_eq.mp hb <;> decide
  -- the body and its line end stand before the closing delimiter
  have hclose : (Text.ofChars cs).toList =
      ([34, 34, 34] ++ blanks ++ b :: body) ++ 34 :: [34, 34] := by
    rw [hraw]
    simp
  obtain ⟨front, back, rfl, hfront, hback⟩ := Text.exists_around (b := 34) (by decide) hclose
  obtain ⟨opening, rest, rfl, hopening, hrest⟩ := Text.exists_around hascii hfront
  have hend : back = ['"', '"'] := Text.ofChars_inj (Text.ext_toList (hback.trans rfl))
  have hopen : opening = ['"', '"', '"'] ++ first :=
    Text.ofChars_inj (Text.ext_toList (hopening.trans (congrArg _ hfirst).symm))
  have hbody : (Text.ofChars (Char.ofNat b.toNat :: rest)).toList = b :: body := by
    rw [Text.ofChars_append, hopening] at hfront
    exact List.append_cancel_left hfront
  obtain ⟨lines, hlines, hne, hline⟩ := exists_textLines hb hbody
  refine ⟨lines, ⟨first ++ Char.ofNat b.toNat :: rest, first, ?_, ?_, hne, hall⟩, ?_⟩
  · rw [hopen, hend]
    simp
  · rw [Token.textLines_append, hlines]
    · simp
    · intro c hc
      have hindent := hall c hc
      constructor <;> rintro rfl <;> cases hindent
  · rw [hls]
    congr 1
    apply Text.map_toList_inj.mp
    rw [hbytes, ← hline, List.map_map]
    rfl

end Literal

namespace Lexer

open Literal (HasContent sharedIndent strippedLine)

/-! ## Values of tokens -/

/-- Stripping a text block without escape sequences. All of its lines lose the same number of
characters at the front, which are white space, and the blanks at the end. For lines of white
space only this supposes that the characters they lose at the front are of one byte. -/
theorem textBlock_stripped (l : Lexer) (hkind : l.next.1.kind = .textBlock)
    (hfault : l.next.1.fault = none) (hvalid : l.next.1.literal.isUtf8 = true)
    (hplain : 92 ∉ l.next.1.literal.toList) :
    ∃ lines, HasContent l.next.1.literal lines ∧
      (∀ cs ∈ lines, ∀ c ∈ cs.take (sharedIndent lines), Text.isSpace c = true) ∧
      ((∀ cs ∈ lines.dropLast, cs.all Text.isSpace = true →
          ∀ c ∈ cs.take (sharedIndent lines), c.toNat < 0x80) →
        Literal.textBlock l.next.1.literal = .ok (Text.ofChars (['\n'].intercalate
          (lines.map (strippedLine (sharedIndent lines)))))) := by
  have hscanned : (Token.scan l.input.text l.level l.cursor.offset).kind = .textBlock := hkind
  have hclean : (Token.scan l.input.text l.level l.cursor.offset).fault = none := hfault
  obtain ⟨hother, -⟩ | ⟨hother, -⟩ | ⟨-, hscan, hquotes⟩ | ⟨hother, -⟩ :=
    Token.scan_literal (by rw [hscanned]; decide)
  all_goals try exact absurd (hother.symm.trans hscanned) (by decide)
  rw [hscan] at hclean
  obtain ⟨blanks, body, b, hraw, hblanks, hline, -⟩ := Token.scanTextBlock_literal hquotes hclean
  have hliteral : l.next.1.literal = l.input.text.slice l.cursor.offset
      (Token.scanTextBlock l.input.text l.level l.cursor.offset).stop := by
    rw [← hscan]
    rfl
  rw [← hliteral] at hraw
  obtain ⟨cs, hcs⟩ := Text.isUtf8_iff.mp hvalid
  rw [hcs] at hraw hplain ⊢
  obtain ⟨lines, hcontent, hlines⟩ := Literal.blockLines?_content hraw hblanks hline
  refine ⟨lines, hcontent, fun line hmem => Literal.isSpace_of_cut hmem, fun hcut => ?_⟩
  refine Literal.textBlock_of_lines hlines (fun line hmem c hc => ?_) hcut
  obtain ⟨inner, first, hinner, htext, -, -⟩ := hcontent
  have hchar : c ∈ cs := by
    rw [Text.ofChars_inj hinner]
    apply List.mem_append_left
    apply List.mem_append_right
    exact Literal.mem_of_mem_textLines inner line (htext ▸ List.mem_cons_of_mem _ hmem) c hc
  rintro rfl
  apply hplain
  exact List.mem_flatMap.mpr ⟨_, hchar, by decide⟩

/-- A block of three lines. The first is indented further than the last, and the second has blanks
only. -/
def indentedBlock : Lexer := new "\"\"\"\n  a \n  \n b\"\"\"" {} .latest

def indentedLines : List (List Char) := [[' ', ' ', 'a', ' '], [' ', ' '], [' ', 'b']]

theorem hasContent_indentedBlock : HasContent indentedBlock.next.1.literal indentedLines :=
  ⟨'\n' :: ['\n'].intercalate indentedLines, [], by decide +kernel, by decide, by decide, nofun⟩

theorem textBlock_stripped_indented :
    indentedBlock.next.1.kind = .textBlock ∧ indentedBlock.next.1.fault = none ∧
      indentedBlock.next.1.literal.isUtf8 = true ∧ 92 ∉ indentedBlock.next.1.literal.toList ∧
      ∃ lines, HasContent indentedBlock.next.1.literal lines ∧ lines = indentedLines ∧
        (∀ cs ∈ lines, ∀ c ∈ cs.take (sharedIndent lines), Text.isSpace c = true) ∧
        (∀ cs ∈ lines.dropLast, cs.all Text.isSpace = true →
          ∀ c ∈ cs.take (sharedIndent lines), c.toNat < 0x80) ∧
        Literal.textBlock indentedBlock.next.1.literal = .ok (Text.ofChars (['\n'].intercalate
          (lines.map (strippedLine (sharedIndent lines))))) ∧
        Literal.textBlock indentedBlock.next.1.literal = .ok " a\n\nb" := by
  have hkind : indentedBlock.next.1.kind = .textBlock := by decide +kernel
  have hfault : indentedBlock.next.1.fault = none := by decide +kernel
  have hvalid : indentedBlock.next.1.literal.isUtf8 = true := by decide +kernel
  have hplain : 92 ∉ indentedBlock.next.1.literal.toList := by decide +kernel
  obtain ⟨lines, hcontent, hspace, hvalue⟩ :=
    textBlock_stripped indentedBlock hkind hfault hvalid hplain
  obtain rfl := hcontent.unique hasContent_indentedBlock
  have hascii : ∀ cs ∈ indentedLines, ∀ c ∈ cs, c.toNat < 0x80 := by simp [indentedLines]
  have hcut : ∀ cs ∈ indentedLines.dropLast, cs.all Text.isSpace = true →
      ∀ c ∈ cs.take (sharedIndent indentedLines), c.toNat < 0x80 :=
    fun cs hcs _ c hc => hascii cs (List.dropLast_subset _ hcs) c (List.mem_of_mem_take hc)
  refine ⟨hkind, hfault, hvalid, hplain, _, hcontent, rfl, hspace, hcut, hvalue hcut, ?_⟩
  rw [hvalue hcut]
  exact congrArg Except.ok (by decide +kernel)

end Lexer

namespace Literal

/-- A line of one ideographic space loses the first of its three bytes. -/
theorem textBlock_cuts_character :
    (textBlock (Text.ofChars
        ['"', '"', '"', '\n', '\u3000', '\n', ' ', 'a', '"', '"', '"'])).toOption =
        some (Text.ofList [0x80, 0x80, 10, 97]) ∧
      (Text.ofList [0x80, 0x80, 10, 97]).isUtf8 = false := by
  decide +kernel

end Literal

end Javelin
