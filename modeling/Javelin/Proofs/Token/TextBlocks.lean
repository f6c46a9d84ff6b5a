import Javelin.Proofs.Token.EscapeSequences

/-!
# Lines of text blocks

The evaluator of a text block unifies its line ends, cuts it into lines, strips these and joins them
before it replaces escape sequences. None of this takes an escape sequence apart: only a line end
may be escaped across two lines, and only blanks are stripped (`stripped_escaped`).

1. Unified line ends.
2. Lines and their joint.
3. Stripping.
-/

namespace Javelin.Token

variable {line : UInt8 → Bool}

/-! ## Line ends -/

/-- Bytes with every line end as a line feed. -/
def lineFeeds : List UInt8 → List UInt8
  | [] => []
  | [b] => if b = 13 then [10] else [b]
  | b :: c :: bs =>
    if b = 13 ∧ c = 10 then 10 :: lineFeeds bs
    else (if b = 13 then 10 else b) :: lineFeeds (c :: bs)

theorem lineFeeds_plain {b : UInt8} (hb : b ≠ 13) (bs : List UInt8) :
    lineFeeds (b :: bs) = b :: lineFeeds bs := by
  cases bs <;> simp [lineFeeds, hb]

theorem lineFeeds_pair (bs : List UInt8) : lineFeeds (13 :: 10 :: bs) = 10 :: lineFeeds bs := by
  simp [lineFeeds]

theorem lineFeeds_return {bs : List UInt8} (h : bs.head? ≠ some 10) :
    lineFeeds (13 :: bs) = 10 :: lineFeeds bs := by
  cases bs with
  | nil => rfl
  | cons c bs =>
    have hc : c ≠ 10 := fun hc => h (by rw [hc]; rfl)
    simp [lineFeeds, hc]

theorem lineFeeds_lineEnd {b : UInt8} (hb : isLineEnd b = true) (bs : List UInt8) :
    ∃ tail, lineFeeds (b :: bs) = 10 :: tail := by
  rcases Bool.or_eq_true_iff.mp hb with hb | hb <;> obtain rfl := beq_iff_eq.mp hb
  · exact ⟨_, lineFeeds_plain (by decide) bs⟩
  · cases bs with
    | nil => exact ⟨_, rfl⟩
    | cons c bs =>
      by_cases hc : c = 10
      · rw [hc]
        exact ⟨_, lineFeeds_pair bs⟩
      · exact ⟨_, lineFeeds_return (by simpa using hc)⟩

theorem lineFeeds_append {xs : List UInt8} (hx : 13 ∉ xs) (bs : List UInt8) :
    lineFeeds (xs ++ bs) = xs ++ lineFeeds bs := by
  induction xs with
  | nil => rfl
  | cons x xs ih =>
    rw [List.mem_cons, not_or] at hx
    rw [List.cons_append, lineFeeds_plain (Ne.symm hx.1), ih hx.2, List.cons_append]

open Text (replaced) in
/-- Replacing pairs of carriage return and line feed, and then carriage returns. -/
theorem replaced_lineFeeds (bs : List UInt8) :
    replaced 13 [] [10] (replaced 13 [10] [10] bs) = lineFeeds bs := by
  have hcons (b : UInt8) (hb : b ≠ 13) (cs : List UInt8) :
      replaced 13 [] [10] (b :: cs) = b :: replaced 13 [] [10] cs := by
    rw [replaced, if_neg (by simp [Ne.symm hb])]
  fun_induction lineFeeds bs with
  | case1 => simp [replaced]
  | case2 => simp [replaced]
  | case3 b hb => simp [replaced, Ne.symm hb]
  | case4 b c bs hpair ih =>
    obtain ⟨rfl, rfl⟩ := hpair
    rw [replaced, if_pos (by simp), List.singleton_append, hcons 10 (by decide)]
    exact congrArg (10 :: ·) ih
  | case5 b c bs hpair ih =>
    rw [replaced, if_neg (by simpa [eq_comm] using hpair)]
    by_cases hb : b = 13
    · rw [if_pos hb, hb, replaced, if_pos (by simp)]
      exact congrArg (10 :: ·) ih
    · rw [if_neg hb, hcons b hb, ih]

/-- What may stand in an escape sequence besides a line end. -/
theorem IsEscape.plain_or_line {e : List UInt8} (h : IsEscape line e) :
    (∃ b, e = [b] ∧ line b = true) ∨
      (∀ b ∈ e, b ≠ 10 ∧ b ≠ 13 ∧ Literal.isIndent b = false) ∧
        ∀ other, IsEscape other e := by
  have hbytes : ∀ b, isSimpleEscape b = true ∨ isOctalDigit b = true ∨
      Text.isHexDigit b = true ∨ b = 117 →
      b ≠ 10 ∧ b ≠ 13 ∧ Literal.isIndent b = false := Literal.forall_byte (by decide +kernel)
  cases h with
  | @simple b hb => exact .inr ⟨by simpa using hbytes b (.inl hb), fun _ => .simple hb⟩
  | octal hall hlen =>
    exact .inr ⟨fun b hb => hbytes b (.inr (.inl (hall b hb))), fun _ => .octal hall hlen⟩
  | unicode n hlen hhex =>
    refine .inr ⟨fun b hb => ?_, fun _ => .unicode n hlen hhex⟩
    rcases List.mem_append.mp hb with hb | hb
    · exact hbytes b (.inr (.inr (.inr (List.eq_of_mem_replicate hb))))
    · exact hbytes b (.inr (.inr (.inl (hhex b hb))))
  | @line b hb => exact .inl ⟨b, rfl, hb⟩

/-- Escape sequences stay whole when line ends are unified. -/
theorem Escaped.lineFeeds {bs : List UInt8} (h : Escaped (fun b => true && isLineEnd b) bs) :
    Escaped (fun b => true && b == 10) (lineFeeds bs) := by
  -- by the length: behind a carriage return a line feed is skipped
  induction hn : bs.length using Nat.strong_induction_on generalizing bs with
  | _ n ih =>
  subst hn
  have hend {cs : List UInt8} (hcs : Escaped (fun b => true && isLineEnd b) cs)
      (hlen : cs.length < bs.length) : ∃ tail, Token.lineFeeds (13 :: cs) = 10 :: tail ∧
        Escaped (fun b => true && b == 10) tail := by
    cases cs with
    | nil => exact ⟨[], rfl, .nil⟩
    | cons c cs =>
      by_cases hc : c = 10
      · subst hc
        exact ⟨_, lineFeeds_pair cs, ih cs.length (by rw [List.length_cons] at hlen; omega)
          (hcs.of_cons (by decide)) rfl⟩
      · exact ⟨_, lineFeeds_return (by simpa using hc), ih _ hlen hcs rfl⟩
  cases h with
  | nil => exact .nil
  | @plain b cs hb hcs =>
    by_cases hret : b = 13
    · subst hret
      obtain ⟨tail, htail, hescaped⟩ := hend hcs (by simp)
      rw [htail]
      exact .plain (by decide) hescaped
    · rw [lineFeeds_plain hret]
      exact .plain hb (ih _ (by simp) hcs rfl)
  | @escape e cs he hcs =>
    have hlen : cs.length < (92 :: (e ++ cs)).length := by
      rw [List.length_cons, List.length_append]
      omega
    rw [lineFeeds_plain (by decide)]
    rcases he.plain_or_line with ⟨b, rfl, hb⟩ | ⟨hall, hescape⟩
    · rw [List.singleton_append]
      by_cases hret : b = 13
      · subst hret
        obtain ⟨tail, htail, hescaped⟩ := hend hcs hlen
        rw [htail]
        exact .escape (e := [10]) (.line rfl) hescaped
      · have hten : b = 10 := by
          simpa [isLineEnd, hret] using hb
        subst hten
        rw [lineFeeds_plain (by decide)]
        exact .escape (e := [10]) (.line rfl) (ih _ hlen hcs rfl)
    · rw [lineFeeds_append fun h => (hall 13 h).2.1 rfl]
      exact .escape (hescape _) (ih _ hlen hcs rfl)

/-! ## Lines -/

/-- A line of escaped bytes; its end may be escaped itself. -/
def EscapedLine (l : List UInt8) : Prop :=
  Escaped (fun b => true && b == 10) l ∨
    ∃ front, l = front ++ [92] ∧ Escaped (fun b => true && b == 10) front

/-- The lines of escaped bytes. -/
inductive EscapedLines : List (List UInt8) → Prop
  | last {l : List UInt8} (h : Escaped (fun b => true && b == 10) l) : EscapedLines [l]
  | cons {l : List UInt8} {ls : List (List UInt8)} (h : EscapedLine l) (hs : EscapedLines ls) :
      EscapedLines (l :: ls)

/-- Bytes in front of the first line. -/
theorem EscapedLines.modifyHead {front : List UInt8} {ls : List (List UInt8)}
    (hfront : ∀ bs, Escaped (fun b => true && b == 10) bs →
      Escaped (fun b => true && b == 10) (front ++ bs)) (h : EscapedLines ls) :
    EscapedLines (ls.modifyHead (front ++ ·)) := by
  cases h with
  | last h => exact .last (hfront _ h)
  | cons h hs =>
    refine .cons ?_ hs
    rcases h with h | ⟨rest, rfl, h⟩
    · exact .inl (hfront _ h)
    · exact .inr ⟨front ++ rest, (List.append_assoc ..).symm, hfront _ h⟩

theorem splitOn_append {b : UInt8} {front : List UInt8} (h : b ∉ front) (bs : List UInt8) :
    (front ++ bs).splitOn b = (bs.splitOn b).modifyHead (front ++ ·) := by
  induction front with
  | nil => cases hbs : bs.splitOn b <;> simp [hbs]
  | cons c cs ih =>
    rw [List.mem_cons, not_or] at h
    rw [List.cons_append, List.splitOn_cons_eq_if_modifyHead, if_neg (by simpa using Ne.symm h.1),
      ih h.2, List.modifyHead_modifyHead]
    rfl

theorem Escaped.lines {bs : List UInt8} (h : Escaped (fun b => true && b == 10) bs) :
    EscapedLines (bs.splitOn 10) := by
  induction h with
  | nil => exact .last .nil
  | @plain b bs hb h ih =>
    rw [List.splitOn_cons_eq_if_modifyHead]
    split
    · exact .cons (.inl .nil) ih
    · have hfront (bs : List UInt8) (h : Escaped (fun b => true && b == 10) bs) :
          Escaped (fun b => true && b == 10) ([b] ++ bs) := .plain hb h
      exact ih.modifyHead hfront
  | @escape e bs he h ih =>
    rcases he.plain_or_line with ⟨b, rfl, hb⟩ | ⟨hall, -⟩
    · obtain rfl : b = 10 := by simpa using hb
      exact .cons (.inr ⟨[], rfl, .nil⟩) ih
    · rw [← List.cons_append, splitOn_append]
      · exact ih.modifyHead fun _ h => .escape he h
      · rw [List.mem_cons, not_or]
        exact ⟨by decide, fun h => (hall 10 h).1 rfl⟩

theorem EscapedLines.joined {ls : List (List UInt8)} (h : EscapedLines ls) :
    Escaped (fun b => true && b == 10) ([10].intercalate ls) := by
  induction h with
  | last h => simpa using h
  | @cons l ls h hs ih =>
    have hne : ls ≠ [] := by cases hs <;> simp
    rw [List.intercalate_cons_of_ne_nil hne]
    rcases h with h | ⟨front, rfl, h⟩
    · rw [List.append_assoc]
      exact h.append (.plain (by decide) ih)
    · rw [List.append_assoc, List.append_assoc]
      exact h.append (.escape (e := [10]) (.line rfl) ih)

/-! ## Stripping -/

theorem Escaped.dropBlank {l : List UInt8} {b : UInt8} (hb : Literal.isIndent b = true)
    (h : Escaped (fun b => true && b == 10) (l ++ [b])) :
    Escaped (fun b => true && b == 10) l := by
  generalize hbs : l ++ [b] = bs at h
  induction h generalizing l with
  | nil => simp at hbs
  | @plain c cs hc h ih =>
    cases l with
    | nil => exact .nil
    | cons c' l =>
      obtain ⟨rfl, hl⟩ := List.cons.inj hbs
      exact .plain hc (ih hl)
  | @escape e cs he h ih =>
    rcases List.eq_nil_or_concat' cs with rfl | ⟨init, c, rfl⟩
    · -- no escape sequence ends with a blank
      exfalso
      have hmem : b ∈ e := by
        have hlast := congrArg List.getLast? hbs
        rw [List.append_nil, List.getLast?_concat, List.getLast?_cons_of_ne_nil he.ne_nil] at hlast
        exact List.mem_of_getLast? hlast.symm
      rcases he.plain_or_line with ⟨c, rfl, hc⟩ | ⟨hall, -⟩
      · obtain rfl : b = c := List.mem_singleton.mp hmem
        obtain rfl : b = 10 := by simpa using hc
        cases hb
      · rw [(hall b hmem).2.2] at hb
        cases hb
    · rw [← List.append_assoc, ← List.cons_append] at hbs
      obtain ⟨rfl, hlast⟩ := List.append_inj' hbs rfl
      obtain rfl : b = c := List.head_eq_of_cons_eq hlast
      exact .escape he (ih rfl)

theorem Escaped.rdropWhile {l : List UInt8} (h : Escaped (fun b => true && b == 10) l) :
    Escaped (fun b => true && b == 10) (l.rdropWhile Literal.isIndent) := by
  induction l using List.reverseRecOn with
  | nil => exact .nil
  | append_singleton l b ih =>
    rw [List.rdropWhile_concat]
    split
    next hb => exact ih (h.dropBlank hb)
    next => exact h

theorem Escaped.drop {n : Nat} {l : List UInt8} (hn : 92 ∉ l.take n)
    (h : Escaped (fun b => true && b == 10) l) :
    Escaped (fun b => true && b == 10) (l.drop n) :=
  .of_append hn (by rwa [List.take_append_drop])

/-- A line without some bytes at its front that are no backslashes, and without blanks at its
end. -/
def stripped (n : Nat) (l : List UInt8) : List UInt8 := (l.drop n).rdropWhile Literal.isIndent

theorem EscapedLine.stripped {n : Nat} {l : List UInt8} (hn : 92 ∉ l.take n)
    (h : EscapedLine l) : EscapedLine (stripped n l) := by
  rcases h with h | ⟨front, rfl, h⟩
  · exact .inl (h.drop hn).rdropWhile
  · have hle : n ≤ front.length := by
      by_contra hlt
      exact hn (by rw [List.take_of_length_le (by simp; omega)]; simp)
    rw [List.take_append_of_le_length hle] at hn
    refine .inr ⟨front.drop n, ?_, h.drop hn⟩
    rw [Token.stripped, List.drop_append_of_le_length hle,
      List.rdropWhile_concat_neg _ _ _ (by decide)]

theorem EscapedLines.stripped {n : Nat} {ls : List (List UInt8)}
    (hn : ∀ l ∈ ls, 92 ∉ l.take n) (h : EscapedLines ls) :
    EscapedLines (ls.map (Token.stripped n)) := by
  induction h with
  | @last l h => exact .last (h.drop (hn l (by simp))).rdropWhile
  | @cons l ls h hs ih =>
    rw [List.forall_mem_cons] at hn
    exact .cons (h.stripped hn.1) (ih hn.2)

end Javelin.Token

namespace Javelin.Literal

open Token (Escaped EscapedLines stripped)

theorem toList_stripLine (n : Nat) (l : Text) :
    ((l.drop n).trimRight isIndent).toList = stripped n l.toList := by
  rw [Text.toList_trimRight, Text.toList_drop]
  rfl

theorem foldl_min_le (ns : List Nat) : ∀ n, ns.foldl min n ≤ n ∧ ∀ m ∈ ns, ns.foldl min n ≤ m := by
  induction ns with
  | nil => simp
  | cons m ns ih =>
    intro n
    obtain ⟨hle, hall⟩ := ih (min n m)
    rw [List.foldl_cons, List.forall_mem_cons]
    exact ⟨by omega, by omega, hall⟩

theorem commonIndent_le {lines : List Text} {l : Text}
    (h : l ∈ lines.dropLast.filter (fun l => !l.isBlank) ++ lines.drop (lines.length - 1)) :
    commonIndent lines ≤ indentOf l := by
  have hmem := List.mem_map_of_mem (f := indentOf) h
  unfold commonIndent
  dsimp only
  generalize List.map indentOf _ = ns at hmem
  cases ns with
  | nil => cases hmem
  | cons n ns =>
    obtain ⟨hle, hall⟩ := foldl_min_le ns n
    rcases List.mem_cons.mp hmem with heq | hmem
    · rw [heq]
      exact hle
    · exact hall _ hmem

/-- A line of white space has no backslash. -/
theorem backslash_notMem_of_isBlank {l : Text} (h : l.isBlank = true) : 92 ∉ l.toList := by
  intro hmem
  obtain ⟨p, hp, hchar⟩ := Text.mem_chars (by decide) hmem
  have hspace := List.all_eq_true.mp h p hp
  rw [hchar] at hspace
  revert hspace
  decide

/-- Of a line at most its indentation is cut off, and of a line of white space nothing matters. -/
theorem backslash_notMem_indent {lines : List Text} {l : Text} (h : l ∈ lines) :
    92 ∉ l.toList.take (commonIndent lines) := by
  by_cases hblank : l.isBlank = true ∧ l ∈ lines.dropLast
  · exact fun hmem => backslash_notMem_of_isBlank hblank.1 (List.mem_of_mem_take hmem)
  · have hle : commonIndent lines ≤ indentOf l := by
      refine commonIndent_le (List.mem_append.mpr ?_)
      rw [← List.take_append_drop (lines.length - 1) lines, ← List.dropLast_eq_take,
        List.mem_append] at h
      refine h.imp_left fun hl => List.mem_filter.mpr ⟨hl, ?_⟩
      rw [Bool.not_eq_true', ← Bool.not_eq_true]
      exact fun hb => hblank ⟨hb, hl⟩
    intro hmem
    rw [indentOf, Text.skipWhile_eq, List.drop_zero, Nat.zero_add] at hle
    rw [← List.takeWhile_append_dropWhile (p := isIndent) (l := l.toList),
      List.take_append_of_le_length hle] at hmem
    have hindent := List.mem_takeWhile_imp (List.mem_of_mem_take hmem)
    revert hindent
    decide

/-- Stripping leaves escape sequences whole. -/
theorem stripped_escaped {lines : List Text} (h : EscapedLines (lines.map Text.toList)) :
    Escaped (fun b => true && b == 10) (Text.join "\n" (stripLines lines)).toList := by
  have hstrip : (stripLines lines).map Text.toList =
      (lines.map Text.toList).map (stripped (commonIndent lines)) := by
    rw [stripLines, List.map_map, List.map_map]
    exact List.map_congr_left fun l _ => toList_stripLine _ l
  rw [Text.toList_join, hstrip]
  refine (h.stripped fun bs hbs => ?_).joined
  obtain ⟨l, hl, rfl⟩ := List.mem_map.mp hbs
  exact backslash_notMem_indent hl

/-! ## The value -/

/-- The first byte with the property, before which there is none. -/
theorem findIdx?_eq {t : Text} {p : UInt8 → Bool} {xs ys : List UInt8} {b : UInt8}
    (ht : t.toList = xs ++ b :: ys) (hb : p b = true) (hxs : ∀ x ∈ xs, p x = false) :
    t.findIdx? p = some xs.length := by
  have hgo (n : Nat) : ∀ i, i + n = xs.length → ∀ k, n < k →
      t.findFrom p i k = some xs.length := by
    induction n with
    | zero =>
      intro i hi k hk
      obtain ⟨k, rfl⟩ : ∃ m, k = m + 1 := ⟨k - 1, by omega⟩
      have hat : t.at0 i = b := by simp [Text.at0_eq, ht, ← hi]
      rw [Text.findFrom, hat, if_pos hb, ← hi, Nat.add_zero]
    | succ n ih =>
      intro i hi k hk
      obtain ⟨k, rfl⟩ : ∃ m, k = m + 1 := ⟨k - 1, by omega⟩
      have hlt : i < xs.length := by omega
      have hat : t.at0 i = xs[i] := by
        simp [Text.at0_eq, ht, List.getElem?_append_left hlt, hlt]
      rw [Text.findFrom, hat, hxs _ (List.getElem_mem hlt), if_neg Bool.false_ne_true]
      exact ih (i + 1) (by omega) k (by omega)
  refine hgo xs.length 0 (Nat.zero_add _) t.size ?_
  rw [Text.size_eq, ht, List.length_append, List.length_cons]
  omega

/-- The lines of a text block are those behind the line of its opening delimiter. -/
theorem blockLines?_eq {raw : Text} {blanks body : List UInt8} {b : UInt8}
    (hraw : raw.toList = [34, 34, 34] ++ (blanks ++ b :: body) ++ [34, 34, 34])
    (hblanks : ∀ c ∈ blanks, isIndent c = true) (hb : Token.isLineEnd b = true) :
    ∃ lines, blockLines? raw = some lines ∧
      lines.map Text.toList = ((Token.lineFeeds (b :: body)).drop 1).splitOn 10 := by
  have hdelimiter : ("\"\"\"" : Text).toList = [34, 34, 34] := rfl
  have hbytes : ∀ c, isIndent c = true → Token.isLineEnd c = false :=
    forall_byte (by decide +kernel)
  have hcond : (raw.startsWith "\"\"\"" && raw.endsWith "\"\"\"" && decide (raw.size ≥ 6)) = true := by
    rw [Bool.and_eq_true, Bool.and_eq_true, Text.startsWith_iff, Text.endsWith_iff, hdelimiter,
      Text.size_eq, hraw, List.append_assoc]
    refine ⟨⟨List.prefix_append .., ?_⟩, by simp; omega⟩
    rw [← List.append_assoc]
    exact List.suffix_append ..
  have hslice : (raw.slice 3 (raw.size - 3)).toList = blanks ++ b :: body := by
    have hdrop (bs : List UInt8) : List.drop 3 ([34, 34, 34] ++ bs) = bs := rfl
    rw [Text.toList_slice, Text.size_eq, hraw, List.append_assoc, hdrop]
    refine List.take_left' ?_
    simp only [List.length_append, List.length_cons, List.length_nil]
    omega
  have htake : ((raw.slice 3 (raw.size - 3)).take blanks.length).all isIndent = true := by
    rw [Text.all_eq, Text.toList_take, hslice, List.take_left' rfl, List.all_eq_true]
    exact hblanks
  have hrest : (((((raw.slice 3 (raw.size - 3)).drop blanks.length).replace "\r\n" "\n").replace
      "\r" "\n").drop 1).toList = (Token.lineFeeds (b :: body)).drop 1 := by
    have hreturn : ("\r" : Text).toList = 13 :: [] := rfl
    have hpair : ("\r\n" : Text).toList = 13 :: [10] := rfl
    rw [Text.toList_drop, Text.toList_replace hreturn, Text.toList_replace hpair,
      Text.toList_drop, hslice, List.drop_left' rfl]
    exact congrArg (List.drop 1) (Token.replaced_lineFeeds (b :: body))
  refine ⟨_, ?_, (Text.toList_split ..).trans (congrArg (List.splitOn 10) hrest)⟩
  unfold blockLines?
  dsimp only
  rw [if_pos hcond, findIdx?_eq hslice hb fun c hc => hbytes c (hblanks c hc)]
  dsimp only
  rw [if_pos htake]
  rfl

/-- A text block without a fault has a value. -/
theorem textBlock_of_escaped {raw : Text} {blanks body : List UInt8} {b : UInt8}
    (hraw : raw.toList = [34, 34, 34] ++ (blanks ++ b :: body) ++ [34, 34, 34])
    (hblanks : ∀ c ∈ blanks, isIndent c = true) (hb : Token.isLineEnd b = true)
    (h : Escaped (fun b => true && Token.isLineEnd b) (b :: body)) :
    ∃ s, textBlock raw = .ok s := by
  obtain ⟨lines, hlines, hbytes⟩ := blockLines?_eq hraw hblanks hb
  have hfirst : Escaped (fun b => true && b == 10) ((Token.lineFeeds (b :: body)).drop 1) := by
    obtain ⟨tail, htail⟩ := Token.lineFeeds_lineEnd hb body
    have hescaped := h.lineFeeds
    rw [htail] at hescaped ⊢
    exact hescaped.of_cons (by decide)
  obtain ⟨s, hs⟩ := Option.isSome_iff_exists.mp
    (unescape?_isSome (stripped_escaped (hbytes ▸ hfirst.lines)))
  unfold textBlock
  rw [hlines]
  simp only [hs]
  exact ⟨s, rfl⟩

end Javelin.Literal
