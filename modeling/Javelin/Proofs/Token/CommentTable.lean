import Javelin.Proofs.Token.LiteralTokens
import Javelin.Proofs.Token.Lossless

/-!
# The table of comments

Tokens and comments may be taken from a lexer in any order. The table has an entry for every comment
among the tokens taken so far, in the order of the source, and the two signed numbers of an entry
tell its kind and its place. The comments that were taken are the first of the table, each of them
once, and none is left that ends at or before the last offset asked for (`comments_handed_out`).

1. Where the bytes came from: behind a byte of ASCII the source goes on at a later place.
2. Comments among the tokens.
3. What taking tokens and comments keeps (`Kept`).
4. Requests in any order.
-/

namespace Javelin

/-! ## Where the bytes came from -/

namespace Source

/-- The places that two bytes came from, the first of them written before the second. -/
def Rises (a b : Nat × UInt8) : Prop := a.1 ≤ b.1 ∧ (a.2 < 0x80 → a.1 < b.1)

/-- The places of the bytes written so far lie before `i` in a source of `n` bytes. They do not go
back, and behind a byte of ASCII they go on. -/
structure Rising (n i : Nat) (bs : List UInt8) (os : List Nat) : Prop where
  length : os.length = bs.length
  below : ∀ o ∈ os, o < i ∧ o < n
  rising : (os.zip bs).Pairwise Rises

theorem Rising.extend {n i j : Nat} {bs piece : List UInt8} {os : List Nat}
    (h : Rising n i bs os) (hn : i < n) (hij : i < j)
    (hpiece : piece.length = 1 ∨ ∀ b ∈ piece, 0x80 ≤ b) :
    Rising n j (bs ++ piece) (os ++ List.replicate piece.length i) := by
  refine ⟨by simp [h.length], ?_, ?_⟩
  · intro o ho
    rcases List.mem_append.mp ho with ho | ho
    · have hbelow := h.below o ho
      omega
    · obtain rfl := (List.mem_replicate.mp ho).2
      exact ⟨hij, hn⟩
  · rw [List.zip_append h.length, List.pairwise_append]
    refine ⟨h.rising, ?_, ?_⟩
    · rcases hpiece with hone | hbeyond
      · obtain ⟨b, rfl⟩ := List.length_eq_one_iff.mp hone
        exact List.pairwise_singleton _ _
      · refine List.pairwise_of_forall_mem_list fun a ha b hb => ?_
        have ha' := List.of_mem_zip ha
        have hb' := List.of_mem_zip hb
        have hsame : a.1 = b.1 :=
          (List.mem_replicate.mp ha'.1).2.trans (List.mem_replicate.mp hb'.1).2.symm
        exact ⟨Nat.le_of_eq hsame, fun hlt => absurd hlt (UInt8.not_lt.mpr (hbeyond _ ha'.2))⟩
    · intro a ha b hb
      have hlt := (h.below _ (List.of_mem_zip ha).1).1
      have hb' := (List.mem_replicate.mp (List.of_mem_zip hb).1).2
      rw [← hb'] at hlt
      exact ⟨Nat.le_of_lt hlt, fun _ => hlt⟩

/-- The end of the source lies behind all places. -/
theorem Rising.close {n i : Nat} {bs : List UInt8} {os : List Nat} (h : Rising n i bs os) :
    ((os ++ [n]).zip (bs ++ [0])).Pairwise Rises := by
  rw [List.zip_append h.length, List.pairwise_append]
  refine ⟨h.rising, List.pairwise_singleton _ _, ?_⟩
  intro a ha b hb
  obtain rfl := List.mem_singleton.mp hb
  have hlt := (h.below _ (List.of_mem_zip ha).1).2
  exact ⟨Nat.le_of_lt hlt, fun _ => hlt⟩

theorem lt_of_escapeAt? {t : Text} {i j u : Nat} (h : escapeAt? t i = some (u, j)) : i < j := by
  rw [escapeAt?, Option.ite_none_right_eq_some] at h
  obtain ⟨n, -, hj⟩ := Option.map_eq_some_iff.mp h.2
  have hskip := Text.le_skipWhile t (· == 'u') (i + 1)
  cases hj
  omega

theorem lt_of_codePointAt? {t : Text} {i j u : Nat} (h : codePointAt? t i = some (u, j)) :
    i < j := by
  unfold codePointAt? at h
  split at h
  · cases h
  next unit k hfirst =>
    have hk := lt_of_escapeAt? hfirst
    split at h
    next low m hsecond =>
      have hm := lt_of_escapeAt? hsecond
      split at h
      all_goals
        cases h
        omega
    · cases h
      exact hk

/-- A character of more than one byte has no byte of ASCII. -/
theorem ofCodePoint_bytes (n : Nat) : (Text.ofCodePoint n).toList.length = 1 ∨
    ∀ b ∈ (Text.ofCodePoint n).toList, 0x80 ≤ b := by
  rw [Text.ofCodePoint, Text.toList_ofChar]
  by_cases hascii : (Text.charOf n).toNat < 0x80
  · left
    rw [Text.utf8EncodeChar_ascii hascii]
    rfl
  · right
    exact Text.utf8EncodeChar_ge (Nat.le_of_not_lt hascii)

theorem translateFrom_rising (t : Text) (fuel : Nat) : ∀ (i : Nat) (odd : Bool) (out : Text)
    (offsets : Array Nat) (changed : Bool), Rising t.size i out.toList offsets.toList →
    ∃ j, Rising t.size j (translateFrom t i odd out offsets changed fuel).1.toList
      (translateFrom t i odd out offsets changed fuel).2.1.toList := by
  induction fuel with
  | zero => exact fun i _ _ _ _ h => ⟨i, h⟩
  | succ fuel ih =>
    intro i odd out offsets changed h
    unfold translateFrom
    split
    next hi =>
      dsimp only
      split
      next n j hescape =>
        have hij : i < j := by
          cases odd with
          | true => cases hescape
          | false => exact lt_of_codePointAt? hescape
        rw [push_range]
        apply ih
        simpa [Text.size_eq] using h.extend hi hij (ofCodePoint_bytes n)
      next =>
        apply ih
        have hnext : Rising t.size (i + 1) (out.toList ++ [t.at0 i]) (offsets.toList ++ [i]) :=
          h.extend hi (Nat.lt_succ_self i) (.inl rfl)
        simpa using hnext
    next => exact ⟨i, h⟩

/-- The table of offsets goes on behind every byte of ASCII. -/
theorem translate_rising {t : Text} {table : Array Nat} (h : (translate t).offsets = some table) :
    table.size = (translate t).text.size + 1 ∧
      (table.toList.zip ((translate t).text.toList ++ [0])).Pairwise Rises := by
  unfold translate at h ⊢
  split at h
  next hu =>
    rw [if_pos hu]
    obtain ⟨j, hrising⟩ := translateFrom_rising t t.size 0 false {} #[] false
      ⟨rfl, by simp, List.Pairwise.nil⟩
    split at h
    next out offsets heq =>
      rw [heq] at hrising
      obtain rfl := Option.some.inj h
      have hlength := hrising.length
      refine ⟨?_, by simpa using hrising.close⟩
      simpa [Text.size_eq] using hlength
    next => cases h
  next => cases h

end Source

namespace Lexer

variable {l : Lexer} {i j : Nat}

/-- The places in the source keep the order of the replaced text. -/
theorem sourceOffset_rises (hl : l.input = Source.translate l.source) (hij : i < j)
    (hj : j ≤ l.input.text.size) : l.sourceOffset i ≤ l.sourceOffset j ∧
      (l.input.text.at0 i < 0x80 → l.sourceOffset i < l.sourceOffset j) := by
  unfold sourceOffset
  cases hoffsets : l.input.offsets with
  | none => exact ⟨Nat.le_of_lt hij, fun _ => hij⟩
  | some table =>
    have htable : (Source.translate l.source).offsets = some table := by rw [← hl, hoffsets]
    obtain ⟨hsize, hrising⟩ := Source.translate_rising htable
    rw [← hl] at hsize hrising
    have hlength : table.toList.length = (l.input.text.toList ++ [0]).length := by
      simpa [Text.size_eq] using hsize
    have hbounds : i < table.toList.length ∧ j < table.toList.length := by
      rw [Array.length_toList]
      omega
    have hpair := List.pairwise_iff_getElem.mp hrising i j
      (by rw [List.length_zip]; omega) (by rw [List.length_zip]; omega) hij
    have hi : i < (l.input.text.toList ++ [0]).length := hlength ▸ hbounds.1
    have hat : l.input.text.at0 i = (l.input.text.toList ++ [0])[i] := by
      have hi : i < l.input.text.toList.length := by
        rw [← Text.size_eq]
        omega
      rw [List.getElem_append_left hi]
      simp [Text.at0_eq, hi]
    have hget (k : Nat) (hk : k < table.toList.length) :
        table.getD (min k (table.size - 1)) 0 = table.toList[k] := by
      rw [Array.length_toList] at hk
      have hmin : min k (table.size - 1) = k := by omega
      simp [hmin, hk]
    dsimp only
    rw [hget i hbounds.1, hget j hbounds.2, hat]
    simpa [Source.Rises] using hpair

theorem sourceOffset_le (hl : l.input = Source.translate l.source) (hij : i ≤ j)
    (hj : j ≤ l.input.text.size) : l.sourceOffset i ≤ l.sourceOffset j := by
  rcases Nat.eq_or_lt_of_le hij with rfl | hlt
  · exact Nat.le_refl _
  · exact (sourceOffset_rises hl hlt hj).1

end Lexer

/-! ## Comments among the tokens -/

theorem Text.at0_slice (t : Text) (i j k : Nat) :
    (t.slice i j).at0 k = if i + k < j then t.at0 (i + k) else 0 := by
  rw [Text.at0_eq, Text.at0_eq, Text.toList_slice, List.getD_eq_getElem?_getD,
    List.getD_eq_getElem?_getD, List.getElem?_take, List.getElem?_drop]
  by_cases h : i + k < j
  · rw [if_pos h, if_pos (by omega)]
  · rw [if_neg h, if_neg (by omega)]
    rfl

namespace Token

variable {t : Text} {level : Level} {i : Nat}

/-- Where a comment comes from. -/
theorem scan_comment
    (h : (scan t level i).kind = .lineComment ∨ (scan t level i).kind = .blockComment) :
    t.at0 i = 47 ∧ i < t.size ∧ (scan t level i = scanLineComment t i ∨
      t.at0 (i + 1) = 42 ∧ scan t level i = scanBlockComment t i) := by
  have hno {ks : List Kind} {s : Scanned} (hmem : s.kind ∈ ks) (hks : .lineComment ∉ ks)
      (hks' : .blockComment ∉ ks) (hs : s.kind = .lineComment ∨ s.kind = .blockComment) :
      False := by
    rcases hs with hs | hs
    · exact hks (hs ▸ hmem)
    · exact hks' (hs ▸ hmem)
  unfold scan at h ⊢
  dsimp only at h ⊢
  by_cases hend : i ≥ t.size
  · rw [if_pos hend] at h
    exact (hno (List.mem_singleton_self Kind.eof) (by decide) (by decide) h).elim
  rw [if_neg hend] at h ⊢
  by_cases hline : (t.at0 i == '/' && t.at0 (i + 1) == '/') = true
  · rw [if_pos hline]
    exact ⟨beq_iff_eq.mp (Bool.and_eq_true_iff.mp hline).1, Nat.lt_of_not_le hend, .inl rfl⟩
  rw [if_neg hline] at h ⊢
  by_cases hblock : (t.at0 i == '/' && t.at0 (i + 1) == '*') = true
  · rw [if_pos hblock]
    obtain ⟨hslash, hstar⟩ := Bool.and_eq_true_iff.mp hblock
    exact ⟨beq_iff_eq.mp hslash, Nat.lt_of_not_le hend, .inr ⟨beq_iff_eq.mp hstar, rfl⟩⟩
  rw [if_neg hblock] at h
  exfalso
  split at h
  · exact hno (List.mem_singleton_self Kind.whitespace) (by decide) (by decide) h
  split at h
  · exact hno scanWord_mem (by decide) (by decide) h
  split at h
  · rcases scanNumber_kind (t := t) (i := i) with hnumber | hnumber <;> simp [hnumber] at h
  split at h
  · simp [scanChar_kind] at h
  split at h
  · split at h
    · exact hno (List.mem_singleton_self Kind.textBlock) (by decide) (by decide) h
    · simp [scanString_kind] at h
  · exact hno scanOperator_mem (by decide) (by decide) h

/-- Whether a comment is a doc comment can be told from its own text. -/
theorem isDocStart_slice (h : (scan t level i).kind = .blockComment) :
    isDocStart (t.slice i (scan t level i).stop) 0 = isDocStart t i := by
  have hat : ∀ k < 4, (t.slice i (scan t level i).stop).at0 k = t.at0 (i + k) := by
    intro k hk
    rw [Text.at0_slice]
    split
    next => rfl
    next hbeyond =>
      obtain ⟨-, -, hline | ⟨-, hblock⟩⟩ := scan_comment (.inr h)
      · rw [hline] at h
        cases h
      · rw [hblock, scanBlockComment] at hbeyond
        split at hbeyond
        next j hfound =>
          have hbounds := Text.findTextFrom_bounds hfound
          exact absurd (show i + k < j + 2 by omega) hbeyond
        next =>
          have hend : ¬ i + k < t.bytes.size := hbeyond
          rw [Text.at0, dif_neg hend]
  rw [isDocStart, isDocStart, Nat.zero_add, Nat.zero_add, hat 2 (by decide), hat 3 (by decide)]

/-- The table entry of a comment token, by the token alone. -/
def comment? (t : Token) : Option Comment.Entry :=
  let entry (k : Comment.Kind) : Comment.Entry :=
    ⟨k, t.span.start.offset, t.span.stop.offset, t.literal⟩
  if t.kind = .lineComment then some (entry .line)
  else if t.kind = .blockComment then
    some (entry (if isDocStart t.literal 0 then .doc else .block))
  else none

/-- An entry is that of a comment and has its place. -/
theorem of_comment? {t : Token} {e : Comment.Entry} (h : t.comment? = some e) :
    (t.kind = .lineComment ∨ t.kind = .blockComment) ∧
      e.start = t.span.start.offset ∧ e.stop = t.span.stop.offset := by
  unfold comment? at h
  dsimp only at h
  by_cases hline : t.kind = .lineComment
  · rw [if_pos hline] at h
    cases h
    exact ⟨.inl hline, rfl, rfl⟩
  · rw [if_neg hline, Option.ite_none_right_eq_some] at h
    obtain ⟨hblock, h⟩ := h
    cases h
    exact ⟨.inr hblock, rfl, rfl⟩

end Token

namespace Comment.Entry

/-- The kind, the start and the end that the two signed numbers of an entry stand for. -/
def ofSigned (start stop : Int) : Kind × Int × Int :=
  (if stop < 0 then .doc else if start < 0 then .line else .block,
    if start < 0 then -start - 1 else start, if stop < 0 then -stop else stop)

theorem ofSigned_signed {e : Entry} (h : 0 < e.stop) :
    ofSigned e.signedStart e.signedStop = (e.kind, (e.start : Int), (e.stop : Int)) := by
  obtain ⟨kind, start, stop, text⟩ := e
  change 0 < stop at h
  cases kind
  · have hstart : -((start : Int) + 1) < 0 := by omega
    have hstop : ¬ (stop : Int) < 0 := by omega
    simp only [ofSigned, signedStart, signedStop, BEq.rfl, if_true, reduceCtorEq, beq_iff_eq,
      if_false, if_pos hstart, if_neg hstop]
    simp
  all_goals
    have hstart : ¬ (start : Int) < 0 := by omega
    simp [ofSigned, signedStart, signedStop, hstart, h]

end Comment.Entry

namespace Lexer

variable {l : Lexer}

theorem offset_next (l : Lexer) : l.next.2.cursor.offset =
    (Token.scan l.input.text l.level l.cursor.offset).stop := by
  have hle : l.cursor.offset ≤ (Token.scan l.input.text l.level l.cursor.offset).stop := by
    by_cases hin : l.cursor.offset < l.input.text.size
    · exact Nat.le_of_lt (Token.scan_fits _ _ hin).after
    · rw [Token.scan_end _ _ (Nat.le_of_not_lt hin)]
  show (Position.advance _ _ _).offset = _
  rw [Position.offset_advance]
  omega

theorem start_next (l : Lexer) :
    l.next.1.span.start.offset = l.sourceOffset l.cursor.offset :=
  offset_sourcePosition _ _

theorem stop_next (l : Lexer) :
    l.next.1.span.stop.offset = l.sourceOffset l.next.2.cursor.offset :=
  offset_sourcePosition _ _

/-- A comment token gets an entry in the table, and no other does. -/
theorem comments_next (l : Lexer) :
    l.next.2.comments.toList = l.comments.toList ++ l.next.1.comment?.toList := by
  have hentry : l.commentEntry? (Token.scan l.input.text l.level l.cursor.offset).kind
      l.cursor.offset (Token.scan l.input.text l.level l.cursor.offset).stop l.next.1.literal =
      l.next.1.comment? := by
    unfold commentEntry? Token.comment?
    rw [← offset_next, start_next, stop_next]
    have hkind : l.next.1.kind = (Token.scan l.input.text l.level l.cursor.offset).kind := rfl
    rw [hkind]
    dsimp only
    split
    next hline => rw [if_pos hline]
    next hblock =>
      have hdoc : Token.isDocStart l.next.1.literal 0 =
          Token.isDocStart l.input.text l.cursor.offset := Token.isDocStart_slice hblock
      have hline : (Token.scan l.input.text l.level l.cursor.offset).kind ≠ .lineComment := by
        rw [hblock]
        decide
      rw [if_neg hline, if_pos hblock, hdoc]
    next hline hblock => rw [if_neg hline, if_neg hblock]
  have hcomments : l.next.2.comments = l.next.1.comment?.elim l.comments l.comments.push := by
    rw [← hentry, next]
    dsimp only
    split
    next e hsome => rw [hsome]; rfl
    next hnone => rw [hnone]; rfl
  rw [hcomments]
  cases l.next.1.comment? with
  | none => simp
  | some e => simp

/-! ## What taking tokens and comments keeps -/

/-- The entries of the table stand in the order of the source, one behind the other, before the
cursor, and at most all of them were taken. -/
structure Kept (l : Lexer) : Prop where
  input : l.input = Source.translate l.source
  inside : l.Inside
  taken : l.taken ≤ l.comments.size
  proper : ∀ e ∈ l.comments.toList, e.start < e.stop
  ordered : l.comments.toList.Pairwise fun a b => a.stop ≤ b.start
  behind : ∀ e ∈ l.comments.toList, e.stop ≤ l.sourceOffset l.cursor.offset

theorem kept_new (source file : Text) (level : Level) : (new source file level).Kept where
  input := rfl
  inside := Nat.zero_le _
  taken := Nat.le_refl _
  proper := fun _ he => nomatch he
  ordered := .nil
  behind := fun _ he => nomatch he

theorem Inside.next (h : l.Inside) : l.next.2.Inside := by
  by_cases hin : l.cursor.offset < l.input.text.size
  · exact (next_before hin).2.2.1
  · have hend := (next_end (Nat.le_antisymm h (Nat.le_of_not_lt hin))).2.2
    show l.next.2.cursor.offset ≤ _
    rw [hend]
    exact h

theorem offset_le_next (l : Lexer) : l.cursor.offset ≤ l.next.2.cursor.offset := by
  show _ ≤ (Position.advance _ _ _).offset
  rw [Position.offset_advance]
  exact Nat.le_add_right _ _

theorem Kept.next (h : l.Kept) : l.next.2.Kept := by
  have hle : l.sourceOffset l.cursor.offset ≤ l.sourceOffset l.next.2.cursor.offset :=
    sourceOffset_le h.input (offset_le_next l) h.inside.next
  have hcomments := comments_next l
  have hnew : ∀ e ∈ l.next.1.comment?, e.start = l.sourceOffset l.cursor.offset ∧
      e.stop = l.sourceOffset l.next.2.cursor.offset ∧ e.start < e.stop := by
    intro e he
    obtain ⟨hkind, hstart, hstop⟩ := Token.of_comment? he
    obtain ⟨hslash, hin, -⟩ := Token.scan_comment hkind
    have hrise := (sourceOffset_rises h.input (next_before hin).2.1 h.inside.next).2
      (by rw [hslash]; decide)
    rw [hstart, hstop, start_next, stop_next]
    exact ⟨rfl, rfl, hrise⟩
  refine ⟨h.input, h.inside.next, ?_, ?_, ?_, ?_⟩
  · have hsize := congrArg List.length hcomments
    rw [List.length_append, Array.length_toList, Array.length_toList] at hsize
    have htaken := h.taken
    show l.taken ≤ _
    omega
  · intro e he
    rw [hcomments, List.mem_append, Option.mem_toList] at he
    rcases he with he | he
    · exact h.proper e he
    · exact (hnew e he).2.2
  · rw [hcomments, List.pairwise_append]
    refine ⟨h.ordered, ?_, ?_⟩
    · cases l.next.1.comment? with
      | none => exact .nil
      | some e => exact List.pairwise_singleton _ _
    · intro a ha b hb
      rw [(hnew b (Option.mem_toList.mp hb)).1]
      exact h.behind a ha
  · intro e he
    show e.stop ≤ l.sourceOffset _
    rw [hcomments, List.mem_append, Option.mem_toList] at he
    rcases he with he | he
    · exact Nat.le_trans (h.behind e he) hle
    · exact Nat.le_of_eq (hnew e he).2.1

/-- The ends of the entries rise. -/
theorem Kept.stops (h : l.Kept) : l.comments.toList.Pairwise fun a b => a.stop < b.stop := by
  refine h.ordered.imp_of_mem fun _ hb hle => ?_
  exact Nat.lt_of_le_of_lt hle (h.proper _ hb)

theorem readyComments_eq (l : Lexer) (offset : Int) (n : Nat) : ∀ i,
    l.readyComments offset i n =
      ((l.comments.toList.drop i).take n).takeWhile fun e => (e.stop : Int) ≤ offset := by
  induction n with
  | zero => exact fun i => rfl
  | succ n ih =>
    intro i
    unfold readyComments
    rw [← Array.getElem?_toList, ← List.head?_drop]
    cases hdrop : l.comments.toList.drop i with
    | nil => simp
    | cons e rest =>
      have hrest : l.comments.toList.drop (i + 1) = rest := by
        rw [← List.drop_drop, hdrop, List.drop_one, List.tail_cons]
      simp only [List.head?_cons, List.take_succ_cons, List.takeWhile_cons, ih, hrest,
        decide_eq_true_eq]

/-- The comments that are taken at an offset are the first that were not taken yet. -/
theorem takeComments_eq (l : Lexer) (offset : Int) :
    ∃ ready, (l.comments.toList.drop l.taken).takeWhile (fun e => (e.stop : Int) ≤ offset) =
        ready ∧
      l.takeComments offset =
        (ready.map l.comment, { l with taken := l.taken + ready.length }) := by
  refine ⟨_, rfl, ?_⟩
  have htake : (l.comments.toList.drop l.taken).take (l.comments.size - l.taken) =
      l.comments.toList.drop l.taken := by
    apply List.take_of_length_le
    rw [List.length_drop, Array.length_toList]
  unfold takeComments
  rw [readyComments_eq, htake]

theorem Kept.take (h : l.Kept) (offset : Int) : (l.takeComments offset).2.Kept := by
  obtain ⟨ready, hready, htake⟩ := takeComments_eq l offset
  rw [htake]
  refine ⟨h.input, h.inside, ?_, h.proper, h.ordered, h.behind⟩
  have hlength := (List.takeWhile_prefix (p := fun e => decide ((e.stop : Int) ≤ offset))
    (l := l.comments.toList.drop l.taken)).length_le
  have hsize : l.comments.toList.length = l.comments.size := Array.length_toList
  rw [hready, List.length_drop] at hlength
  have htaken := h.taken
  show l.taken + ready.length ≤ l.comments.size
  omega

/-- The comments taken at an offset stand in the table from the first not taken before to the last
taken. -/
theorem taken_comments (l : Lexer) (offset : Int) : (l.takeComments offset).1 =
    ((l.comments.toList.take (l.takeComments offset).2.taken).drop l.taken).map l.comment := by
  obtain ⟨ready, hready, htake⟩ := takeComments_eq l offset
  rw [htake]
  show ready.map l.comment = ((l.comments.toList.take (l.taken + ready.length)).drop _).map _
  rw [List.drop_take, Nat.add_sub_cancel_left]
  have hprefix : ready <+: l.comments.toList.drop l.taken :=
    hready ▸ List.takeWhile_prefix _
  rw [← List.prefix_iff_eq_take.mp hprefix]

/-- Where no element with a property stands behind one without it, those with the property are the
first. -/
theorem takeWhile_eq_filter {α : Type} {p : α → Bool} {xs : List α}
    (h : xs.Pairwise fun a b => p b = true → p a = true) :
    xs.takeWhile p = xs.filter p ∧ xs.dropWhile p = xs.filter fun a => !p a := by
  induction xs with
  | nil => exact ⟨rfl, rfl⟩
  | cons x xs ih =>
    obtain ⟨hx, hxs⟩ := List.pairwise_cons.mp h
    cases hp : p x with
    | true =>
      rw [List.takeWhile_cons_of_pos hp, List.dropWhile_cons_of_pos hp, List.filter_cons_of_pos hp,
        List.filter_cons_of_neg (by simp [hp]), (ih hxs).1, (ih hxs).2]
      exact ⟨rfl, rfl⟩
    | false =>
      have hnone : ∀ y ∈ x :: xs, p y = false := by
        refine List.forall_mem_cons.mpr ⟨hp, fun y hy => ?_⟩
        by_contra hyp
        rw [hx y hy ((Bool.not_eq_false _).mp hyp)] at hp
        cases hp
      rw [List.takeWhile_cons_of_neg (by simp [hp]), List.dropWhile_cons_of_neg (by simp [hp]),
        List.filter_eq_nil_iff.mpr (by simpa using hnone),
        List.filter_eq_self.mpr (by simpa using hnone)]
      exact ⟨rfl, rfl⟩

/-- The entries of the comments that are not taken yet. -/
def pending (l : Lexer) : List Comment.Entry := l.comments.toList.drop l.taken

/-- The pending entries up to an offset stand before the others. -/
theorem pending_split (h : l.Kept) (offset : Int) :
    l.pending.takeWhile (fun e => (e.stop : Int) ≤ offset) =
        l.pending.filter (fun e => (e.stop : Int) ≤ offset) ∧
      l.pending.dropWhile (fun e => (e.stop : Int) ≤ offset) =
        l.pending.filter fun e => !decide ((e.stop : Int) ≤ offset) := by
  apply takeWhile_eq_filter
  refine (h.stops.sublist (List.drop_sublist _ _)).imp fun hlt hb => ?_
  have hb := of_decide_eq_true hb
  exact decide_eq_true (by omega)

/-- Taking comments divides the pending ones by their ends. -/
theorem pending_take (h : l.Kept) (offset : Int) :
    (l.takeComments offset).1 =
        (l.pending.filter fun e => (e.stop : Int) ≤ offset).map l.comment ∧
      (l.takeComments offset).2.pending =
        l.pending.filter fun e => !decide ((e.stop : Int) ≤ offset) := by
  obtain ⟨ready, hready, htake⟩ := takeComments_eq l offset
  obtain ⟨hfirst, hrest⟩ := pending_split h offset
  rw [htake]
  constructor
  · rw [← hfirst]
    exact congrArg (List.map l.comment) hready.symm
  · have hsplit := List.takeWhile_append_dropWhile (p := fun e => decide ((e.stop : Int) ≤ offset))
      (l := l.pending)
    show l.comments.toList.drop (l.taken + ready.length) = _
    rw [← List.drop_drop, ← hrest]
    conv_lhs => rw [← pending, ← hsplit]
    exact List.drop_left' (congrArg List.length hready)

/-- No comment is left that ends at or before the offset. -/
theorem mem_taken (h : l.Kept) {offset : Int} {e : Comment.Entry} (he : e ∈ l.comments.toList)
    (hstop : (e.stop : Int) ≤ offset) :
    e ∈ l.comments.toList.take (l.takeComments offset).2.taken := by
  rw [← List.take_append_drop (l.takeComments offset).2.taken l.comments.toList,
    List.mem_append] at he
  refine he.resolve_right fun he => ?_
  have hpending : e ∈ (l.takeComments offset).2.pending := he
  rw [(pending_take h offset).2, List.mem_filter] at hpending
  simp [hstop] at hpending

/-! ## Requests in any order -/

/-- A request to a lexer: for the next token, or for the comments up to an offset. -/
inductive Request where
  | next
  | take (offset : Int)

/-- The tokens and the comments that a sequence of requests gives, and the lexer behind it. -/
def perform (l : Lexer) : List Request → List Token × List Comment × Lexer
  | [] => ([], [], l)
  | .next :: rs =>
    let (ts, cs, last) := perform l.next.2 rs
    (l.next.1 :: ts, cs, last)
  | .take offset :: rs =>
    let (ts, cs, last) := perform (l.takeComments offset).2 rs
    (ts, (l.takeComments offset).1 ++ cs, last)

/-- The outcome of a sequence of requests in terms of the tokens it gives: the table goes on by the
comments among them, and the comments given are those of the table from the first not taken before
to the last taken. -/
structure Performed (l : Lexer) (ts : List Token) (cs : List Comment) (last : Lexer) : Prop where
  kept : last.Kept
  source : last.source = l.source
  taken : l.taken ≤ last.taken
  table : last.comments.toList = l.comments.toList ++ ts.filterMap Token.comment?
  given : cs = ((last.comments.toList.take last.taken).drop l.taken).map l.comment

theorem perform_performed (rs : List Request) : ∀ l : Lexer, l.Kept →
    l.Performed (l.perform rs).1 (l.perform rs).2.1 (l.perform rs).2.2 := by
  induction rs with
  | nil =>
    intro l h
    refine ⟨h, rfl, Nat.le_refl _, by simp [perform], ?_⟩
    show [] = ((l.comments.toList.take l.taken).drop l.taken).map l.comment
    rw [List.drop_take, Nat.sub_self, List.take_zero, List.map_nil]
  | cons r rs ih =>
    intro l h
    cases r with
    | next =>
      have hrest := ih l.next.2 h.next
      refine ⟨hrest.kept, hrest.source, hrest.taken, ?_, hrest.given⟩
      rw [perform]
      show (l.next.2.perform rs).2.2.comments.toList = _
      rw [hrest.table, comments_next, List.append_assoc]
      congr 1
      show _ = (l.next.1 :: _).filterMap _
      cases hentry : l.next.1.comment? with
      | none => rw [List.filterMap_cons_none hentry]; rfl
      | some e => rw [List.filterMap_cons_some hentry]; rfl
    | take offset =>
      have hrest := ih _ (h.take offset)
      have hsame : (l.takeComments offset).2.comments = l.comments ∧
          l.taken ≤ (l.takeComments offset).2.taken ∧
          (l.takeComments offset).2.source = l.source :=
        ⟨rfl, Nat.le_add_right _ _, rfl⟩
      refine ⟨hrest.kept, hrest.source, Nat.le_trans hsame.2.1 hrest.taken, hrest.table, ?_⟩
      show (l.takeComments offset).1 ++ ((l.takeComments offset).2.perform rs).2.1 = _
      have htable : l.comments.toList.take (l.takeComments offset).2.taken =
          (((l.takeComments offset).2.perform rs).2.2.comments.toList.take
            ((l.takeComments offset).2.perform rs).2.2.taken).take
              (l.takeComments offset).2.taken := by
        have hbound := (h.take offset).taken
        rw [List.take_take, Nat.min_eq_left hrest.taken, hrest.table, hsame.1,
          List.take_append_of_le_length (by rw [Array.length_toList]; exact hbound)]
      rw [taken_comments, hrest.given, htable]
      show List.map l.comment _ ++ List.map l.comment _ = _
      rw [← List.map_append, List.drop_take, ← Nat.add_sub_cancel' hsame.2.1,
        Nat.add_sub_cancel_left, List.drop_take_append_drop]
      rfl

/-- Which comments were taken makes no difference to the tokens. -/
theorem Yields.ofTaken {ts : List Token} (h : l.Yields ts) (n : Nat) :
    { l with taken := n }.Yields ts := by
  induction h with
  | done hk => exact .done hk
  | more hk _ ih => exact .more hk ih

/-- Behind the end token there is only the end token. -/
theorem kind_next_end (h : l.Inside) (hk : l.next.1.kind = .eof) : l.next.2.next.1.kind = .eof := by
  have hend := eq_size_of_next h hk
  apply (next_end _).1
  rw [(next_end hend).2.2]
  exact hend

/-- The comments among the tokens that a sequence of requests gives are the first of those that are
left. -/
theorem perform_prefix (rs : List Request) : ∀ (l : Lexer) (ts : List Token), l.Inside →
    l.Yields ts → (l.perform rs).1.filterMap Token.comment? <+:
      ts.filterMap Token.comment? := by
  induction rs with
  | nil => exact fun l ts _ _ => List.nil_prefix
  | cons r rs ih =>
    intro l ts hin h
    cases r with
    | next =>
      show (l.next.1 :: (l.next.2.perform rs).1).filterMap _ <+: _
      have hend {l : Lexer} (hk : l.next.1.kind = .eof) : l.next.1.comment? = none := by
        rw [Token.comment?, hk]
        rfl
      cases h with
      | done hk =>
        have hk' := kind_next_end hin hk
        have hrest := ih _ _ hin.next (.done hk')
        rw [List.filterMap_cons_none (hend hk')] at hrest
        rw [List.filterMap_cons_none (hend hk), List.filterMap_cons_none (hend hk)]
        exact hrest
      | more _ h =>
        have hrest := ih _ _ hin.next h
        cases hentry : l.next.1.comment? with
        | none =>
          rw [List.filterMap_cons_none hentry, List.filterMap_cons_none hentry]
          exact hrest
        | some e =>
          rw [List.filterMap_cons_some hentry, List.filterMap_cons_some hentry]
          exact List.cons_prefix_cons.mpr ⟨rfl, hrest⟩
    | take offset => exact ih _ _ hin (h.ofTaken _)

/-- Whatever is asked of a lexer, in any order: the signed numbers in its table tell the kind, the
start and the end of every comment among the tokens taken so far, in the order of the source. The
comments handed out are the first of these, each behind the one before it, and none of them is left
that ends at or before an offset up to which they are asked for. -/
theorem comments_handed_out (source file : Text) (level : Level) (rs : List Request) :
    let l := new source file level
    let last := (l.perform rs).2.2
    let given := (l.perform rs).2.1
    let met := (l.perform rs).1.filterMap Token.comment?
    last.comments.toList.map (fun e => Comment.Entry.ofSigned e.signedStart e.signedStop) =
        met.map (fun e => (e.kind, (e.start : Int), (e.stop : Int))) ∧
      last.allComments = met.map l.comment ∧
      met <+: l.run.1.toList.filterMap Token.comment? ∧
      given <+: last.allComments ∧
      last.allComments.Pairwise (fun a b =>
        a.span.start.offset < a.span.stop.offset ∧ a.span.stop.offset ≤ b.span.start.offset) ∧
      last.allComments.Nodup ∧
      ∀ offset, given ++ (last.takeComments offset).1 <+: last.allComments ∧
        ∀ c ∈ last.allComments, (c.span.stop.offset : Int) ≤ offset →
          c ∈ given ++ (last.takeComments offset).1 := by
  intro l last given met
  have hrun : l.Performed (l.perform rs).1 given last := perform_performed rs l (kept_new _ _ _)
  have hkept := hrun.kept
  have htable : last.comments.toList = met := hrun.table.trans (List.nil_append _)
  have hcomment : last.comment = l.comment := by
    funext e
    rw [comment, comment, hrun.source]
  have hall : last.allComments = met.map l.comment := by rw [allComments, htable, hcomment]
  have hgiven : given = (met.take last.taken).map l.comment := by
    rw [hrun.given, htable]
    rfl
  have hordered : last.allComments.Pairwise fun a b =>
      a.span.start.offset < a.span.stop.offset ∧ a.span.stop.offset ≤ b.span.start.offset := by
    rw [allComments, List.pairwise_map]
    exact hkept.ordered.imp_of_mem fun ha _ hle => ⟨hkept.proper _ ha, hle⟩
  have hmore (offset : Int) : given ++ (last.takeComments offset).1 =
      (met.take (last.takeComments offset).2.taken).map l.comment := by
    have hle : last.taken ≤ (last.takeComments offset).2.taken := Nat.le_add_right _ _
    rw [hgiven, taken_comments, htable, hcomment, ← List.map_append, List.drop_take]
    congr 1
    rw [← List.take_add, Nat.add_sub_cancel' hle]
  refine ⟨?_, hall, perform_prefix rs l _ (Nat.zero_le _) (run_yields (Nat.zero_le _)), ?_,
    hordered, ?_, ?_⟩
  · rw [htable]
    refine List.map_congr_left fun e he => Comment.Entry.ofSigned_signed ?_
    exact Nat.lt_of_le_of_lt (Nat.zero_le _) (hkept.proper e (htable ▸ he))
  · rw [hall, hgiven]
    exact (List.take_prefix _ _).map _
  · refine hordered.imp ?_
    rintro a _ ⟨hlt, hle⟩ rfl
    omega
  · intro offset
    rw [hmore, hall]
    refine ⟨(List.take_prefix _ _).map _, ?_⟩
    intro c hc hstop
    obtain ⟨e, he, rfl⟩ := List.mem_map.mp hc
    have hmem := mem_taken hkept (htable.symm ▸ he) hstop
    rw [htable] at hmem
    exact List.mem_map_of_mem hmem

end Lexer

end Javelin
