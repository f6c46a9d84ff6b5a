import Mathlib.Data.List.DropRight
import Javelin.Proofs.Text.Classes
import Javelin.Proofs.Token.CommentTable

/-!
# Lines and columns

`Position.counted` is the position of an offset by the newlines before it and the bytes since the
last of them. Moving over the bytes, scanning from the start and searching the table of line starts
all give this position, and so a lexer gives it to every token of a source, with or without escapes
(`Lexer.span_counted`).

1. Moving and scanning.
2. The table of line starts.
3. The positions of tokens.
-/

namespace Javelin

/-- The bytes of a line before an offset. -/
def Text.lineUpTo (t : Text) (o : Nat) : List UInt8 := (t.toList.take o).rtakeWhile (· != '\n')

/-- How many newlines stand before an offset. -/
def Text.newlinesUpTo (t : Text) (o : Nat) : Nat := (t.toList.take o).count ('\n' : UInt8)

namespace Text

variable {t : Text} {o m : Nat}

theorem take_succ (h : o < t.size) : t.toList.take (o + 1) = t.toList.take o ++ [t.at0 o] := by
  have hlt : o < t.toList.length := h
  rw [List.take_succ_eq_append_getElem hlt, at0_of_drop (List.drop_eq_getElem_cons hlt)]

theorem newlinesUpTo_succ (h : o < t.size) :
    t.newlinesUpTo (o + 1) = t.newlinesUpTo o + if t.at0 o = '\n' then 1 else 0 := by
  simp only [newlinesUpTo, take_succ h, List.count_append, List.count_singleton, beq_iff_eq]

theorem lineUpTo_succ (h : o < t.size) :
    t.lineUpTo (o + 1) = if t.at0 o = '\n' then [] else t.lineUpTo o ++ [t.at0 o] := by
  rw [lineUpTo, take_succ h]
  split
  next hb => exact List.rtakeWhile_concat_neg _ _ _ (by simp [hb])
  next hb => exact List.rtakeWhile_concat_pos _ _ _ (by simpa using hb)

end Text

/-! ## Moving and scanning -/

namespace Position

/-- The position of an offset by the newlines before it and the bytes since the last of them. -/
def counted (t : Text) (o : Nat) : Position :=
  ⟨o, t.newlinesUpTo o + 1, (t.lineUpTo o).length + 1⟩

variable {t : Text} {o : Nat}

theorem after_counted (h : o < t.size) : (counted t o).after (t.at0 o) = counted t (o + 1) := by
  unfold after counted
  rw [Text.newlinesUpTo_succ h, Text.lineUpTo_succ h]
  by_cases hb : t.at0 o = '\n'
  · rw [if_pos (by rw [hb]; rfl), if_pos hb, if_pos hb]
    rfl
  · rw [if_neg (by simpa using hb), if_neg hb, if_neg hb, List.length_append]
    rfl

theorem advance_counted (n : Nat) : ∀ {o : Nat}, o + n ≤ t.size →
    advance t (counted t o) n = counted t (o + n) := by
  induction n with
  | zero => exact fun _ => rfl
  | succ n ih =>
    intro o h
    have hstep : (counted t o).after (t.at0 (counted t o).offset) = counted t (o + 1) :=
      after_counted (by omega)
    rw [advance, hstep, ih (by omega), Nat.add_assoc, Nat.add_comm 1 n]

theorem first_eq (t : Text) : first = counted t 0 := by
  simp [first, counted, Text.newlinesUpTo, Text.lineUpTo]

/-- A scan from the start counts; offsets past the end are on the last line. -/
theorem scan_eq (t : Text) (o : Nat) : scan t o = counted t o := by
  have htake : t.toList.take (min o t.size) = t.toList.take o := by
    rw [Text.size_eq, ← List.take_take, List.take_length]
  rw [scan, first_eq t, advance_counted _ (by omega), Nat.zero_add]
  unfold counted Text.newlinesUpTo Text.lineUpTo
  rw [htake]

end Position

/-! ## The table of line starts -/

namespace LineIndex

/-- The starts of the lines that begin among the first `m` bytes. -/
def startsUpTo (t : Text) (m : Nat) : Array Nat :=
  (List.range m).foldl (fun acc i => if t.at0 i == '\n' then acc.push (i + 1) else acc) #[0]

/-- The table knows, for each of the first offsets, how many lines begin up to there and where the
last of them does. -/
structure Indexes (t : Text) (m : Nat) (starts : Array Nat) : Prop where
  size : starts.size = t.newlinesUpTo m + 1
  splits : ∀ o ≤ m, Text.SplitsAt starts o (t.newlinesUpTo o + 1)
  last : ∀ o ≤ m, starts.getD (t.newlinesUpTo o) 0 + (t.lineUpTo o).length = o

variable {t : Text} {o m : Nat} {starts : Array Nat}

theorem getD_push {i v : Nat} (h : i < starts.size) :
    (starts.push v).getD i 0 = starts.getD i 0 := by
  rw [Array.getD_eq_getD_getElem?, Array.getElem?_push_lt h, Array.getD_eq_getD_getElem?,
    Array.getElem?_eq_getElem h]

theorem getD_push_size (starts : Array Nat) (v : Nat) :
    (starts.push v).getD starts.size 0 = v := by
  rw [Array.getD_eq_getD_getElem?, Array.getElem?_push_size]
  rfl

/-- A line that begins behind an offset does not count for it. -/
theorem splitsAt_push {r v : Nat} (h : Text.SplitsAt starts o r) (hv : o < v) :
    Text.SplitsAt (starts.push v) o r where
  le_size := by
    have := h.le_size
    rw [Array.size_push]
    omega
  low k hk := by
    have := h.le_size
    rw [getD_push (by omega)]
    exact h.low k hk
  high k hk hlt := by
    rw [Array.size_push] at hlt
    rcases Nat.lt_succ_iff_lt_or_eq.mp hlt with hlt | rfl
    · rw [getD_push hlt]
      exact h.high k hk hlt
    · rw [getD_push_size]
      exact hv

theorem Indexes.next (h : Indexes t m starts) (hm : m < t.size) :
    Indexes t (m + 1) (if t.at0 m == '\n' then starts.push (m + 1) else starts) := by
  have hsize := h.size
  have hlow := (h.splits m (Nat.le_refl m)).low
  have hcount := Text.newlinesUpTo_succ hm
  have hline := Text.lineUpTo_succ hm
  by_cases hb : t.at0 m = '\n'
  · rw [if_pos hb] at hcount hline
    rw [if_pos (by rw [hb]; rfl)]
    refine ⟨by rw [Array.size_push, hsize, hcount], fun o ho => ?_, fun o ho => ?_⟩
    · rcases Nat.le_succ_iff.mp ho with ho | rfl
      · exact splitsAt_push (h.splits o ho) (by omega)
      · rw [hcount]
        refine ⟨by rw [Array.size_push, hsize], fun k hk => ?_, fun k hk hlt => ?_⟩
        · rcases Nat.lt_succ_iff_lt_or_eq.mp hk with hk | rfl
          · rw [getD_push (by omega)]
            exact Nat.le_succ_of_le (hlow k hk)
          · rw [← hsize, getD_push_size]
        · rw [Array.size_push] at hlt
          omega
    · rcases Nat.le_succ_iff.mp ho with ho | rfl
      · have hle := (h.splits o ho).le_size
        rw [getD_push (by omega)]
        exact h.last o ho
      · rw [hcount, ← hsize, getD_push_size, hline]
        rfl
  · rw [if_neg hb] at hcount hline
    rw [Nat.add_zero (t.newlinesUpTo m)] at hcount
    rw [if_neg (by simpa using hb)]
    refine ⟨by rw [hsize, hcount], fun o ho => ?_, fun o ho => ?_⟩
    · rcases Nat.le_succ_iff.mp ho with ho | rfl
      · exact h.splits o ho
      · rw [hcount]
        exact ⟨by omega, fun k hk => Nat.le_succ_of_le (hlow k hk), fun k hk hlt => by omega⟩
    · rcases Nat.le_succ_iff.mp ho with ho | rfl
      · exact h.last o ho
      · have := h.last m (Nat.le_refl m)
        rw [hcount, hline, List.length_append, List.length_singleton]
        omega

theorem startsUpTo_indexes : ∀ {m : Nat}, m ≤ t.size → Indexes t m (startsUpTo t m) := by
  intro m
  induction m with
  | zero =>
    intro _
    have hnone : t.newlinesUpTo 0 = 0 := rfl
    refine ⟨rfl, fun o ho => ?_, fun o ho => ?_⟩
    · obtain rfl := Nat.le_zero.mp ho
      rw [hnone]
      refine ⟨Nat.le_refl 1, fun k hk => ?_, fun k hk hlt => ?_⟩
      · obtain rfl := Nat.lt_one_iff.mp hk
        exact Nat.le_refl 0
      · exact absurd hlt (Nat.not_lt.mpr hk)
    · obtain rfl := Nat.le_zero.mp ho
      rfl
  | succ m ih =>
    intro hm
    have hnext := (ih (Nat.le_of_succ_le hm)).next hm
    unfold startsUpTo at hnext ⊢
    rw [List.range_succ, List.foldl_append]
    exact hnext

theorem Indexes.sorted (h : Indexes t m starts) (j k : Nat) (hjk : j ≤ k) (hk : k < starts.size) :
    starts.getD j 0 ≤ starts.getD k 0 := by
  have hle : starts.getD k 0 ≤ m := (h.splits m (Nat.le_refl m)).low k (h.size ▸ hk)
  have hsplit := h.splits _ hle
  -- otherwise the entry would be greater than itself
  have hlt : k < t.newlinesUpTo (starts.getD k 0) + 1 := by
    by_contra hge
    exact Nat.lt_irrefl _ (hsplit.high k (Nat.not_lt.mp hge) hk)
  exact hsplit.low j (Nat.lt_of_le_of_lt hjk hlt)

end LineIndex

theorem Text.SplitsAt.unique {table : Array Nat} {c r s : Nat} (hr : SplitsAt table c r)
    (hs : SplitsAt table c s) : r = s := by
  have hrs := hr.le_size
  have hss := hs.le_size
  rcases Nat.lt_trichotomy r s with hlt | heq | hlt
  · exact absurd (hs.low r hlt) (Nat.not_le.mpr (hr.high r (Nat.le_refl r) (by omega)))
  · exact heq
  · exact absurd (hr.low s hlt) (Nat.not_le.mpr (hs.high s (Nat.le_refl s) (by omega)))

namespace LineIndex

variable {t : Text} {o : Nat}

theorem ofText_indexes (t : Text) : Indexes t t.size (ofText t).starts :=
  startsUpTo_indexes (Nat.le_refl _)

/-- The search finds the line by the newlines before it. -/
theorem line_eq (h : o ≤ t.size) : (ofText t).line o = t.newlinesUpTo o + 1 := by
  have hindex := ofText_indexes t
  refine Text.SplitsAt.unique ?_ (hindex.splits o h)
  exact Text.boundariesUpTo_spec hindex.sorted _ 0 _ (Nat.zero_le _) (Nat.le_refl _)
    Nat.lt_two_pow_self (fun k hk => absurd hk (Nat.not_lt_zero k))
    fun k hk hlt => absurd hlt (Nat.not_lt.mpr hk)

theorem start_eq (h : o ≤ t.size) :
    (ofText t).start ((ofText t).line o) + (t.lineUpTo o).length = o := by
  rw [line_eq h]
  exact (ofText_indexes t).last o h

/-- The search gives the position that counting gives. -/
theorem position_eq (h : o ≤ t.size) : (ofText t).position o = .counted t o := by
  have hstart := start_eq h
  unfold position Position.counted
  rw [← line_eq h]
  dsimp only
  congr 1
  omega

end LineIndex

/-! ## The positions of tokens -/

namespace Lexer

variable {l : Lexer} {ts : List Token}

/-- The lexer stands in its source at a place that was counted. -/
structure Counts (l : Lexer) : Prop where
  inside : l.Inside
  input : l.input = Source.translate l.source
  lines : l.input.offsets.isSome → l.lines = .ofText l.source
  cursor : l.cursor = .counted l.input.text l.cursor.offset

theorem counts_new (source file : Text) (level : Level) : (new source file level).Counts where
  inside := Nat.zero_le _
  input := rfl
  lines h := if_pos h
  cursor := Position.first_eq _

theorem sourceOffset_le_size (hl : l.input = Source.translate l.source) {i : Nat}
    (hi : i ≤ l.input.text.size) : l.sourceOffset i ≤ l.source.size := by
  have hend : l.sourceOffset l.input.text.size = l.source.size := by
    have hsize := sourceOffset_size l.source l.file l.level
    unfold sourceOffset at hsize ⊢
    rw [hl]
    exact hsize
  exact hend ▸ sourceOffset_le hl hi (Nat.le_refl _)

/-- A place of the cursor is counted in the source as written. -/
theorem sourcePosition_eq (h : l.Counts) {o : Nat} (ho : o ≤ l.input.text.size) :
    l.sourcePosition (.counted l.input.text o) = .counted l.source (l.sourceOffset o) := by
  have hle := sourceOffset_le_size h.input ho
  have hinput := h.input
  unfold sourcePosition
  cases hoffsets : l.input.offsets with
  | none =>
    have htext : l.input.text = l.source := by
      obtain ⟨-, htext⟩ | ⟨offsets, hsome, -⟩ := Source.translate_origins l.source
      · rw [hinput, htext]
      · rw [hinput, hsome] at hoffsets
        cases hoffsets
    unfold sourceOffset
    rw [hoffsets, htext]
  | some table =>
    have hlines := h.lines (by rw [hoffsets]; rfl)
    rw [hlines]
    exact LineIndex.position_eq hle

theorem Counts.next (h : l.Counts) : l.next.2.Counts ∧
    l.next.2.cursor = .counted l.input.text l.next.2.cursor.offset := by
  have hinside : l.next.2.Inside ∧ l.cursor.offset ≤ l.next.2.cursor.offset := by
    rcases Nat.eq_or_lt_of_le h.inside with heq | hlt
    · have hcursor := (next_end heq).2.2
      exact ⟨by unfold Inside; rw [hcursor]; exact h.inside, by rw [hcursor]⟩
    · obtain ⟨-, hafter, hinside, -⟩ := next_before hlt
      exact ⟨hinside, Nat.le_of_lt hafter⟩
  obtain ⟨hinside, hle⟩ := hinside
  have hcursor : l.next.2.cursor = .counted l.input.text l.next.2.cursor.offset := by
    have hadvance : l.next.2.cursor = Position.advance l.input.text l.cursor
        (l.next.2.cursor.offset - l.cursor.offset) := by
      show Position.advance _ _ _ = Position.advance _ _ ((Position.advance _ _ _).offset - _)
      rw [Position.offset_advance, Nat.add_sub_cancel_left]
    rw [h.cursor] at hadvance
    have hfits : l.cursor.offset + (l.next.2.cursor.offset - l.cursor.offset) ≤
        l.input.text.size := by
      have : l.next.2.cursor.offset ≤ l.input.text.size := hinside
      omega
    have hcounted := Position.advance_counted _ hfits
    rw [show l.cursor.offset + (l.next.2.cursor.offset - l.cursor.offset) =
      l.next.2.cursor.offset by omega] at hcounted
    exact hadvance.trans hcounted
  exact ⟨⟨hinside, h.input, h.lines, hcursor⟩, hcursor⟩

/-- A place of the source, counted. -/
def CountedAt (source : Text) (p : Position) : Prop :=
  p.offset ≤ source.size ∧ p = .counted source p.offset

theorem Counts.position (h : l.Counts) : CountedAt l.source l.position := by
  have heq := sourcePosition_eq h h.inside
  rw [← h.cursor] at heq
  unfold Lexer.position
  rw [heq]
  exact ⟨sourceOffset_le_size h.input h.inside, rfl⟩

theorem Yields.counted (h : l.Yields ts) (hl : l.Counts) :
    ∀ t ∈ ts, CountedAt l.source t.span.start ∧ CountedAt l.source t.span.stop := by
  induction h with
  | @done l hk =>
    intro t ht
    obtain rfl := List.mem_singleton.mp ht
    exact ⟨hl.position, hl.next.1.position⟩
  | @more l ts hk _ ih =>
    intro t ht
    obtain rfl | ht := List.mem_cons.mp ht
    · exact ⟨hl.position, hl.next.1.position⟩
    · exact ih hl.next.1 t ht

/-- Every token of a source starts and stops at a position that is counted in the source as
written. -/
theorem span_counted {source file : Text} {level : Level} {t : Token}
    (h : t ∈ (new source file level).run.1) :
    CountedAt source t.span.start ∧ CountedAt source t.span.stop :=
  (run_yields (counts_new source file level).inside).counted (counts_new source file level) t
    (Array.mem_toList_iff.mpr h)

end Lexer

/-! ## The positions of comments, and all ways to a position -/

/-- All ways to compute a position agree on a place of the source. -/
structure Position.Settled (source : Text) (p : Position) : Prop where
  inside : p.offset ≤ source.size
  counted : p = .counted source p.offset
  moved : p = .advance source .first p.offset
  scanned : p = .scan source p.offset
  searched : p = (LineIndex.ofText source).position p.offset

namespace Lexer

variable {l : Lexer} {ts : List Token}

theorem CountedAt.settled {source : Text} {p : Position} (h : CountedAt source p) :
    p.Settled source where
  inside := h.1
  counted := h.2
  moved := by
    rw [Position.first_eq source, Position.advance_counted _ (by rw [Nat.zero_add]; exact h.1),
      Nat.zero_add]
    exact h.2
  scanned := by
    rw [Position.scan_eq]
    exact h.2
  searched := by
    rw [LineIndex.position_eq h.1]
    exact h.2

/-- Whatever is asked of a lexer, its tokens lie at places that are counted. -/
theorem Counts.perform (rs : List Request) : ∀ {l : Lexer}, l.Counts →
    (l.perform rs).2.2.Counts ∧
      ∀ t ∈ (l.perform rs).1, CountedAt l.source t.span.start ∧ CountedAt l.source t.span.stop := by
  induction rs with
  | nil => exact fun h => ⟨h, fun _ ht => (List.not_mem_nil ht).elim⟩
  | cons r rs ih =>
    intro l h
    cases r with
    | next =>
      obtain ⟨hlast, htokens⟩ := ih h.next.1
      refine ⟨hlast, fun t ht => ?_⟩
      rcases List.mem_cons.mp ht with rfl | ht
      · exact ⟨h.position, h.next.1.position⟩
      · exact htokens t ht
    | take offset =>
      have htaken : (l.takeComments offset).2.Counts := ⟨h.inside, h.input, h.lines, h.cursor⟩
      exact ih htaken

/-- A comment is found at the place of its token. -/
theorem span_comment {t : Token} {e : Comment.Entry} (h : t.comment? = some e)
    (hstart : CountedAt l.source t.span.start) (hstop : CountedAt l.source t.span.stop) :
    (l.comment e).span = t.span := by
  obtain ⟨-, hs, ht⟩ := Token.of_comment? h
  show Span.mk (.scan l.source e.start) (.scan l.source e.stop) = t.span
  rw [hs, ht, ← hstart.settled.scanned, ← hstop.settled.scanned]

theorem spans_comments
    (h : ∀ t ∈ ts, CountedAt l.source t.span.start ∧ CountedAt l.source t.span.stop) :
    (ts.filterMap Token.comment?).map (fun e => (l.comment e).span) =
      (ts.filter fun t => t.comment?.isSome).map Token.span := by
  induction ts with
  | nil => rfl
  | cons t ts ih =>
    obtain ⟨⟨hstart, hstop⟩, hrest⟩ := List.forall_mem_cons.mp h
    cases hentry : t.comment? with
    | none =>
      rw [List.filterMap_cons_none hentry, List.filter_cons_of_neg (by rw [hentry]; nofun)]
      exact ih hrest
    | some e =>
      rw [List.filterMap_cons_some hentry, List.filter_cons_of_pos (by rw [hentry]; rfl),
        List.map_cons, List.map_cons, span_comment hentry hstart hstop, ih hrest]

/-- The places at which tokens and comments start and stop. -/
def ends (spans : List Span) : List Position := spans.map Span.start ++ spans.map Span.stop

/-- Whatever is asked of a lexer, in any order: at every place where a token of the source or a
comment starts or stops, and where the lexer stands, the lexer gives the position that moving,
scanning and searching give for the source as written. A comment has the span of its token. The
cursor counts in the replaced text, and every place of it is counted in the source as written. -/
theorem positions_agree (source file : Text) (level : Level) (rs : List Request) :
    let l := new source file level
    let tokens := (l.perform rs).1
    let given := (l.perform rs).2.1
    let last := (l.perform rs).2.2
    (∀ p ∈ ends (l.run.1.toList.map Token.span), p.Settled source) ∧
      (∀ p ∈ ends (tokens.map Token.span), p.Settled source) ∧
      (∀ p ∈ ends (given.map Comment.span) ++ ends (last.allComments.map Comment.span),
        p.Settled source) ∧
      last.position.Settled source ∧
      last.allComments.map Comment.span =
        (tokens.filter fun t => t.comment?.isSome).map Token.span ∧
      last.cursor = .counted last.input.text last.cursor.offset ∧
      (last.input.offsets = none → last.input.text = source) ∧
      ∀ o ≤ last.input.text.size,
        last.sourcePosition (.counted last.input.text o) =
          .counted source (last.sourceOffset o) := by
  intro l tokens given last
  have hl : l.Counts := counts_new source file level
  have hrun : l.Performed tokens given last := perform_performed rs l (kept_new _ _ _)
  obtain ⟨hlast, htokens⟩ := hl.perform rs
  have hsource : last.source = source := hrun.source
  have settled_ends {spans : List Span}
      (h : ∀ s ∈ spans, CountedAt source s.start ∧ CountedAt source s.stop) :
      ∀ p ∈ ends spans, p.Settled source := by
    intro p hp
    rcases List.mem_append.mp hp with hp | hp
    · obtain ⟨s, hs, rfl⟩ := List.mem_map.mp hp
      exact (h s hs).1.settled
    · obtain ⟨s, hs, rfl⟩ := List.mem_map.mp hp
      exact (h s hs).2.settled
  have hspans : last.allComments.map Comment.span =
      (tokens.filter fun t => t.comment?.isSome).map Token.span := by
    have htable : last.comments.toList = tokens.filterMap Token.comment? := hrun.table
    rw [allComments, htable, List.map_map]
    exact spans_comments (hsource.symm ▸ htokens)
  have hcomments : ∀ s ∈ last.allComments.map Comment.span,
      CountedAt source s.start ∧ CountedAt source s.stop := by
    intro s hs
    rw [hspans] at hs
    obtain ⟨t, ht, rfl⟩ := List.mem_map.mp hs
    exact htokens t (List.mem_of_mem_filter ht)
  have hgiven : ∀ c ∈ given, c ∈ last.allComments := by
    intro c hc
    rw [hrun.given] at hc
    obtain ⟨e, he, rfl⟩ := List.mem_map.mp hc
    have hmem := List.mem_of_mem_take (List.mem_of_mem_drop he)
    have hcomment : l.comment e = last.comment e := by
      rw [comment, comment, hrun.source]
    exact hcomment ▸ List.mem_map_of_mem hmem
  refine ⟨settled_ends fun s hs => ?_, settled_ends fun s hs => ?_, fun p hp => ?_, ?_, hspans,
    hlast.cursor, fun hnone => ?_, fun o ho => ?_⟩
  · obtain ⟨t, ht, rfl⟩ := List.mem_map.mp hs
    exact (run_yields hl.inside).counted hl t ht
  · obtain ⟨t, ht, rfl⟩ := List.mem_map.mp hs
    exact htokens t ht
  · rcases List.mem_append.mp hp with hp | hp
    · refine settled_ends (fun s hs => ?_) p hp
      obtain ⟨c, hc, rfl⟩ := List.mem_map.mp hs
      exact hcomments _ (List.mem_map_of_mem (hgiven c hc))
    · exact settled_ends hcomments p hp
  · have hposition := hlast.position
    rw [hsource] at hposition
    exact hposition.settled
  · rw [hlast.input, hsource] at hnone ⊢
    obtain ⟨-, htext⟩ | ⟨offsets, hsome, -⟩ := Source.translate_origins source
    · rw [htext]
    · rw [hsome] at hnone
      cases hnone
  · rw [← hsource]
    exact sourcePosition_eq hlast ho

end Lexer

end Javelin
