import Mathlib.Data.List.Chain
import Javelin.Proofs.Text.Characters
import Javelin.Proofs.Token.Scanning
import Javelin.Token.Lexer

/-!
# Lexers lose nothing

Taking the next token again and again reaches the end token after finitely many (`run_yields`).
Every token before it has a text, the texts joined are the source after the replacement of its
escapes, and the spans follow one another without a gap from the start of the source as written to
its end.
-/

namespace Javelin

theorem Position.offset_after (p : Position) (b : UInt8) : (p.after b).offset = p.offset + 1 := by
  unfold Position.after
  split <;> rfl

theorem Position.offset_advance (t : Text) (n : Nat) : ∀ p : Position,
    (advance t p n).offset = p.offset + n := by
  induction n with
  | zero => exact fun p => rfl
  | succ n ih =>
    intro p
    rw [advance, ih, offset_after]
    omega

/-! ## Where the bytes came from -/

namespace Source

/-- A table of origins under construction: one entry for each byte written so far, the first of
them zero. Nothing was written before the start. -/
structure Origins (i : Nat) (out : Text) (offsets : Array Nat) (changed : Bool) : Prop where
  size : offsets.size = out.size
  first : offsets.getD 0 0 = 0
  start : offsets.size = 0 → i = 0 ∧ changed = false

theorem size_ofCodePoint_pos (n : Nat) : 0 < (Text.ofCodePoint n).size := by
  rw [Text.ofCodePoint, Text.size_eq, Text.toList_ofChar]
  exact List.length_pos_iff.2 (Text.utf8EncodeChar_ne_nil _)

/-- The copies that are pushed for the bytes of one piece. -/
theorem push_range (offsets : Array Nat) (i n : Nat) :
    (List.range n).foldl (fun acc _ => acc.push i) offsets = offsets ++ Array.replicate n i := by
  induction n with
  | zero => simp
  | succ n ih => rw [List.range_succ, List.foldl_append, ih]; simp [Array.replicate_succ]

theorem Origins.extend {i j n : Nat} {out out' : Text} {offsets : Array Nat}
    {changed changed' : Bool} (h : Origins i out offsets changed) (hpos : 0 < n)
    (hsize : out'.size = out.size + n) :
    Origins j out' (offsets ++ Array.replicate n i) changed' := by
  refine ⟨by simp [hsize, h.size], ?_, ?_⟩
  · have hfirst := h.first
    simp only [Array.getD_eq_getD_getElem?, Array.getElem?_append] at hfirst ⊢
    split
    next => exact hfirst
    next hempty =>
      have hi := (h.start (by omega)).1
      rw [hi, Nat.zero_sub, Array.getElem?_replicate, if_pos hpos]
      rfl
  · intro hzero
    simp at hzero
    omega

theorem translateFrom_origins (t : Text) (fuel : Nat) : ∀ (i : Nat) (odd : Bool) (out : Text)
    (offsets : Array Nat) (changed : Bool), Origins i out offsets changed →
    ∃ j, Origins j (translateFrom t i odd out offsets changed fuel).1
      (translateFrom t i odd out offsets changed fuel).2.1
      (translateFrom t i odd out offsets changed fuel).2.2 := by
  induction fuel with
  | zero => exact fun i _ _ _ _ h => ⟨i, h⟩
  | succ fuel ih =>
    intro i odd out offsets changed h
    unfold translateFrom
    split
    next =>
      dsimp only
      split
      next n j _ =>
        rw [push_range]
        apply ih
        exact h.extend (size_ofCodePoint_pos n) (by simp [Text.size_eq])
      next =>
        rw [Array.push_eq_append]
        apply ih
        exact h.extend Nat.one_pos (by simp [Text.size_eq])
    next => exact ⟨i, h⟩

/-- The table of origins has an entry for each byte and one for the end, in the source as written.
-/
theorem translate_origins (t : Text) :
    (translate t).offsets = none ∧ (translate t).text = t ∨
      ∃ offsets : Array Nat, (translate t).offsets = some (offsets.push t.size) ∧
        offsets.size = (translate t).text.size ∧ 0 < offsets.size ∧ offsets.getD 0 0 = 0 := by
  unfold translate
  split
  next =>
    obtain ⟨j, h⟩ := translateFrom_origins t t.size 0 false {} #[] false ⟨rfl, rfl, fun _ => ⟨rfl, rfl⟩⟩
    split
    next out offsets heq =>
      rw [heq] at h
      refine .inr ⟨offsets, rfl, h.size, ?_, h.first⟩
      apply Nat.pos_of_ne_zero
      intro hzero
      exact nomatch (h.start hzero).2
    next => exact .inl ⟨rfl, rfl⟩
  next => exact .inl ⟨rfl, rfl⟩

end Source

namespace Lexer

/-- The first byte came from the start of the source. -/
theorem sourceOffset_zero (source file : Text) (level : Level) :
    (new source file level).sourceOffset 0 = 0 := by
  unfold sourceOffset
  obtain ⟨hnone, -⟩ | ⟨offsets, hsome, -, hpos, hfirst⟩ := Source.translate_origins source
  · have hinput : (new source file level).input.offsets = none := hnone
    rw [hinput]
  · have hinput : (new source file level).input.offsets = some (offsets.push source.size) :=
      hsome
    rw [hinput]
    show (offsets.push source.size).getD (min 0 _) 0 = 0
    rw [Nat.zero_min, Array.getD_eq_getD_getElem?, Array.getElem?_push, if_neg (by omega)]
    rwa [Array.getD_eq_getD_getElem?] at hfirst

/-- The end of the text came from the end of the source. -/
theorem sourceOffset_size (source file : Text) (level : Level) :
    (new source file level).sourceOffset (Source.translate source).text.size = source.size := by
  unfold sourceOffset
  obtain ⟨hnone, htext⟩ | ⟨offsets, hsome, hsize, -, -⟩ := Source.translate_origins source
  · have hinput : (new source file level).input.offsets = none := hnone
    rw [hinput, htext]
  · have hinput : (new source file level).input.offsets = some (offsets.push source.size) :=
      hsome
    rw [hinput]
    simp [Array.getD_eq_getD_getElem?, ← hsize]

theorem offset_sourcePosition (l : Lexer) (p : Position) :
    (l.sourcePosition p).offset = l.sourceOffset p.offset := by
  unfold sourcePosition sourceOffset
  cases l.input.offsets <;> rfl

/-! ## Taking tokens -/

variable {l : Lexer} {ts : List Token}

/-- `l.Yields ts`: taking the next token again and again gives `ts`, and the last of them, but none
before it, is the end token. -/
inductive Yields : Lexer → List Token → Prop
  | done {l : Lexer} : l.next.1.kind = .eof → Yields l [l.next.1]
  | more {l : Lexer} {ts : List Token} : l.next.1.kind ≠ .eof → Yields l.next.2 ts →
      Yields l (l.next.1 :: ts)

/-- The cursor stands in the text or at its end. -/
def Inside (l : Lexer) : Prop := l.cursor.offset ≤ l.input.text.size

/-- The part of the text that is still to be cut. -/
def rest (l : Lexer) : List UInt8 := l.input.text.toList.drop l.cursor.offset

theorem next_end (h : l.cursor.offset = l.input.text.size) :
    l.next.1.kind = .eof ∧ l.next.1.literal.toList = [] ∧ l.next.2.cursor = l.cursor := by
  have hscan := Token.scan_end l.input.text l.level (Nat.le_of_eq h.symm)
  unfold next
  dsimp only
  rw [hscan]
  simp [Position.advance]

/-- A token before the end moves the cursor over its text. -/
theorem next_before (h : l.cursor.offset < l.input.text.size) :
    l.next.1.kind ≠ .eof ∧ l.cursor.offset < l.next.2.cursor.offset ∧ l.next.2.Inside ∧
      l.next.1.literal = l.input.text.slice l.cursor.offset l.next.2.cursor.offset := by
  obtain ⟨hkind, hafter, hinside⟩ := Token.scan_fits l.input.text l.level h
  have hcursor : l.next.2.cursor.offset =
      (Token.scan l.input.text l.level l.cursor.offset).stop := by
    show (Position.advance _ _ _).offset = _
    rw [Position.offset_advance]
    omega
  refine ⟨hkind, ?_, ?_, ?_⟩
  · rw [hcursor]
    exact hafter
  · show l.next.2.cursor.offset ≤ _
    rw [hcursor]
    exact hinside
  · rw [hcursor]
    rfl

theorem rest_next (h : l.cursor.offset < l.input.text.size) :
    l.rest = l.next.1.literal.toList ++ l.next.2.rest := by
  obtain ⟨-, hafter, -, hliteral⟩ := next_before h
  unfold rest
  rw [hliteral, Text.toList_slice]
  show _ = _ ++ l.input.text.toList.drop l.next.2.cursor.offset
  have hsum : l.next.2.cursor.offset =
      l.cursor.offset + (l.next.2.cursor.offset - l.cursor.offset) := by omega
  rw [hsum, ← List.drop_drop, Nat.add_sub_cancel_left, List.take_append_drop]

/-- Only at the end of the text is there the end token. -/
theorem lt_size_of_next (h : l.Inside) (hk : l.next.1.kind ≠ .eof) :
    l.cursor.offset < l.input.text.size := by
  apply Nat.lt_of_le_of_ne h
  intro heq
  exact hk (next_end heq).1

theorem eq_size_of_next (h : l.Inside) (hk : l.next.1.kind = .eof) :
    l.cursor.offset = l.input.text.size := by
  apply Nat.le_antisymm h
  by_contra hlt
  exact (next_before (Nat.not_le.1 hlt)).1 hk

/-- With one step for each byte left and one for the end, all tokens are taken. -/
theorem runFor_yields (fuel : Nat) : ∀ (l : Lexer) (acc : Array Token), l.Inside →
    l.input.text.size - l.cursor.offset < fuel →
    ∃ ts, (l.runFor acc fuel).1.toList = acc.toList ++ ts ∧ l.Yields ts := by
  induction fuel with
  | zero => exact fun l acc _ hf => absurd hf (Nat.not_lt_zero _)
  | succ fuel ih =>
    intro l acc h hf
    unfold runFor
    by_cases hk : l.next.1.kind = .eof
    · refine ⟨[l.next.1], ?_, .done hk⟩
      simp [hk]
    · obtain ⟨-, hafter, hinside, -⟩ := next_before (lt_size_of_next h hk)
      have hfuel : l.next.2.input.text.size - l.next.2.cursor.offset < fuel := by
        show l.input.text.size - _ < fuel
        have := lt_size_of_next h hk
        omega
      obtain ⟨ts, hts, hyields⟩ := ih l.next.2 (acc.push l.next.1) hinside hfuel
      refine ⟨l.next.1 :: ts, ?_, .more hk hyields⟩
      simpa [hk] using hts

theorem run_yields (h : l.Inside) : l.Yields l.run.1.toList := by
  obtain ⟨ts, hts, hyields⟩ := runFor_yields _ l #[] h (Nat.lt_succ_self _)
  have heq : l.run.1.toList = ts := by simpa [run] using hts
  rwa [heq]

/-! ## What the tokens cover -/

theorem Yields.literal_ne_empty (h : l.Yields ts) (hl : l.Inside) :
    ∀ t ∈ ts, t.kind ≠ .eof → t.literal.isEmpty = false := by
  induction h with
  | done hk =>
    intro t ht hne
    exact absurd (List.mem_singleton.1 ht ▸ hk) hne
  | @more l ts hk _ ih =>
    obtain ⟨-, hafter, hinside, hliteral⟩ := next_before (lt_size_of_next hl hk)
    intro t ht hne
    obtain rfl | ht := List.mem_cons.1 ht
    · rw [hliteral, Text.isEmpty_eq, List.isEmpty_eq_false_iff, Text.toList_slice,
        ← List.length_pos_iff, List.length_take, List.length_drop]
      have := lt_size_of_next hl hk
      rw [Text.size_eq] at this
      omega
    · exact ih hinside t ht hne

theorem Yields.literals (h : l.Yields ts) (hl : l.Inside) :
    ts.flatMap (fun t => t.literal.toList) = l.rest := by
  induction h with
  | @done l hk =>
    have heq := eq_size_of_next hl hk
    rw [List.flatMap_singleton, (next_end heq).2.1, rest, heq, Text.size_eq, List.drop_length]
  | @more l ts hk _ ih =>
    have hlt := lt_size_of_next hl hk
    rw [List.flatMap_cons, ih (next_before hlt).2.2.1, rest_next hlt]

theorem Yields.head (h : l.Yields ts) : ts.head?.map (·.span.start) = some l.position := by
  cases h <;> rfl

theorem Yields.chain (h : l.Yields ts) : ts.IsChain fun a b => a.span.stop = b.span.start := by
  induction h with
  | done => exact .singleton _
  | @more l ts hk hts ih =>
    refine List.IsChain.cons ih ?_
    intro b hb
    have hstart : some b.span.start = some l.next.2.position := by
      rw [← hts.head, hb, Option.map_some]
    exact (Option.some.inj hstart).symm

theorem Yields.last (h : l.Yields ts) (hl : l.Inside) :
    ts.getLast?.map (·.span.stop.offset) = some (l.sourceOffset l.input.text.size) := by
  induction h with
  | @done l hk =>
    have heq := eq_size_of_next hl hk
    show some (l.sourcePosition l.next.2.cursor).offset = _
    rw [(next_end heq).2.2, offset_sourcePosition, heq]
  | @more l ts hk hts ih =>
    have hlast := ih (next_before (lt_size_of_next hl hk)).2.2.1
    obtain ⟨t, ht, -⟩ := Option.map_eq_some_iff.1 hlast
    rw [List.getLast?_cons, ht, Option.getD_some, Option.map_some]
    rw [ht, Option.map_some] at hlast
    exact hlast

/-- The tokens of a source, which taking the next token gives up to the end token, cover it without
loss: each but the last has a text, the texts make up the source after the replacement of its
escapes, and the spans follow one another from the start of the source as written to its end. -/
theorem tokens_cover_source (source file : Text) (level : Level) :
    let l := new source file level
    let ts := l.run.1.toList
    l.Yields ts ∧ (∀ t ∈ ts, t.kind ≠ .eof → t.literal.isEmpty = false) ∧
      Text.concat (ts.map (·.literal)) = (Source.translate source).text ∧
      ts.IsChain (fun a b => a.span.stop = b.span.start) ∧
      ts.head?.map (·.span.start.offset) = some 0 ∧
      ts.getLast?.map (·.span.stop.offset) = some source.size := by
  intro l ts
  have hl : l.Inside := Nat.zero_le _
  have hyields : l.Yields ts := run_yields hl
  refine ⟨hyields, hyields.literal_ne_empty hl, ?_, hyields.chain, ?_, ?_⟩
  · apply Text.ext_toList
    rw [Text.toList_concat, List.flatMap_map]
    exact hyields.literals hl
  · have hhead := congrArg (Option.map Position.offset) hyields.head
    rw [Option.map_map] at hhead
    refine hhead.trans (congrArg some ?_)
    rw [position, offset_sourcePosition]
    exact sourceOffset_zero source file level
  · rw [hyields.last hl]
    exact congrArg some (sourceOffset_size source file level)

end Lexer

end Javelin
