import Javelin.Proofs.Constant.Literals
import Javelin.Proofs.Text.Cutting
import Javelin.Proofs.Token.Scanning

/-!
# Escape sequences are read as they are scanned

The scanner checks the escape sequences of a quoted literal, and the evaluator replaces them. Both
follow one grammar (`Escaped`): what the scanner takes without a fault is made of plain bytes and
escape sequences, and what is made of these has a value.

1. The grammar.
2. What scanning takes (`escapeEnd_valid`, `stringBody_escaped`, `blockBody_escaped`).
3. What is made of plain bytes and escape sequences has a value (`unescape?_isSome`).
-/

namespace Javelin.Token

variable {t : Text} {line p : UInt8 → Bool} {i : Nat}

/-! ## The grammar -/

/-- What may stand behind a backslash. Of the octal digits there are as many as fit into a byte;
`line` tells which line ends may be escaped. -/
inductive IsEscape (line : UInt8 → Bool) : List UInt8 → Prop
  | simple {b : UInt8} (h : isSimpleEscape b = true) : IsEscape line [b]
  | octal {b : UInt8} {bs : List UInt8} (h : ∀ c ∈ b :: bs, isOctalDigit c = true)
      (hlen : (b :: bs).length ≤ if b ≤ '3' then 3 else 2) : IsEscape line (b :: bs)
  | unicode (n : Nat) {ds : List UInt8} (hlen : ds.length = 4)
      (h : ∀ d ∈ ds, Text.isHexDigit d = true) :
      IsEscape line (List.replicate (n + 1) 117 ++ ds)
  | line {b : UInt8} (h : line b = true) : IsEscape line [b]

/-- Plain bytes and escape sequences. -/
inductive Escaped (line : UInt8 → Bool) : List UInt8 → Prop
  | nil : Escaped line []
  | plain {b : UInt8} {bs : List UInt8} (hb : b ≠ 92) (h : Escaped line bs) :
      Escaped line (b :: bs)
  | escape {e bs : List UInt8} (he : IsEscape line e) (h : Escaped line bs) :
      Escaped line (92 :: (e ++ bs))

theorem IsEscape.ne_nil {e : List UInt8} (h : IsEscape line e) : e ≠ [] := by
  cases h <;> simp

theorem Escaped.of_cons {b : UInt8} {bs : List UInt8} (hb : b ≠ 92)
    (h : Escaped line (b :: bs)) : Escaped line bs := by
  cases h with
  | plain _ h => exact h
  | escape => exact absurd rfl hb

theorem Escaped.of_append {bs cs : List UInt8} (hb : 92 ∉ bs) (h : Escaped line (bs ++ cs)) :
    Escaped line cs := by
  induction bs with
  | nil => exact h
  | cons b bs ih =>
    rw [List.mem_cons, not_or] at hb
    exact ih hb.2 (h.of_cons (Ne.symm hb.1))

theorem Escaped.append_plain {bs cs : List UInt8} (hb : 92 ∉ bs) (h : Escaped line cs) :
    Escaped line (bs ++ cs) := by
  induction bs with
  | nil => exact h
  | cons b bs ih =>
    rw [List.mem_cons, not_or] at hb
    exact .plain (Ne.symm hb.1) (ih hb.2)

theorem Escaped.append {bs cs : List UInt8} (h : Escaped line bs) (h' : Escaped line cs) :
    Escaped line (bs ++ cs) := by
  induction h with
  | nil => exact h'
  | plain hb _ ih => exact .plain hb ih
  | escape he _ ih =>
    rw [List.cons_append, List.append_assoc]
    exact .escape he ih

/-! ## What scanning takes -/

/-- A run of at most `n` bytes is cut off. -/
theorem skipAtMost_run (hp : p 0 = false) (n : Nat) : ∀ i,
    ∃ run, t.toList.drop i = run ++ t.toList.drop (skipAtMost t p i n) ∧
      (∀ b ∈ run, p b = true) ∧ run.length ≤ n ∧ skipAtMost t p i n = i + run.length := by
  induction n with
  | zero => exact fun i => ⟨[], rfl, by simp, Nat.le_refl _, rfl⟩
  | succ n ih =>
    intro i
    by_cases h : p (t.at0 i) = true
    · have hlt : i < t.toList.length := Text.lt_size_of_at0 hp h
      have hdrop := List.drop_eq_getElem_cons hlt
      obtain ⟨run, hrun, hall, hlen, hend⟩ := ih (i + 1)
      rw [skipAtMost, if_pos h]
      refine ⟨t.at0 i :: run, ?_, by simpa [h] using hall, by simpa using hlen, ?_⟩
      · rw [hdrop, hrun, Text.at0_of_drop hdrop]
        rfl
      · rw [hend, List.length_cons]
        omega
    · rw [skipAtMost, if_neg h]
      exact ⟨[], rfl, by simp, Nat.zero_le _, rfl⟩

theorem drop_of_at0 {b : UInt8} (hb : (0 == b) = false) (h : t.at0 i = b) :
    t.toList.drop i = b :: t.toList.drop (i + 1) := by
  have hdrop := List.drop_eq_getElem_cons
    (show i < t.toList.length from Text.lt_size_of_beq hb (beq_iff_eq.mpr h))
  rw [hdrop, ← Text.at0_of_drop hdrop, h]

/-- The octal digits of an escape sequence. -/
theorem octalRun (h : isOctalDigit (t.at0 i) = true) : ∃ e,
    t.toList.drop i =
      e ++ t.toList.drop (skipAtMost t isOctalDigit i (if t.at0 i ≤ '3' then 3 else 2)) ∧
    IsEscape line e ∧ ∀ b ∈ e, isOctalDigit b = true := by
  obtain ⟨run, hrun, hall, hlen, hend⟩ := skipAtMost_run (t := t) (p := isOctalDigit) rfl
    (if t.at0 i ≤ '3' then 3 else 2) i
  have hlt : i < t.toList.length := Text.lt_size_of_at0 (p := isOctalDigit) rfl h
  have hmore : i < skipAtMost t isOctalDigit i (if t.at0 i ≤ '3' then 3 else 2) := by
    obtain ⟨n, hn⟩ : ∃ n, (if t.at0 i ≤ '3' then 3 else 2) = n + 1 := by
      split <;> exact ⟨_, rfl⟩
    rw [hn, skipAtMost, if_pos h]
    exact (skipAtMost_bounds (p := isOctalDigit) rfl n (i + 1) hlt).1
  cases run with
  | nil =>
    rw [hend] at hmore
    exact absurd hmore (Nat.lt_irrefl i)
  | cons b bs =>
    have hb : t.at0 i = b := Text.at0_of_drop hrun
    rw [hb] at hlen
    exact ⟨b :: bs, hrun, .octal hall hlen, hall⟩

/-- The letters and digits of an escape sequence by number. -/
theorem unicodeRun (h : t.at0 i = 117) (hend : skipAtMost t Text.isHexDigit
      (t.skipWhile (· == 'u') i) 4 = t.skipWhile (· == 'u') i + 4) :
    ∃ n ds, t.toList.drop i = List.replicate (n + 1) 117 ++ ds ++
        t.toList.drop (t.skipWhile (· == 'u') i + 4) ∧
      ds.length = 4 ∧ ∀ d ∈ ds, Text.isHexDigit d = true := by
  obtain ⟨ds, hds, hhex, hlen, hstop⟩ := skipAtMost_run (t := t) (p := Text.isHexDigit) rfl 4
    (t.skipWhile (· == 'u') i)
  have hfour : ds.length = 4 := by omega
  rw [hend] at hds
  -- the letters are those up to the first that is none
  have hdrop := drop_of_at0 (b := 117) rfl h
  have hus : t.toList.drop i = (t.toList.drop i).takeWhile (fun b : UInt8 => b == 'u') ++
      t.toList.drop (t.skipWhile (· == 'u') i) := Text.drop_skipWhile ..
  have hall : (t.toList.drop i).takeWhile (fun b : UInt8 => b == 'u') =
      List.replicate ((t.toList.drop i).takeWhile (fun b : UInt8 => b == 'u')).length 117 := by
    rw [List.eq_replicate_iff]
    refine ⟨rfl, fun b hb => ?_⟩
    have hu := List.mem_takeWhile_imp hb
    exact beq_iff_eq.mp hu
  obtain ⟨n, hn⟩ : ∃ n, ((t.toList.drop i).takeWhile (fun b : UInt8 => b == 'u')).length = n + 1 := by
    rw [hdrop, List.takeWhile_cons_of_pos (by decide), List.length_cons]
    exact ⟨_, rfl⟩
  rw [hn] at hall
  refine ⟨n, ds, ?_, hfour, hhex⟩
  rw [List.append_assoc, ← hds, ← hall]
  exact hus

/-- What a valid escape sequence takes. Behind a carriage return a line feed belongs to the line
end. -/
theorem escapeEnd_valid {inBlock : Bool} (h : (escapeEnd t inBlock i).2 = true) :
    ∃ e, t.toList.drop i = e ++ t.toList.drop (escapeEnd t inBlock i).1 ∧
      (IsEscape (fun b => inBlock && isLineEnd b) e ∨ inBlock = true ∧ e = [13, 10]) := by
  unfold escapeEnd at h ⊢
  dsimp only at h ⊢
  by_cases hsimple : isSimpleEscape (t.at0 i) = true
  · rw [if_pos hsimple]
    have hdrop := List.drop_eq_getElem_cons
      (show i < t.toList.length from Text.lt_size_of_at0 (p := isSimpleEscape) rfl hsimple)
    rw [Text.at0_of_drop hdrop] at hsimple
    exact ⟨[_], hdrop, .inl (.simple hsimple)⟩
  rw [if_neg hsimple] at h ⊢
  by_cases hoctal : isOctalDigit (t.at0 i) = true
  · rw [if_pos hoctal]
    obtain ⟨e, he, hescape, -⟩ := octalRun hoctal
    exact ⟨e, he, .inl hescape⟩
  rw [if_neg hoctal] at h ⊢
  by_cases hu : (t.at0 i == 'u') = true
  · rw [if_pos hu] at h ⊢
    obtain ⟨n, ds, hds, hlen, hhex⟩ := unicodeRun (beq_iff_eq.mp hu) (beq_iff_eq.mp h)
    rw [beq_iff_eq.mp h]
    exact ⟨_, hds, .inl (.unicode n hlen hhex)⟩
  rw [if_neg hu] at h ⊢
  by_cases hfeed : (inBlock && t.at0 i == '\n') = true
  · rw [if_pos hfeed]
    obtain ⟨rfl, hb⟩ := Bool.and_eq_true_iff.mp hfeed
    exact ⟨[10], drop_of_at0 (b := 10) rfl (beq_iff_eq.mp hb), .inl (.line rfl)⟩
  rw [if_neg hfeed] at h ⊢
  by_cases hreturn : (inBlock && t.at0 i == '\r') = true
  · rw [if_pos hreturn]
    obtain ⟨rfl, hb⟩ := Bool.and_eq_true_iff.mp hreturn
    have hdrop := drop_of_at0 (b := 13) rfl (beq_iff_eq.mp hb)
    unfold skipOne
    split
    next hnext =>
      refine ⟨[13, 10], ?_, .inr ⟨rfl, rfl⟩⟩
      rw [hdrop, drop_of_at0 (b := 10) rfl (beq_iff_eq.mp hnext)]
      rfl
    next => exact ⟨[13], hdrop, .inl (.line rfl)⟩
  rw [if_neg hreturn] at h
  cases h

/-- Behind a valid escape sequence a literal goes on. -/
theorem Escaped.of_escapeEnd {inBlock : Bool} {bs : List UInt8}
    (hb : t.at0 i = 92) (h : (escapeEnd t inBlock (i + 1)).2 = true)
    (hbs : Escaped (fun b => inBlock && isLineEnd b) bs) {rest : List UInt8}
    (hrest : t.toList.drop (escapeEnd t inBlock (i + 1)).1 = bs ++ rest) :
    ∃ body, t.toList.drop i = body ++ rest ∧
      Escaped (fun b => inBlock && isLineEnd b) body := by
  obtain ⟨e, he, hescape | ⟨rfl, rfl⟩⟩ := escapeEnd_valid h
  · refine ⟨92 :: (e ++ bs), ?_, .escape hescape hbs⟩
    rw [drop_of_at0 (b := 92) rfl hb, he, hrest, List.cons_append, List.append_assoc]
  · refine ⟨92 :: ([13] ++ 10 :: bs), ?_, .escape (.line rfl) (.plain (by decide) hbs)⟩
    rw [drop_of_at0 (b := 92) rfl hb, he, hrest]
    rfl

/-! ### Bodies -/

theorem stringBody_fault (fault : Problem.Id) (fuel : Nat) : ∀ i,
    (stringBody t i (some fault) fuel).2 = some fault := by
  induction fuel with
  | zero => exact fun _ => rfl
  | succ fuel ih =>
    intro i
    unfold stringBody
    dsimp only
    split
    · split
      · rw [escapeFault, Option.isNone_some, Bool.and_false]
        exact ih _
      · exact ih _
    · rfl

/-- The body of a string literal without a fault. -/
theorem stringBody_escaped (fuel : Nat) : ∀ i, (stringBody t i none fuel).2 = none →
    ∃ body, t.toList.drop i = body ++ t.toList.drop (stringBody t i none fuel).1 ∧
      Escaped (fun b => false && isLineEnd b) body := by
  induction fuel with
  | zero => exact fun i _ => ⟨[], rfl, .nil⟩
  | succ fuel ih =>
    intro i h
    unfold stringBody at h ⊢
    dsimp only at h ⊢
    split at h
    next hinside =>
      rw [if_pos hinside]
      have hlt : i < t.toList.length := by
        have := (Bool.and_eq_true_iff.mp (Bool.and_eq_true_iff.mp hinside).1).1
        exact of_decide_eq_true this
      split at h
      next hslash =>
        rw [if_pos hslash]
        cases hvalid : (escapeEnd t false (i + 1)).2 with
        | false =>
          rw [hvalid] at h
          rw [show escapeFault false none = some .invalidEscape from rfl, stringBody_fault] at h
          cases h
        | true =>
          rw [hvalid] at h
          obtain ⟨body, hbody, hescaped⟩ := ih _ h
          exact Escaped.of_escapeEnd (beq_iff_eq.mp hslash) hvalid hescaped hbody
      next hslash =>
        rw [if_neg hslash]
        obtain ⟨body, hbody, hescaped⟩ := ih _ h
        have hdrop := List.drop_eq_getElem_cons hlt
        refine ⟨t.at0 i :: body, ?_, .plain (fun hb => hslash (beq_iff_eq.mpr hb)) hescaped⟩
        rw [hdrop, hbody, Text.at0_of_drop hdrop]
        rfl
    next hinside =>
      rw [if_neg hinside]
      exact ⟨[], rfl, .nil⟩

theorem charBody_fault (fault : Problem.Id) (fuel : Nat) : ∀ i count,
    (charBody t i count (some fault) fuel).2.2 = some fault := by
  induction fuel with
  | zero => exact fun _ _ => rfl
  | succ fuel ih =>
    intro i count
    unfold charBody
    dsimp only
    split
    · split
      · rw [escapeFault, Option.isNone_some, Bool.and_false]
        exact ih _ _
      · exact ih _ _
    · rfl

theorem le_charBody (fuel : Nat) : ∀ i count fault, count ≤ (charBody t i count fault fuel).2.1 ∧
    ((charBody t i count fault fuel).2.1 = count → (charBody t i count fault fuel).1 = i) := by
  induction fuel with
  | zero => exact fun i count _ => ⟨Nat.le_refl _, fun _ => rfl⟩
  | succ fuel ih =>
    intro i count fault
    unfold charBody
    dsimp only
    split
    · split
      · have hle := (ih (escapeEnd t false (i + 1)).1 (count + 1)
          (escapeFault (escapeEnd t false (i + 1)).2 fault)).1
        exact ⟨by omega, fun h => absurd h (by omega)⟩
      · have hle := (ih (i + (t.decodeAt i).2) (count + 1) fault).1
        exact ⟨by omega, fun h => absurd h (by omega)⟩
    · exact ⟨Nat.le_refl _, fun _ => rfl⟩

/-- One character between quotes is an escape sequence or a single character. -/
theorem charBody_one {fuel : Nat} (hcount : (charBody t i 0 none fuel).2.1 = 1)
    (hfault : (charBody t i 0 none fuel).2.2 = none) :
    (∃ e, IsEscape (fun b => false && isLineEnd b) e ∧
        t.toList.drop i = 92 :: e ++ t.toList.drop (charBody t i 0 none fuel).1) ∨
      (i < t.size ∧ t.at0 i ≠ 92 ∧
        (charBody t i 0 none fuel).1 = i + (t.decodeAt i).2) := by
  cases fuel with
  | zero => cases hcount
  | succ fuel =>
    unfold charBody at hcount hfault ⊢
    dsimp only at hcount hfault ⊢
    split at hcount
    next hinside =>
      rw [if_pos hinside] at hfault ⊢
      have hlt : i < t.size :=
        of_decide_eq_true (Bool.and_eq_true_iff.mp (Bool.and_eq_true_iff.mp hinside).1).1
      split at hcount
      next hslash =>
        rw [if_pos hslash] at hfault ⊢
        cases hvalid : (escapeEnd t false (i + 1)).2 with
        | false =>
          rw [hvalid, show escapeFault false none = some .invalidEscape from rfl,
            charBody_fault] at hfault
          cases hfault
        | true =>
          rw [hvalid] at hcount
          rw [(le_charBody fuel _ _ _).2 hcount]
          obtain ⟨e, he, hescape | ⟨hblock, -⟩⟩ := escapeEnd_valid hvalid
          · left
            refine ⟨e, hescape, ?_⟩
            rw [drop_of_at0 (b := 92) rfl (beq_iff_eq.mp hslash), he]
            rfl
          · cases hblock
      next hslash =>
        rw [if_neg hslash] at hfault ⊢
        rw [(le_charBody fuel _ _ _).2 hcount]
        exact .inr ⟨hlt, fun h => hslash (beq_iff_eq.mpr h), rfl⟩
    next => cases hcount

theorem blockBody_fault (fault : Problem.Id) (fuel : Nat) : ∀ i,
    (blockBody t i (some fault) fuel).2.2 = some fault := by
  induction fuel with
  | zero => exact fun _ => rfl
  | succ fuel ih =>
    intro i
    unfold blockBody
    dsimp only
    split
    · split
      · rfl
      split
      · rw [escapeFault, Option.isNone_some, Bool.and_false]
        exact ih _
      · exact ih _
    · rfl

/-- The body of a text block without a fault, up to its closing delimiter. -/
theorem blockBody_escaped (fuel : Nat) : ∀ i, (blockBody t i none fuel).2.1 = true →
    (blockBody t i none fuel).2.2 = none →
    ∃ body, t.toList.drop i =
        body ++ 34 :: 34 :: 34 :: t.toList.drop (blockBody t i none fuel).1 ∧
      Escaped (fun b => true && isLineEnd b) body := by
  induction fuel with
  | zero => exact fun _ h => nomatch h
  | succ fuel ih =>
    intro i hclosed hfault
    unfold blockBody at hclosed hfault ⊢
    split at hclosed
    next hlt =>
      rw [if_pos hlt] at hfault ⊢
      split at hclosed
      next hend =>
        rw [if_pos hend] at hfault ⊢
        obtain ⟨rest, hrest⟩ := ((Text.hasAt_iff t _ i).mp hend).2
        refine ⟨[], ?_, .nil⟩
        have hthree : t.toList.drop (i + 3) = rest := by
          rw [← List.drop_drop, ← hrest]
          rfl
        rw [hthree, ← hrest]
        rfl
      next hend =>
        rw [if_neg hend] at hfault ⊢
        split at hclosed
        next hslash =>
          rw [if_pos hslash] at hfault ⊢
          cases hvalid : (escapeEnd t true (i + 1)).2 with
          | false =>
            dsimp only at hfault
            rw [hvalid, show escapeFault false none = some .invalidEscape from rfl,
              blockBody_fault] at hfault
            cases hfault
          | true =>
            dsimp only at hclosed hfault ⊢
            rw [hvalid] at hclosed hfault ⊢
            obtain ⟨body, hbody, hescaped⟩ := ih _ hclosed hfault
            exact Escaped.of_escapeEnd (beq_iff_eq.mp hslash) hvalid hescaped hbody
        next hslash =>
          rw [if_neg hslash] at hfault ⊢
          obtain ⟨body, hbody, hescaped⟩ := ih _ hclosed hfault
          have hdrop := List.drop_eq_getElem_cons (show i < t.toList.length from hlt)
          refine ⟨t.at0 i :: body, ?_, .plain (fun hb => hslash (beq_iff_eq.mpr hb)) hescaped⟩
          rw [hdrop, hbody, Text.at0_of_drop hdrop]
          rfl
    next => cases hclosed

end Javelin.Token

namespace Javelin.Literal

open Token (IsEscape Escaped)

variable {t : Text} {i : Nat} {inBlock : Bool}

/-! ## What has a value -/

/-- What the evaluator tells apart behind a backslash. -/
theorem escape_bytes : ∀ b, (Token.isSimpleEscape b = true → (simpleEscape? b).isSome) ∧
    (Token.isOctalDigit b = true →
      simpleEscape? b = none ∧ (b == '\n') = false ∧ (b == 'u') = false ∧ b ≠ 92) ∧
    (Text.isHexDigit b = true → b ≠ 117 ∧ digit (letter b) < 16) :=
  forall_byte (by decide +kernel)

theorem get?_of_drop {b : UInt8} {rest : List UInt8} (h : t.toList.drop i = b :: rest) :
    t.get? i = some b := by
  rw [Text.get?_eq, ← List.head?_drop, h]
  rfl

/-- The hexadecimal digits behind the letters of an escape sequence by number. -/
theorem skip_letters {n : Nat} {ds rest : List UInt8}
    (h : t.toList.drop i = List.replicate (n + 1) 117 ++ ds ++ rest) (hlen : ds.length = 4)
    (hhex : ∀ d ∈ ds, Text.isHexDigit d = true) :
    t.skipWhile (· == 'u') i = i + n + 1 ∧ i + n + 1 + 4 ≤ t.size ∧
      (t.slice (i + n + 1) (i + n + 1 + 4)).toList = ds := by
  have hrest : t.toList.drop (i + n + 1) = ds ++ rest := by
    rw [Nat.add_assoc, ← List.drop_drop, h, List.append_assoc, List.drop_left' (by simp)]
  refine ⟨?_, ?_, ?_⟩
  · cases ds with
    | nil => cases hlen
    | cons d ds =>
      have hd : ¬ (d == 'u') = true := fun hu =>
        ((escape_bytes d).2.2 (hhex d List.mem_cons_self)).1 (beq_iff_eq.mp hu)
      rw [Text.skipWhile_eq, h, List.append_assoc, List.takeWhile_append_of_pos,
        List.cons_append, List.takeWhile_cons_of_neg (p := fun b : UInt8 => b == 'u') hd]
      · simp
        omega
      · intro b hb
        rw [List.eq_of_mem_replicate hb]
        rfl
  · have hle := congrArg List.length hrest
    rw [List.length_drop, List.length_append, hlen, ← Text.size_eq] at hle
    omega
  · rw [Text.toList_slice, hrest, Nat.add_sub_cancel_left, List.take_left' hlen]

/-- An escape sequence has a value, and behind it a body goes on. Of octal digits the evaluator
may take more than the sequence has. -/
theorem unescapeAt?_isSome {e rest : List UInt8}
    (he : IsEscape (fun b => inBlock && b == 10) e) (h : t.toList.drop i = e ++ rest)
    (hrest : Escaped (fun b => inBlock && b == 10) rest) :
    ∃ piece j, unescapeAt? t inBlock i = some (piece, j) ∧
      Escaped (fun b => inBlock && b == 10) (t.toList.drop j) := by
  have hnext {b : UInt8} (hb : e = [b]) : t.toList.drop (i + 1) = rest := by
    rw [← List.drop_drop, h, hb]
    rfl
  unfold unescapeAt?
  cases he with
  | @simple b hb =>
    obtain ⟨c, hc⟩ := Option.isSome_iff_exists.mp ((escape_bytes b).1 hb)
    rw [get?_of_drop h]
    simp only [hc]
    exact ⟨_, _, rfl, by rw [hnext rfl]; exact hrest⟩
  | @octal b bs hall hlen =>
    obtain ⟨hsimple, hfeed, hu, -⟩ := (escape_bytes b).2.1 (hall b List.mem_cons_self)
    rw [get?_of_drop h]
    simp only [hsimple, hfeed, hu, hall b List.mem_cons_self, Bool.false_eq_true, if_false, if_true]
    refine ⟨_, _, rfl, ?_⟩
    obtain ⟨run, hrun, hoctal, -⟩ := Token.skipAtMost_run (t := t) (p := Token.isOctalDigit) rfl
      (if b ≤ '3' then 3 else 2) i
    have hplain {ds : List UInt8} (hds : ∀ d ∈ ds, Token.isOctalDigit d = true) : 92 ∉ ds :=
      fun hmem => ((escape_bytes 92).2.1 (hds 92 hmem)).2.2.2 rfl
    exact Escaped.of_append (hplain hoctal) (hrun ▸ h ▸ hrest.append_plain (hplain hall))
  | @unicode n ds hlen hhex =>
    obtain ⟨hskip, hsize, hslice⟩ := skip_letters h hlen hhex
    have hdigits : ((t.slice (i + n + 1) (i + n + 1 + 4)).all Text.isHexDigit) = true := by
      rw [Text.all_eq, hslice, List.all_eq_true]
      exact hhex
    obtain ⟨m, hm⟩ : ∃ m, natural? (t.slice (i + n + 1) (i + n + 1 + 4)) 16 = some m := by
      have hne : ds ≠ [] := List.ne_nil_of_length_pos (by omega)
      obtain ⟨m, hm⟩ := Option.isSome_iff_exists.mp
        (written_isSome hne fun d hd => ((escape_bytes d).2.2 (hhex d hd)).2)
      exact ⟨m, natural?_eq (by decide) (by rw [hslice]; exact hm)⟩
    have hhead : t.toList.drop i = 117 :: (List.replicate n 117 ++ ds ++ rest) := h
    have hfirst : t.get? i = some 117 := get?_of_drop hhead
    have hsimple : simpleEscape? 117 = none := rfl
    rw [hfirst]
    simp only [hsimple, hskip, hdigits, hm]
    rw [if_neg (by decide), if_pos (by decide), decide_eq_true hsize]
    refine ⟨_, _, rfl, ?_⟩
    have hlen' : (List.replicate (n + 1) 117 ++ ds).length = n + 1 + 4 := by simp [hlen]
    rw [show i + n + 1 + 4 = i + (n + 1 + 4) by omega, ← List.drop_drop, h, List.drop_left' hlen']
    exact hrest
  | @line b hb =>
    obtain ⟨rfl, hten⟩ := Bool.and_eq_true_iff.mp hb
    obtain rfl := beq_iff_eq.mp hten
    rw [get?_of_drop h]
    exact ⟨{}, i + 1, rfl, by rw [hnext rfl]; exact hrest⟩

theorem unescapeFrom_isSome (fuel : Nat) : ∀ i out,
    Escaped (fun b => inBlock && b == 10) (t.toList.drop i) →
    (unescapeFrom t inBlock i out fuel).isSome := by
  induction fuel with
  | zero => exact fun _ _ _ => rfl
  | succ fuel ih =>
    intro i out h
    rw [unescapeFrom]
    split
    next hlt =>
      have hdrop := List.drop_eq_getElem_cons (show i < t.toList.length from hlt)
      have hat := Text.at0_of_drop hdrop
      rw [hdrop, ← hat] at h
      split
      next hslash =>
        rw [beq_iff_eq.mp hslash] at h
        generalize hbytes : t.toList.drop (i + 1) = bytes at h
        cases h with
        | plain hb => exact absurd rfl hb
        | escape he hrest =>
          obtain ⟨piece, j, hpiece, hj⟩ := unescapeAt?_isSome he hbytes hrest
          rw [hpiece]
          exact ih j _ hj
      next hslash => exact ih _ _ (h.of_cons fun hb => hslash (beq_iff_eq.mpr hb))
    next => rfl

/-- A body of plain bytes and escape sequences has a value. -/
theorem unescape?_isSome (h : Escaped (fun b => inBlock && b == 10) t.toList) :
    (unescape? t inBlock).isSome :=
  unescapeFrom_isSome _ _ _ h

end Javelin.Literal
