import Javelin.Parse.Recovery
import Javelin.Proofs.Constant.Numerals
import Javelin.Proofs.Parse.Ahead
import Javelin.Proofs.Parse.Totality
import Javelin.Proofs.Token.Lossless
import Javelin.Proofs.Token.Spelled

/-!
# Phrases that are spelled

A parse starts in a state with all tokens of its text to come. Where a phrase is spelled by the
bytes of the text (`Spells`), the pieces of the phrase are ahead, and nothing was reported.

1. The tokens that are scanned from an offset on, and the state at the start.
2. Spelling, from the back to the front. Closing brackets that stand together are munched into as
   few tokens as possible, so a phrase is spelled with the brackets in front of it kept apart.
-/

namespace Javelin.Parse

/-! ## Scanning -/

/-- The lexemes from an offset to the end of a text in which no token has a fault; white space is
left out. -/
inductive Scans (t : Text) (level : Level) : Nat → List Lexeme → Prop
  | done : Scans t level t.size [⟨.eof, {}⟩]
  | token {i j : Nat} {k : Token.Kind} {xs : List Lexeme} : i < t.size →
      Token.scan t level i = ⟨k, j, none⟩ →
      k ∉ [.whitespace, .blockComment, .lineComment, .invalid] → Scans t level j xs →
      Scans t level i (⟨k, t.slice i j⟩ :: xs)
  | blank {i j : Nat} {xs : List Lexeme} : i < t.size →
      Token.scan t level i = ⟨.whitespace, j, none⟩ → Scans t level j xs → Scans t level i xs

theorem isSignificant_iff {t : Token} : isSignificant t = true ↔
    t.kind ∉ [.whitespace, .blockComment, .lineComment, .invalid] := by
  unfold isSignificant
  split <;> simp_all

theorem next_of_scan {l : Lexer} {k : Token.Kind} {j : Nat} {fault : Option Problem.Id}
    (hlt : l.cursor.offset < l.input.text.size)
    (h : Token.scan l.input.text l.level l.cursor.offset = ⟨k, j, fault⟩) :
    l.next.1.kind = k ∧ l.next.1.literal = l.input.text.slice l.cursor.offset j ∧
      l.next.1.fault = fault ∧ l.next.2.cursor.offset = j := by
  have hafter := (Token.scan_fits l.input.text l.level hlt).after
  rw [h] at hafter
  unfold Lexer.next
  dsimp only
  rw [h, Position.offset_advance]
  exact ⟨rfl, rfl, rfl, by dsimp only at hafter ⊢; omega⟩

theorem Scans.yields {level : Level} {t : Text} {i : Nat} {xs : List Lexeme}
    (h : Scans t level i xs) : ∀ {l : Lexer} {ts : List Token}, l.input.text = t →
      l.level = level → l.cursor.offset = i → l.Yields ts →
      (ts.filter isSignificant).map lexeme = xs ∧ ∀ x ∈ ts, x.fault = none := by
  induction h with
  | done =>
    rintro l ts rfl rfl hi hts
    obtain ⟨hkind, hliteral, -⟩ := Lexer.next_end hi
    have hlexeme : lexeme l.next.1 = ⟨.eof, {}⟩ := by
      rw [lexeme, hkind, Text.ext_toList (u := {}) hliteral]
    have hsignificant : isSignificant l.next.1 = true := by rw [isSignificant_iff, hkind]; decide
    cases hts with
    | done =>
      refine ⟨by simp [hsignificant, hlexeme], ?_⟩
      simp only [List.mem_singleton, forall_eq]
      unfold Lexer.next
      dsimp only
      rw [Token.scan_end _ _ (Nat.le_of_eq hi.symm)]
    | more hne => exact absurd hkind hne
  | @token i j k xs hlt hscan hk _ ih =>
    rintro l ts rfl rfl rfl hts
    obtain ⟨hkind, hliteral, hfault, hcursor⟩ := next_of_scan hlt hscan
    have hsignificant : isSignificant l.next.1 = true := by rw [isSignificant_iff, hkind]; exact hk
    cases hts with
    | done heof => exact absurd heof (Lexer.next_before hlt).1
    | more _ hts =>
      obtain ⟨hmap, hfaults⟩ := ih (l := l.next.2) rfl rfl hcursor hts
      refine ⟨?_, List.forall_mem_cons.2 ⟨hfault, hfaults⟩⟩
      rw [List.filter_cons_of_pos hsignificant, List.map_cons, hmap, lexeme, hkind, hliteral]
  | blank hlt hscan _ ih =>
    rintro l ts rfl rfl rfl hts
    obtain ⟨hkind, -, hfault, hcursor⟩ := next_of_scan hlt hscan
    have hsignificant : ¬isSignificant l.next.1 = true := by rw [isSignificant_iff, hkind]; decide
    cases hts with
    | done heof => exact absurd heof (Lexer.next_before hlt).1
    | more _ hts =>
      obtain ⟨hmap, hfaults⟩ := ih (l := l.next.2) rfl rfl hcursor hts
      refine ⟨?_, List.forall_mem_cons.2 ⟨hfault, hfaults⟩⟩
      rw [List.filter_cons_of_neg hsignificant, hmap]

/-! ## The start of a parse -/

theorem findTextFrom_hasAt {t p : Text} {n i j : Nat} (h : t.findTextFrom p i n = some j) :
    t.hasAt j p = true := by
  fun_induction Text.findTextFrom t p i n with
  | case1 => cases h
  | case2 i n hat =>
    cases h
    exact hat
  | case3 i n hat ih => exact ih h

/-- Without a backslash nothing is replaced. -/
theorem translate_eq {t : Text} (h : (92 : UInt8) ∉ t.toList) : Source.translate t = ⟨t, none⟩ := by
  have hcontains : t.contains "\\u" = false := by
    rw [Text.contains, Text.findText?, Option.isSome_eq_false_iff, Option.isNone_iff_eq_none,
      Option.eq_none_iff_forall_ne_some]
    intro j hj
    obtain ⟨-, hfront⟩ := (Text.hasAt_iff _ _ _).1 (findTextFrom_hasAt hj)
    exact h (List.mem_of_mem_drop (hfront.subset (by decide)))
  rw [Source.translate, if_neg (by rw [hcontains]; decide)]

theorem toCome_start (source : Text) (o : Options) : (start source o).toCome =
    ((Lexer.new source o.file o.level).run.1.toList.filter isSignificant).map lexeme := by
  have hunused := unused_start source o
  rw [← Array.toList_filter, ← tokens_start]
  generalize start source o = s at hunused
  refine List.ext_getElem (by simp [State.toCome, hunused.pos]) fun i hi _ => ?_
  have hlt : i < s.tokens.size := by simpa [State.toCome, hunused.pos] using hi
  have htoken : s.token i = s.tokens[i] := by
    have hmin : min i (s.tokens.size - 1) = i := by omega
    have hempty : s.splits.isEmpty = true := by
      rw [hunused.splits]
      exact Std.TreeMap.isEmpty_emptyc
    rw [State.token, hmin, if_pos hempty, Array.getD_eq_getD_getElem?, Array.getElem?_eq_getElem hlt]
    rfl
  simp [State.toCome, hunused.pos, htoken]

/-- The start of a text without faults. -/
theorem start_of_scans {source : Text} {o : Options} {xs : List Lexeme}
    (hplain : (92 : UInt8) ∉ source.toList) (h : Scans source o.level 0 xs) :
    (start source o).toCome = xs ∧ (start source o).problems = #[] ∧
      (start source o).errorCount = 0 := by
  have hinside : (Lexer.new source o.file o.level).Inside := Nat.zero_le _
  have htext : (Lexer.new source o.file o.level).input.text = source := by
    show (Source.translate source).text = source
    rw [translate_eq hplain]
  obtain ⟨hmap, hfaults⟩ := h.yields htext rfl rfl (Lexer.run_yields hinside)
  refine ⟨(toCome_start source o).trans hmap, ?_⟩
  unfold start
  generalize (Lexer.new source o.file o.level).run = r at hfaults
  obtain ⟨ts, lexer⟩ := r
  have hnone : ts.toList.filterMap (fun t => t.fault.map fun id => (t, id)) = [] := by
    rw [List.filterMap_eq_nil_iff]
    intro x hx
    rw [hfaults x hx]
    rfl
  dsimp only
  rw [hnone]
  exact ⟨rfl, rfl⟩

/-! ## Spelling -/

/-- What is scanned where only these bytes are left. -/
def Lexes (level : Level) (bs : List UInt8) (xs : List Lexeme) : Prop :=
  ∀ (t : Text) (i : Nat), i ≤ t.size → t.toList.drop i = bs → Scans t level i xs

section

variable {level : Level} {bs : List UInt8} {xs : List Lexeme} {ps : List Piece}

theorem lexes_nil : Lexes level [] [⟨.eof, {}⟩] := by
  intro t i hi hdrop
  have hend : i = t.size := Nat.le_antisymm hi (List.drop_eq_nil_iff.1 hdrop)
  rw [hend]
  exact .done

/-- A token that is scanned in front of the bytes of the others. -/
theorem Lexes.token {k : Token.Kind} {w : Text} (h : Lexes level bs xs) (hpos : 0 < w.size)
    (hk : k ∉ [.whitespace, .blockComment, .lineComment, .invalid])
    (hscan : ∀ (t : Text) (i : Nat), t.toList.drop i = w.toList ++ bs →
      Token.scan t level i = ⟨k, i + w.size, none⟩) :
    Lexes level (w.toList ++ bs) (⟨k, w⟩ :: xs) := by
  intro t i hi hdrop
  have hlength := congrArg List.length hdrop
  rw [List.length_drop, List.length_append, ← Text.size_eq, ← Text.size_eq] at hlength
  have hslice : t.slice i (i + w.size) = w := by
    refine Text.ext_toList ?_
    rw [Text.toList_slice, hdrop, Nat.add_sub_cancel_left, Text.size_eq, List.take_left]
  have hbehind : t.toList.drop (i + w.size) = bs := by
    rw [← List.drop_drop, hdrop, Text.size_eq, List.drop_left]
  have hrest := h t (i + w.size) (by omega) hbehind
  have hscans := Scans.token (by omega) (hscan t i hdrop) hk hrest
  rwa [hslice] at hscans

theorem Lexes.blank (h : Lexes level bs xs) (hbs : ∀ b ∈ bs.head?, Token.isBlankByte b = false) :
    Lexes level (32 :: bs) xs := by
  intro t i hi hdrop
  have hlt : i < t.size := Text.lt_size_of_drop hdrop
  have hbehind : t.toList.drop (i + 1) = bs := by
    rw [← List.drop_drop, hdrop]
    rfl
  have hscan : Token.scan t level i = ⟨.whitespace, i + 1, none⟩ := by
    have hskip : t.skipWhile Token.isBlankByte i = i + 1 := by
      rw [Text.skipWhile_eq, hdrop]
      cases bs with
      | nil => rfl
      | cons b bs =>
        rw [List.takeWhile_cons_of_pos (by decide), List.takeWhile_cons_of_neg (by simp [hbs b rfl])]
        rfl
    have hblank : Token.isBlankByte 32 = true := by decide
    unfold Token.scan
    simp [Text.at0_of_drop hdrop, hskip, Nat.not_le.2 hlt, hblank]
  exact .blank hlt hscan (h t (i + 1) (by omega) hbehind)

/-- A word that starts with a letter and is not the lone underscore of later levels. -/
theorem Lexes.letters {c : Char} {cs : List Char} (h : Lexes level bs xs)
    (hbs : Token.EndsWord bs) (hc : Text.isLetter c = true)
    (hcs : ∀ d ∈ cs, Text.isLetterOrDigit d = true)
    (hplain : (Text.ofChars (c :: cs) == "_" && level.atLeast 9) = false)
    (hkind : Token.kindOfWord (Text.ofChars (c :: cs)) level ∉
      [.whitespace, .blockComment, .lineComment, .invalid]) :
    Lexes level ((Text.ofChars (c :: cs)).toList ++ bs)
      (⟨Token.kindOfWord (Text.ofChars (c :: cs)) level, Text.ofChars (c :: cs)⟩ :: xs) := by
  refine h.token ?_ hkind fun t i hdrop => ?_
  · rw [Text.size_eq, Text.toList_ofChars, List.flatMap_cons, List.length_append,
      String.length_utf8EncodeChar]
    have hpos := c.utf8Size_pos
    omega
  · rw [Token.scan_word hbs hc hcs hdrop, hplain]
    rfl

theorem Lexes.identifier {name : Text} (h : Lexes level bs xs) (hbs : Token.EndsWord bs)
    (hname : Name.identifierFault? name level = none) :
    Lexes level (name.toList ++ bs) (⟨.identifier, name⟩ :: xs) := by
  obtain ⟨c, cs, rfl, hc, hcs, hkind, hplain⟩ := Name.eq_of_identifierFault? hname
  rw [← hkind]
  exact h.letters hbs hc hcs hplain (by rw [hkind]; decide)

theorem keywords_letters : ∀ k ∈ Token.keywords, k.name.toList.head?.any Text.isLetter = true ∧
    k.name.toList.all Text.isLetterOrDigit = true ∧ (k.spelling == "_") = false := by
  decide

theorem kindOfWord_keyword {k : Token.Kind} (hk : k ∈ Token.keywords)
    (hsince : k.reservedSince = 0) : Token.kindOfWord k.spelling level = k := by
  have hfound : Token.keywordTable[k.spelling]? = some k := Std.HashMap.getElem?_ofList_of_mem
    (beq_self_eq_true k.spelling) Token.keywords_distinct (List.mem_map_of_mem hk)
  rw [Token.kindOfWord, hfound]
  simp [hsince]

/-- A keyword that every level reserves. -/
theorem Lexes.keyword {k : Token.Kind} (h : Lexes level bs xs) (hbs : Token.EndsWord bs)
    (hk : k ∈ Token.keywords) (hsince : k.reservedSince = 0) :
    Lexes level (k.spelling.toList ++ bs) (⟨k, k.spelling⟩ :: xs) := by
  obtain ⟨hc, hcs, hplain⟩ := keywords_letters k hk
  have hchars : k.spelling = Text.ofChars k.name.toList := Text.ext_toList (Text.toList_ofString _)
  have hkind : Token.kindOfWord k.spelling level = k := kindOfWord_keyword hk hsince
  have hword : k ∉ [.whitespace, .blockComment, .lineComment, .invalid] := by
    have hnone : ∀ k ∈ Token.keywords,
        k ∉ [.whitespace, .blockComment, .lineComment, .invalid] := by decide
    exact hnone k hk
  generalize k.name.toList = cs at hc hcs hchars
  cases cs with
  | nil => cases hc
  | cons c cs =>
    rw [List.all_cons, Bool.and_eq_true] at hcs
    rw [hchars] at hkind hplain ⊢
    have hletters := h.letters hbs (by simpa using hc) (List.all_eq_true.1 hcs.2)
      (by rw [hplain, Bool.false_and]) (by rwa [hkind])
    rwa [hkind] at hletters

theorem Lexes.operator {k : Token.Kind} {b : UInt8} {cs : List UInt8} (h : Lexes level bs xs)
    (hk : k ∈ Token.operators) (hspelling : k.spelling.toList = b :: cs)
    (hb : Token.startsOperator b = true)
    (hdigit : b = '.' → ∀ d ∈ (cs ++ bs).head?, Text.isDigit d = false)
    (hbs : ∀ d ∈ bs.head?, d ∉ Token.goesOn k) :
    Lexes level (k.spelling.toList ++ bs) (⟨k, k.spelling⟩ :: xs) := by
  have hnone : ∀ k ∈ Token.operators,
      k ∉ [.whitespace, .blockComment, .lineComment, .invalid] := by decide
  exact h.token (Token.operators_spelled k hk).2 (hnone k hk) fun t i hdrop =>
    Token.scan_operator hk hspelling hb hdigit hdrop hbs

/-- The separators with which no longer operator starts. -/
def wholeSeparators : List Token.Kind :=
  [.comma, .lbracket, .rbracket, .question, .lparen, .rparen]

theorem mem_operators_of_separator : ∀ k ∈ [.dot, .less] ++ wholeSeparators,
    k ∈ Token.operators := by decide

theorem spelling_separator : ∀ k ∈ [.dot, .less] ++ wholeSeparators,
    k.spelling.toList = [k.spelling.at0 0] := by decide

theorem startsOperator_separator : ∀ k ∈ [.dot, .less] ++ wholeSeparators,
    Token.startsOperator (k.spelling.at0 0) = true := by decide

theorem goesOn_separator : ∀ k ∈ wholeSeparators, k.spelling.at0 0 ≠ '.' ∧ Token.goesOn k = [] := by
  decide

/-- The bytes with which longer tokens go on than the point and those of brackets. -/
theorem goesOn_brackets :
    (∀ k ∈ [Token.Kind.dot, .less], ∀ b ∈ Token.goesOn k, b ∈ ([46, 60, 61] : List UInt8)) ∧
    (∀ k ∈ [Token.Kind.greater, .shiftRight],
      ∀ b ∈ Token.goesOn k, b ∈ ([62, 61] : List UInt8)) ∧
    ∀ b ∈ Token.goesOn .shiftRightZero, b ∈ ([61] : List UInt8) := by decide +kernel

theorem Lexes.separator {k : Token.Kind} (h : Lexes level bs xs) (hk : k ∈ wholeSeparators) :
    Lexes level (k.spelling.toList ++ bs) (⟨k, k.spelling⟩ :: xs) := by
  have hmem : k ∈ [.dot, .less] ++ wholeSeparators := List.mem_append_right _ hk
  obtain ⟨hpoint, hlonger⟩ := goesOn_separator k hk
  exact h.operator (mem_operators_of_separator k hmem) (spelling_separator k hmem)
    (startsOperator_separator k hmem) (fun heq => absurd heq hpoint) (by simp [hlonger])

/-- A byte that neither goes on with a point or an opening bracket nor is a blank. -/
def opensType (b : UInt8) : Bool :=
  !(b == 46 || b == 60 || b == 61 || b == 62 || Text.isDigit b || Token.isBlankByte b)

theorem Lexes.opening {k : Token.Kind} (h : Lexes level bs xs) (hk : k ∈ [Token.Kind.dot, .less])
    (hbs : ∀ b ∈ bs.head?, opensType b = true) :
    Lexes level (k.spelling.toList ++ bs) (⟨k, k.spelling⟩ :: xs) := by
  have hmem : k ∈ [.dot, .less] ++ wholeSeparators := List.mem_append_left _ hk
  have hnext : ∀ b ∈ bs.head?, Text.isDigit b = false ∧ b ∉ ([46, 60, 61] : List UInt8) := by
    intro b hb
    have hopens := hbs b hb
    simp only [opensType, Bool.not_eq_true', Bool.or_eq_false_iff, beq_eq_false_iff_ne] at hopens
    simp [hopens]
  exact h.operator (mem_operators_of_separator k hmem) (spelling_separator k hmem)
    (startsOperator_separator k hmem) (fun _ b hb => (hnext b hb).1)
    fun b hb hlonger => (hnext b hb).2 (goesOn_brackets.1 k hk b hlonger)

/-! ## Closing brackets -/

/-- The tokens that a run of closing brackets is cut into. -/
def munched : Nat → List Lexeme
  | 0 => []
  | 1 => [⟨.greater, Token.Kind.spelling .greater⟩]
  | 2 => [⟨.shiftRight, Token.Kind.spelling .shiftRight⟩]
  | n + 3 => ⟨.shiftRightZero, Token.Kind.spelling .shiftRightZero⟩ :: munched n

/-- A token of closing brackets; a longer one would go on with one of the two bytes. -/
theorem Lexes.brackets {k : Token.Kind} (cs : List UInt8) (h : Lexes level bs xs)
    (hk : k ∈ Token.operators) (hspelling : k.spelling.toList = 62 :: cs)
    (hbs : ∀ b ∈ bs.head?, b ∉ Token.goesOn k) :
    Lexes level (62 :: (cs ++ bs)) (⟨k, k.spelling⟩ :: xs) := by
  have hlexes := h.operator hk hspelling (by decide) (fun heq => absurd heq (by decide)) hbs
  rwa [hspelling] at hlexes

theorem Lexes.munched (h : Lexes level bs xs) (hbs : ∀ b ∈ bs.head?, b ≠ 62 ∧ b ≠ 61) (n : Nat) :
    Lexes level (List.replicate n 62 ++ bs) (munched n ++ xs) := by
  have hshort {k : Token.Kind} (hk : k ∈ [Token.Kind.greater, .shiftRight]) :
      ∀ b ∈ bs.head?, b ∉ Token.goesOn k := by
    intro b hb hmem
    have hlonger := goesOn_brackets.2.1 k hk b hmem
    simp only [List.mem_cons, List.not_mem_nil, or_false, hbs b hb] at hlonger
  fun_induction Parse.munched n with
  | case1 => exact h
  | case2 => exact h.brackets [] (by decide) (by decide) (hshort (by decide))
  | case3 => exact h.brackets [62] (by decide) (by decide) (hshort (by decide))
  | case4 n ih =>
    refine Lexes.brackets [62, 62] ih (by decide) (by decide) fun b hb hmem => ?_
    obtain rfl := List.mem_singleton.1 (goesOn_brackets.2.2 b hmem)
    cases n with
    | zero => exact (hbs _ hb).2 rfl
    | succ n => cases hb

theorem Glued.munched (h : Glued xs ps) (n : Nat) :
    Glued (munched n ++ xs) (List.replicate n .close ++ ps) := by
  fun_induction Parse.munched n with
  | case1 => exact h
  | case2 => exact .close rfl h
  | case3 => exact .split rfl (.close rfl h)
  | case4 n ih => exact .split rfl (.split rfl (.close rfl ih))

/-- The bytes spell the pieces. The closing brackets in front are kept apart from the rest, which
has its tokens. -/
def Spells (level : Level) (bs : List UInt8) (ps : List Piece) : Prop :=
  ∃ (n : Nat) (rest : List UInt8) (ps' : List Piece) (xs : List Lexeme),
    bs = List.replicate n 62 ++ rest ∧ ps = List.replicate n .close ++ ps' ∧
      (∀ b ∈ rest.head?, b ≠ 62 ∧ b ≠ 61) ∧ Lexes level rest xs ∧ Glued xs ps'

theorem Spells.lexes (h : Spells level bs ps) : ∃ xs, Lexes level bs xs ∧ Glued xs ps := by
  obtain ⟨n, rest, ps', xs, rfl, rfl, hrest, hlexes, hglued⟩ := h
  exact ⟨_, hlexes.munched hrest n, hglued.munched n⟩

/-- What does not start with a closing bracket is spelled by its tokens. -/
theorem Lexes.spells (h : Lexes level bs xs) (hglued : Glued xs ps)
    (hbs : ∀ b ∈ bs.head?, b ≠ 62 ∧ b ≠ 61) : Spells level bs ps :=
  ⟨0, bs, ps, xs, rfl, rfl, hbs, h, hglued⟩

theorem spells_nil : Spells level [] [.token ⟨.eof, {}⟩] :=
  lexes_nil.spells (.token .nil) (by simp)

theorem Spells.close (h : Spells level bs ps) : Spells level (62 :: bs) (.close :: ps) := by
  obtain ⟨n, rest, ps', xs, rfl, rfl, hrest, hlexes, hglued⟩ := h
  exact ⟨n + 1, rest, ps', xs, rfl, rfl, hrest, hlexes, hglued⟩

/-- A token in front of what is spelled. -/
theorem Spells.token {w : Text} {k : Token.Kind} (h : Spells level bs ps)
    (htoken : ∀ {xs}, Lexes level bs xs → Lexes level (w.toList ++ bs) (⟨k, w⟩ :: xs))
    (hfirst : ∀ b ∈ (w.toList ++ bs).head?, b ≠ 62 ∧ b ≠ 61) :
    Spells level (w.toList ++ bs) (.token ⟨k, w⟩ :: ps) := by
  obtain ⟨xs, hlexes, hglued⟩ := h.lexes
  exact (htoken hlexes).spells (.token hglued) hfirst

theorem ne_of_opensType {b : UInt8} (h : opensType b = true) :
    (b ≠ 62 ∧ b ≠ 61) ∧ Token.isBlankByte b = false := by
  simp only [opensType, Bool.not_eq_true', Bool.or_eq_false_iff, beq_eq_false_iff_ne] at h
  simp [h]

theorem Spells.blank (h : Spells level bs ps) (hbs : ∀ b ∈ bs.head?, opensType b = true) :
    Spells level (32 :: bs) ps := by
  obtain ⟨xs, hlexes, hglued⟩ := h.lexes
  refine (hlexes.blank fun b hb => (ne_of_opensType (hbs b hb)).2).spells hglued ?_
  rintro b ⟨⟩
  decide

theorem noLetter_of_opensType : ∀ b, (!opensType b) = true →
    b < 0x80 ∧ Text.isLetter (Char.ofNat b.toNat) = false :=
  Literal.forall_byte (by decide +kernel)

/-- A letter opens a type. -/
theorem opensType_letter {c : Char} (hc : Text.isLetter c = true) (bs : List UInt8) :
    ∀ b ∈ (String.utf8EncodeChar c ++ bs).head?, opensType b = true := by
  intro b hb
  have hnot := Token.head_of_letter (p := fun b => !opensType b) noLetter_of_opensType hc bs b hb
  simpa using hnot

theorem opensType_name {name : Text} (hname : Name.identifierFault? name level = none)
    (bs : List UInt8) : ∀ b ∈ (name.toList ++ bs).head?, opensType b = true := by
  obtain ⟨c, cs, rfl, hc, -⟩ := Name.eq_of_identifierFault? hname
  rw [Text.toList_ofChars, List.flatMap_cons, List.append_assoc]
  exact opensType_letter hc _

theorem opensType_keyword {k : Token.Kind} (hk : k ∈ Token.keywords) (bs : List UInt8) :
    ∀ b ∈ (k.spelling.toList ++ bs).head?, opensType b = true := by
  obtain ⟨hc, -, -⟩ := keywords_letters k hk
  have hchars : k.spelling.toList = k.name.toList.flatMap String.utf8EncodeChar :=
    Text.toList_ofString _
  rw [hchars]
  generalize k.name.toList = cs at hc
  cases cs with
  | nil => cases hc
  | cons c cs =>
    rw [List.flatMap_cons, List.append_assoc]
    exact opensType_letter (by simpa using hc) _

theorem Spells.word {name : Text} (h : Spells level bs ps) (hbs : Token.EndsWord bs)
    (hname : Name.identifierFault? name level = none) :
    Spells level (name.toList ++ bs) (.word name :: ps) :=
  h.token (fun hlexes => hlexes.identifier hbs hname) fun b hb =>
    (ne_of_opensType (opensType_name hname bs b hb)).1

theorem Spells.keyword {k : Token.Kind} (h : Spells level bs ps) (hbs : Token.EndsWord bs)
    (hk : k ∈ Token.keywords) (hsince : k.reservedSince = 0) :
    Spells level (k.spelling.toList ++ bs) (.sign k :: ps) :=
  h.token (fun hlexes => hlexes.keyword hbs hk hsince) fun b hb =>
    (ne_of_opensType (opensType_keyword hk bs b hb)).1

/-- A separator is no closing bracket. -/
theorem ne_closing_separator : ∀ k ∈ [.dot, .less] ++ wholeSeparators,
    k.spelling.at0 0 ≠ 62 ∧ k.spelling.at0 0 ≠ 61 := by decide

theorem head_separator {k : Token.Kind} (hk : k ∈ [.dot, .less] ++ wholeSeparators)
    (bs : List UInt8) : ∀ b ∈ (k.spelling.toList ++ bs).head?, b ≠ 62 ∧ b ≠ 61 := by
  rw [spelling_separator k hk]
  rintro b ⟨⟩
  exact ne_closing_separator k hk

theorem Spells.separator {k : Token.Kind} (h : Spells level bs ps) (hk : k ∈ wholeSeparators) :
    Spells level (k.spelling.toList ++ bs) (.sign k :: ps) :=
  h.token (fun hlexes => hlexes.separator hk) (head_separator (List.mem_append_right _ hk) bs)

theorem Spells.opening {k : Token.Kind} (h : Spells level bs ps) (hk : k ∈ [Token.Kind.dot, .less])
    (hbs : ∀ b ∈ bs.head?, opensType b = true) :
    Spells level (k.spelling.toList ++ bs) (.sign k :: ps) :=
  h.token (fun hlexes => hlexes.opening hk hbs) (head_separator (List.mem_append_left _ hk) bs)

end

/-! ## Whole phrases -/

theorem not_mem_of_glued {k : Token.Kind} (hk : k ∉ .assign :: closers) {xs : List Lexeme}
    {ps : List Piece} (h : Glued xs ps) (hps : ∀ p ∈ ps, p.kind ≠ k) : ∀ x ∈ xs, x.kind ≠ k := by
  induction h with
  | nil => simp
  | token _ ih =>
    obtain ⟨hp, hps⟩ := List.forall_mem_cons.1 hps
    exact List.forall_mem_cons.2 ⟨hp, ih hps⟩
  | @close x _ _ hx _ ih =>
    obtain ⟨hp, hps⟩ := List.forall_mem_cons.1 hps
    exact List.forall_mem_cons.2 ⟨hx ▸ hp, ih hps⟩
  | @split x k' _ _ hx _ ih =>
    obtain ⟨-, hps⟩ := List.forall_mem_cons.1 hps
    refine List.forall_mem_cons.2 ⟨?_, (List.forall_mem_cons.1 (ih hps)).2⟩
    rintro rfl
    exact hk (List.mem_cons_of_mem _ (closers_of_afterGreater? hx).1)

/-- The pieces that the tokens of a text are glued together from are ahead at its start. -/
theorem ahead_start {source : Text} {o : Options} {ps : List Piece} {e : Lexeme}
    (hglued : Glued (start source o).toCome (ps ++ [.token e])) (he : e.kind = .eof)
    (hps : ∀ p ∈ ps, p.kind ≠ .at ∧ p.kind ≠ .colonColon) : (start source o).Ahead ps := by
  have hpos := (unused_start source o).pos
  have hnone {k : Token.Kind} (hk : k ∉ .assign :: closers) (heof : k ≠ .eof)
      (hps : ∀ p ∈ ps, p.kind ≠ k) : ∀ x ∈ (start source o).toCome, x.kind ≠ k := by
    refine not_mem_of_glued hk hglued fun p hp => ?_
    obtain hp | hp := List.mem_append.1 hp
    · exact hps p hp
    · obtain rfl := List.mem_singleton.1 hp
      exact fun heq => heof (heq.symm.trans he)
  generalize start source o = s at hglued hpos hnone
  have hsize : 0 < s.tokens.size := by
    have hne : s.toCome ≠ [] := by
      intro hnil
      rw [hnil] at hglued
      cases ps <;> cases hglued
    obtain ⟨x, xs, hxs⟩ := List.exists_cons_of_ne_nil hne
    have hlt := State.pos_lt_of_toCome hxs
    omega
  refine ⟨fun i => ?_, e, he, hglued⟩
  have hmem : lexeme (s.token i) ∈ s.toCome := by
    have hclamp : s.token i = s.token (s.pos + min i (s.tokens.size - 1)) := by
      have hmin : min (min i (s.tokens.size - 1)) (s.tokens.size - 1) =
          min i (s.tokens.size - 1) := by omega
      rw [hpos, Nat.zero_add]
      simp only [State.token, hmin]
    rw [hclamp]
    exact List.mem_map_of_mem (List.mem_range.2 (by omega))
  exact ⟨hnone (by decide) (by decide) (fun p hp => (hps p hp).1) _ hmem,
    hnone (by decide) (by decide) (fun p hp => (hps p hp).2) _ hmem⟩

/-- At the end one token is left, the end. -/
theorem State.Ahead.at_end {s : State} (h : s.Ahead []) :
    s.current.kind = .eof ∧ s.pos + 1 = s.tokens.size := by
  obtain ⟨-, e, he, hglued⟩ := h
  generalize hxs : s.toCome = xs at hglued
  obtain - | @⟨_, xs, _, hrest⟩ := hglued
  cases hrest
  refine ⟨(congrArg Lexeme.kind (State.current_of_toCome hxs)).trans he, ?_⟩
  have hlength := congrArg List.length hxs
  simp only [State.toCome, List.length_map, List.length_range, List.length_cons,
    List.length_nil] at hlength
  omega

theorem Takes.expectEnd : Takes (expect_ .eof) [] [] fun _ => True := by
  intro c s hs
  obtain ⟨hkind, hend⟩ := hs.at_end
  have hadvance : Parse.advance c s = .ok s.current s := by
    show (if s.pos + 1 < s.tokens.size then _ else _ : Parser Token) c s = _
    rw [if_neg (by omega)]
    rfl
  have hexpect : Parse.expect .eof c s = .ok s.current s := by
    unfold Parse.expect
    rw [bind_ok (p := Parse.check .eof) (a := s.current.kind == .eof) rfl,
      if_pos (beq_iff_eq.2 hkind), hadvance]
  unfold expect_
  rw [bind_ok hexpect]
  exact ⟨trivial, .refl, hs⟩

/-- A phrase whose pieces are ahead at the start is parsed, and all tokens but the end are taken. -/
theorem strictPhrase_takes {α : Type} {rule : Grammar → Parser α} (node : α → Node)
    (hrule : ∀ {v : Setting} {n g}, Serves n g → v.opened = [] →
      Moves v n .strict Any 0 16 (rule g) fun a => (node a).Unmarked)
    {source : Text} {o : Options} {ps : List Piece} {P : α → Prop}
    (hahead : (start source o).Ahead ps) (htakes : ∀ n, Takes (rule (grammar n)) ps [] P) :
    ∃ a s, strictPhrase rule source o = .ok a s ∧ P a ∧ (start source o).Passes s ∧
      s.pos + 1 = s.tokens.size := by
  obtain ⟨v, htried⟩ := tried_strictPhrase hrule source o
  have hphrase : Takes (do
      let a ← rule (grammarFor (start source o))
      expect_ .eof
      return a) ps [] P :=
    (htakes _).bind fun a ha => Takes.expectEnd.bind fun _ _ => .pure ha
  have hgives : Gives _ (strictPhrase rule source o) :=
    hphrase (contextOf o) (start source o) hahead
  cases hrun : strictPhrase rule source o with
  | ok a s =>
    rw [hrun] at hgives
    exact ⟨a, s, rfl, hgives.1, hgives.2.1, hgives.2.2.at_end.2⟩
  | error e s =>
    -- there are steps enough, so it would have failed for bad syntax
    rw [hrun] at hgives htried
    cases htried
    cases hgives

end Javelin.Parse
