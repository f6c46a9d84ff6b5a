import Javelin.Proofs.Parse.Spelling
import Javelin.Proofs.Parse.TypePhrases
import Javelin.Resolve.TypeNodes

/-!
# The text of a type is read back

The text of a plain type whose names are identifiers is cut into tokens without a fault, and parsing
these tokens as a type takes all of them and gives the type back (`type_reread`), however deep its
arguments are nested.

1. The text of a type spells its pieces.
2. The parse.
-/

namespace Javelin

namespace TypeNode

open Parse

variable {level : Level} {bs : List UInt8} {ps : List Piece}

/-! ## Texts and pieces -/

theorem texts_eq_map (ts : List TypeNode) : texts ts = ts.map text := by
  induction ts with
  | nil => rfl
  | cons t ts ih => rw [texts, ih, List.map_cons]

/-- The names of types that are identifiers at a level. -/
def Written (level : Level) (isArg : Bool) (t : TypeNode) : Prop :=
  t.Plain (fun name => Name.identifierFault? name level = none) isArg

theorem keyword_primitive {b : BasicType} {k : Token.Kind} (h : b.keyword? = some k) :
    k ∈ Token.keywords ∧ k.reservedSince = 0 ∧ (b.name : Text) = k.spelling := by
  cases b <;> cases h <;> exact ⟨by decide, by decide, rfl⟩

/-- The text of a type starts with a letter or a question mark. -/
theorem opensType_text {isArg : Bool} {t : TypeNode} (h : t.Written level isArg) :
    ∀ bs, ∀ b ∈ (t.text.toList ++ bs).head?, opensType b = true := by
  unfold Written at h
  induction h with
  | @primitive _ _ b hk =>
    obtain ⟨k, hk⟩ := Option.isSome_iff_exists.1 hk
    obtain ⟨hmem, -, htext⟩ := keyword_primitive hk
    rw [text, htext]
    exact opensType_keyword hmem
  | @simple _ _ name args hname =>
    intro bs
    simp only [text, qualifierText, Text.toList_append, Text.toList_emptyCollection,
      List.nil_append, List.append_assoc]
    exact opensType_name hname _
  | qualified _ _ _ _ ih =>
    intro bs
    simp only [text, qualifierText, Text.toList_append, List.append_assoc]
    exact ih _
  | array _ ih =>
    intro bs
    rw [text, Text.toList_append, List.append_assoc]
    exact ih _
  | unbounded =>
    rintro bs b ⟨⟩
    decide
  | bounded =>
    rintro bs b ⟨⟩
    decide

theorem toList_less : (Token.Kind.spelling .less).toList = [60] := by decide

theorem toList_question : (Token.Kind.spelling .question).toList = [63] := by decide

theorem toList_dot : (Token.Kind.spelling .dot).toList = [46] := by decide

/-- The word in front of a bound. -/
def boundWord (isLower : Bool) : Token.Kind := if isLower then .kwSuper else .kwExtends

theorem toList_boundText (isLower : Bool) (b : TypeNode) : (boundText isLower (some b)).toList =
    32 :: ((boundWord isLower).spelling.toList ++ 32 :: b.text.toList) := by
  have hword : (Text.ofString (if isLower then " super " else " extends ")).toList =
      32 :: ((boundWord isLower).spelling.toList ++ [32]) := by
    cases isLower <;> decide
  rw [boundText, Text.toList_append, hword]
  simp

/-- The text of type arguments with their brackets. -/
def argText (args : List TypeNode) : Text :=
  if args.isEmpty then {} else "<" ++ Text.join "," (texts args) ++ ">"

theorem toList_argText (a : TypeNode) (as : List TypeNode) : (argText (a :: as)).toList =
    60 :: (a.text.toList ++ (as.flatMap fun a => 44 :: a.text.toList) ++ [62]) := by
  have hjoin : ∀ (b : UInt8) (xs : List UInt8) (yss : List (List UInt8)),
      [b].intercalate (xs :: yss) = xs ++ yss.flatMap (b :: ·) := by
    intro b xs yss
    induction yss generalizing xs with
    | nil => simp
    | cons ys yss ih => rw [List.intercalate_cons_cons, ih]; simp
  have hcomma : Text.toList "," = [44] := by decide
  have hopen : Text.toList "<" = [60] := toList_less
  have hclose : Text.toList ">" = [62] := by decide
  rw [argText, if_neg (by simp), Text.toList_append, Text.toList_append, Text.toList_join, hcomma,
    hopen, hclose, texts_eq_map, List.map_map, List.map_cons, hjoin, List.flatMap_map]
  simp

/-- What holds of the text of each type argument. -/
def SpellsArg (level : Level) (a : TypeNode) : Prop :=
  (∀ bs, ∀ b ∈ (a.text.toList ++ bs).head?, opensType b = true) ∧
    ∀ {bs ps}, Spells level bs ps → Token.EndsWord bs →
      Spells level (a.text.toList ++ bs) (a.pieces ++ ps)

theorem spells_moreArgs {as : List TypeNode} (has : ∀ a ∈ as, SpellsArg level a)
    (h : Spells level bs ps) (hbs : Token.EndsWord bs) :
    Spells level ((as.flatMap fun a => 44 :: a.text.toList) ++ bs)
        (eachBehind .comma (as.map pieces) ++ ps) ∧
      Token.EndsWord ((as.flatMap fun a => 44 :: a.text.toList) ++ bs) := by
  induction as with
  | nil => exact ⟨h, hbs⟩
  | cons a as ih =>
    obtain ⟨hspells, hends⟩ := ih fun b hb => has b (List.mem_cons_of_mem a hb)
    rw [List.flatMap_cons, List.map_cons, eachBehind_cons, List.append_assoc, List.cons_append,
      List.cons_append, List.append_assoc]
    refine ⟨?_, Token.endsWord_cons (by decide) _⟩
    exact ((has a List.mem_cons_self).2 hspells hends).separator (k := .comma) (by decide)

theorem spells_args {as : List TypeNode} (has : ∀ a ∈ as, SpellsArg level a)
    (h : Spells level bs ps) (hbs : Token.EndsWord bs) :
    Spells level ((argText as).toList ++ bs) (argPieces (piecesList as) ++ ps) ∧
      Token.EndsWord ((argText as).toList ++ bs) := by
  cases as with
  | nil => exact ⟨h, hbs⟩
  | cons a as =>
    obtain ⟨hspells, hends⟩ := spells_moreArgs (fun b hb => has b (List.mem_cons_of_mem a hb))
      h.close (Token.endsWord_cons (by decide) bs)
    obtain ⟨hopens, hspell⟩ := has a List.mem_cons_self
    have hall := (hspell hspells hends).opening (k := .less) (by decide) (hopens _)
    rw [toList_argText, piecesList_eq_map, List.map_cons]
    refine ⟨?_, Token.endsWord_cons (by decide) _⟩
    simpa [toList_less, argPieces, separated] using hall

/-- The text of a type spells its pieces. -/
theorem spells_text {isArg : Bool} {t : TypeNode} (h : t.Written level isArg) :
    ∀ {bs : List UInt8} {ps : List Piece}, Spells level bs ps → Token.EndsWord bs →
      Spells level (t.text.toList ++ bs) (t.pieces ++ ps) := by
  have harg {args : List TypeNode} (hargs : ∀ a ∈ args, a.Written level true)
      (ih : ∀ a ∈ args, ∀ {bs ps}, Spells level bs ps → Token.EndsWord bs →
        Spells level (a.text.toList ++ bs) (a.pieces ++ ps)) : ∀ a ∈ args, SpellsArg level a :=
    fun a ha => ⟨opensType_text (hargs a ha), ih a ha⟩
  unfold Written at h
  induction h with
  | @primitive _ _ b hk =>
    intro bs ps hspells hbs
    obtain ⟨k, hk⟩ := Option.isSome_iff_exists.1 hk
    obtain ⟨hmem, hsince, htext⟩ := keyword_primitive hk
    rw [text, htext, pieces, hk]
    exact hspells.keyword hbs hmem hsince
  | @simple _ i name args hname hargs ih =>
    intro bs ps hspells hbs
    obtain ⟨hall, hends⟩ := spells_args (harg hargs ih) hspells hbs
    have htext : (text (.cls i [] none name args false)).toList =
        name.name.toList ++ (argText args).toList := by
      simp [text, qualifierText, argText]
    rw [htext, pieces, qualifierPieces, List.append_assoc]
    exact hall.word hends hname
  | @qualified _ i q name args hcls hq hname hargs ihq ih =>
    intro bs ps hspells hbs
    obtain ⟨hall, hends⟩ := spells_args (harg hargs ih) hspells hbs
    have htext : (text (.cls i [] (some q) name args false)).toList =
        q.text.toList ++ 46 :: (name.name.toList ++ (argText args).toList) := by
      have hpoint : Text.toList "." = [46] := toList_dot
      simp [text, qualifierText, argText, hpoint]
    have hname := (hall.word hends hname).opening (k := .dot) (by decide) (opensType_name hname _)
    have hall := ihq hname (Token.endsWord_cons (by decide) _)
    rw [htext, pieces, qualifierPieces]
    simpa [toList_dot] using hall
  | array he ih =>
    intro bs ps hspells hbs
    have hbrackets : Spells level (91 :: 93 :: bs) (.sign .lbracket :: .sign .rbracket :: ps) :=
      (hspells.separator (k := .rbracket) (by decide)).separator (k := .lbracket) (by decide)
    rw [text, pieces, Text.toList_append, List.append_assoc, List.append_assoc]
    exact ih hbrackets (Token.endsWord_cons (by decide) _)
  | unbounded =>
    intro bs ps hspells hbs
    exact hspells.separator (k := .question) (by decide)
  | @bounded _ b isLower hb ih =>
    intro bs ps hspells hbs
    have hbound := ((ih hspells hbs).blank (opensType_text hb bs)).keyword (k := boundWord isLower)
      (Token.endsWord_cons (by decide) _) (by cases isLower <;> decide) (by cases isLower <;> rfl)
    have hall := (hbound.blank (opensType_keyword (by cases isLower <;> decide) _)).separator
      (k := .question) (by decide)
    have htext : (text (.wildcard {} (some b) isLower)).toList = 63 :: 32 ::
        ((boundWord isLower).spelling.toList ++ 32 :: b.text.toList) := by
      rw [text, Text.toList_append, toList_boundText]
      rfl
    have hpieces : pieces (.wildcard {} (some b) isLower) =
        .sign .question :: .sign (boundWord isLower) :: b.pieces := rfl
    show Spells level ((text (.wildcard {} (some b) isLower)).toList ++ bs)
      (pieces (.wildcard {} (some b) isLower) ++ ps)
    rw [htext, hpieces]
    simpa [toList_question] using hall

/-- No letter is a backslash, and no other part of the text of a type. -/
theorem backslash_not_mem {isArg : Bool} {t : TypeNode} (h : t.Written level isArg) :
    (92 : UInt8) ∉ t.text.toList := by
  have hname {name : Text} (hname : Name.identifierFault? name level = none) :
      (92 : UInt8) ∉ name.toList := by
    obtain ⟨c, cs, rfl, hc, hcs, -⟩ := Name.eq_of_identifierFault? hname
    exact Token.backslash_not_mem
      (List.forall_mem_cons.2 ⟨Text.isLetterOrDigit_of_isLetter hc, hcs⟩)
  have hargs {args : List TypeNode} (h : ∀ a ∈ args, (92 : UInt8) ∉ a.text.toList) :
      (92 : UInt8) ∉ (argText args).toList := by
    cases args with
    | nil => simp [argText]
    | cons a as =>
      obtain ⟨ha, has⟩ := List.forall_mem_cons.1 h
      rw [toList_argText]
      simp only [List.mem_cons, List.mem_append, List.mem_flatMap, List.not_mem_nil, or_false,
        not_or, not_exists, not_and]
      exact ⟨by decide, ⟨ha, fun b hb => ⟨by decide, has b hb⟩⟩, by decide⟩
  unfold Written at h
  induction h with
  | @primitive _ _ b hk =>
    have hkeywords : ∀ k ∈ Token.keywords, (92 : UInt8) ∉ k.spelling.toList := by decide
    obtain ⟨k, hk⟩ := Option.isSome_iff_exists.1 hk
    obtain ⟨hmem, -, htext⟩ := keyword_primitive hk
    rw [text, htext]
    exact hkeywords k hmem
  | @simple _ _ name args hn _ ih =>
    have htext : (text (.cls {} [] none name args false)).toList =
        name.name.toList ++ (argText args).toList := by
      simp [text, qualifierText, argText]
    show _ ∉ (text (.cls {} [] none name args false)).toList
    rw [htext, List.mem_append, not_or]
    exact ⟨hname hn, hargs ih⟩
  | @qualified _ _ q name args _ _ hn _ ihq ih =>
    have hpoint : Text.toList "." = [46] := toList_dot
    have htext : (text (.cls {} [] (some q) name args false)).toList =
        q.text.toList ++ 46 :: (name.name.toList ++ (argText args).toList) := by
      simp [text, qualifierText, argText, hpoint]
    show _ ∉ (text (.cls {} [] (some q) name args false)).toList
    rw [htext, List.mem_append, List.mem_cons, List.mem_append, not_or, not_or, not_or]
    exact ⟨ihq, by decide, hname hn, hargs ih⟩
  | array _ ih =>
    have hbrackets : (92 : UInt8) ∉ Text.toList "[]" := by decide
    rw [text, Text.toList_append, List.mem_append, not_or]
    exact ⟨ih, hbrackets⟩
  | unbounded => exact (by decide : (92 : UInt8) ∉ Text.toList "?")
  | @bounded _ b isLower _ ih =>
    have hword : (92 : UInt8) ∉ (boundWord isLower).spelling.toList := by
      cases isLower <;> decide
    have hquestion : (92 : UInt8) ∉ Text.toList "?" := by decide
    rw [text, Text.toList_append, toList_boundText]
    simp only [List.mem_append, List.mem_cons, not_or]
    exact ⟨hquestion, by decide, hword, by decide, ih⟩

end TypeNode

namespace Parse

/-! ## The parse -/

/-- The text of a type without annotations is read back: it has no fault, and the parse of its
tokens as a type reports nothing, takes all of them and gives the same type, up to the numbers,
spans and marks of its nodes. -/
theorem type_reread (o : Options) (t : TypeNode) (h : t.Written o.level false) :
    ∃ u s, strictPhrase Grammar.type t.text o = .ok u s ∧ u.bare = t.bare ∧
      s.problems = #[] ∧ s.errorCount = 0 ∧ s.missingAtEnd = {} ∧ s.pos + 1 = s.tokens.size := by
  have hends : Token.EndsWord [] := by simp [Token.EndsWord]
  obtain ⟨xs, hlexes, hglued⟩ := (TypeNode.spells_text h spells_nil hends).lexes
  rw [List.append_nil] at hlexes
  have hscans := hlexes t.text 0 (Nat.zero_le _) List.drop_zero
  obtain ⟨htoCome, hproblems, hcount⟩ := start_of_scans (TypeNode.backslash_not_mem h) hscans
  have hahead : (start t.text o).Ahead t.pieces := by
    refine ahead_start (htoCome ▸ hglued) rfl fun p hp => ?_
    have hkind := TypeNode.kind_pieces h p hp
    exact ⟨fun heq => absurd (heq ▸ hkind) (by decide), fun heq => absurd (heq ▸ hkind) (by decide)⟩
  have htakes (n : Nat) : Takes (grammar n).type t.pieces [] (·.bare = t.bare) := by
    have htype := takesTypes_grammar n h typeFollow_nil
    rwa [List.append_nil] at htype
  obtain ⟨u, s, hrun, hu, hpass, hend⟩ := strictPhrase_takes Node.type
    (fun hg _ => (hg.type (by decide)).weak) hahead htakes
  exact ⟨u, s, hrun, hu, hpass.problems.trans hproblems, hpass.errorCount.trans hcount,
    hpass.missingAtEnd, hend⟩

/-- `Map<K, List<List<? extends T[]>>>`, whose closing brackets stand in one token. -/
def mapToLists : TypeNode :=
  .cls {} [] none ⟨{}, "Map"⟩
    [.cls {} [] none ⟨{}, "K"⟩ [] false,
      .cls {} [] none ⟨{}, "List"⟩
        [.cls {} [] none ⟨{}, "List"⟩
          [.wildcard {} (some (.array {} (.cls {} [] none ⟨{}, "T"⟩ [] false))) false] false]
        false]
    false

theorem mapToLists_written : mapToLists.Written Level.latest false := by
  have hname : ∀ name ∈ (["Map", "K", "List", "T"] : List Text),
      Name.identifierFault? name Level.latest = none :=
    Name.identifierFault?_eq_none (by decide)
  refine .simple (hname _ (by simp))
    (List.forall_mem_cons.2 ⟨.simple (hname _ (by simp)) nofun, List.forall_mem_singleton.2 ?_⟩)
  refine .simple (hname _ (by simp)) (List.forall_mem_singleton.2 ?_)
  refine .simple (hname _ (by simp)) (List.forall_mem_singleton.2 ?_)
  exact .bounded (.array (.simple (hname _ (by simp)) nofun))

/-- The text of the type ends with one token for its three closing brackets. -/
theorem type_reread_glued :
    mapToLists.text = "Map<K,List<List<? extends T[]>>>" ∧
      ∃ u s, strictPhrase Grammar.type mapToLists.text {} = .ok u s ∧ u.bare = mapToLists.bare ∧
        s.problems = #[] ∧ s.errorCount = 0 ∧ s.missingAtEnd = {} ∧ s.pos + 1 = s.tokens.size :=
  ⟨by decide, type_reread {} mapToLists mapToLists_written⟩

end Parse

end Javelin
