import Javelin.Parse.Expressions
import Javelin.Proofs.Parse.TypePhrases

/-!
# What the tests in front of an expression say

Three tests look ahead over tokens that no rule has taken yet: whether a parenthesis opens a cast,
whether a lambda starts and whether a parameterized type is referred to. What they say depends on
the token behind the closing parenthesis (`closedBefore`), which the pieces ahead tell as well as
the tokens, and which stays the same while a type is read.

1. The token behind the closing parenthesis.
2. Reading a type takes no parenthesis and leaves no trace (`Skims`).
3. The tests.
-/

namespace Javelin.Parse

/-! ## The closing parenthesis -/

/-- The token behind the parenthesis that closes the last of `depth` open ones; there is none if the
tokens end before, or a brace or a semicolon stands before. -/
def closedBefore : List Token.Kind → Nat → Option Token.Kind
  | [], _ => none
  | k :: ks, depth =>
    match k with
    | .lparen => closedBefore ks (depth + 1)
    | .rparen => if depth == 1 then some (ks.headD .eof) else closedBefore ks (depth - 1)
    | .lbrace | .rbrace | .semicolon | .eof => none
    | _ => closedBefore ks depth

/-- The tokens at which `closedBefore` does more than go on. -/
def stops : List Token.Kind := [.lparen, .rparen, .lbrace, .rbrace, .semicolon, .eof]

theorem mem_stops {k : Token.Kind} : k ∈ stops ↔ k = .lparen ∨ k = .rparen ∨ k = .lbrace ∨
    k = .rbrace ∨ k = .semicolon ∨ k = .eof := by
  simp [stops]

theorem closedBefore_cons {k : Token.Kind} (hk : k ∉ stops) (ks : List Token.Kind) (depth : Nat) :
    closedBefore (k :: ks) depth = closedBefore ks depth := by
  cases k <;> first | rfl | exact absurd (by decide) hk

/-- An end behind the last token changes nothing. -/
theorem closedBefore_end (ks : List Token.Kind) : ∀ depth,
    closedBefore (ks ++ [.eof]) depth = closedBefore ks depth := by
  induction ks with
  | nil => exact fun _ => rfl
  | cons k ks ih =>
    intro depth
    rw [List.cons_append]
    by_cases hk : k ∈ stops
    · obtain rfl | rfl | rfl | rfl | rfl | rfl := mem_stops.1 hk
      · exact ih (depth + 1)
      · show (if depth == 1 then _ else _) = (if depth == 1 then _ else _)
        split
        · cases ks <;> rfl
        · exact ih (depth - 1)
      all_goals rfl
    · rw [closedBefore_cons hk, closedBefore_cons hk, ih]

/-- The tokens that the tests in front of an expression look for. -/
def marks : List Token.Kind := .at :: .colonColon :: stops

/-- Pieces over which `closedBefore` goes without change once a parenthesis is open, and among which
neither an annotation starts nor two colons stand. -/
structure Balanced (ps : List Piece) : Prop where
  closed : ∀ (rest : List Piece) (depth : Nat),
    closedBefore ((ps ++ rest).map Piece.kind) (depth + 1) =
      closedBefore (rest.map Piece.kind) (depth + 1)
  tame : ∀ p ∈ ps, p.kind ≠ .at ∧ p.kind ≠ .colonColon

namespace Balanced

variable {ps qs : List Piece} {p : Piece} {pss : List (List Piece)}

theorem nil : Balanced [] := ⟨fun _ _ => rfl, by simp⟩

theorem append (h : Balanced ps) (h' : Balanced qs) : Balanced (ps ++ qs) where
  closed rest depth := by rw [List.append_assoc, h.closed, h'.closed]
  tame := List.forall_mem_append.2 ⟨h.tame, h'.tame⟩

theorem cons (hp : p.kind ∉ marks) (h : Balanced ps) : Balanced (p :: ps) where
  closed rest depth := by
    have hstops : p.kind ∉ stops := fun hmem =>
      hp (List.mem_cons_of_mem _ (List.mem_cons_of_mem _ hmem))
    rw [List.cons_append, List.map_cons, closedBefore_cons hstops, h.closed]
  tame := by
    refine List.forall_mem_cons.2 ⟨⟨fun heq => hp (heq ▸ by decide), fun heq => hp (heq ▸ by decide)⟩,
      h.tame⟩

theorem of_forall (h : ∀ p ∈ ps, p.kind ∉ marks) : Balanced ps := by
  induction ps with
  | nil => exact nil
  | cons p ps ih =>
    obtain ⟨hp, hps⟩ := List.forall_mem_cons.1 h
    exact cons hp (ih hps)

theorem parens (h : Balanced ps) : Balanced (.sign .lparen :: (ps ++ [Piece.sign .rparen])) where
  closed rest depth := by
    show closedBefore ((ps ++ [Piece.sign .rparen] ++ rest).map Piece.kind) (depth + 1 + 1) = _
    rw [List.append_assoc, h.closed]
    rfl
  tame := by
    simp only [List.forall_mem_cons, List.forall_mem_append]
    exact ⟨by decide, h.tame, by decide, by simp⟩

theorem separated {sep : Token.Kind} (hsep : sep ∉ marks) (h : ∀ ps ∈ pss, Balanced ps) :
    Balanced (separated sep pss) := by
  have hmore {pss : List (List Piece)} (h : ∀ ps ∈ pss, Balanced ps) :
      Balanced (eachBehind sep pss) := by
    induction pss with
    | nil => exact nil
    | cons ps pss ih =>
      obtain ⟨hps, hpss⟩ := List.forall_mem_cons.1 h
      exact cons hsep (hps.append (ih hpss))
  cases pss with
  | nil => exact nil
  | cons ps pss =>
    obtain ⟨hps, hpss⟩ := List.forall_mem_cons.1 h
    exact hps.append (hmore hpss)

theorem inParentheses (h : ∀ ps ∈ pss, Balanced ps) : Balanced (inParentheses pss) :=
  (separated (by decide) h).parens

theorem argPieces (h : ∀ ps ∈ pss, Balanced ps) : Balanced (TypeNode.argPieces pss) := by
  cases pss with
  | nil => exact nil
  | cons ps pss =>
    exact cons (by decide) ((separated (by decide) h).append (cons (by decide) nil))

theorem type {named : Text → Prop} {isArg : Bool} {t : TypeNode} (h : t.Plain named isArg) :
    Balanced t.pieces := by
  have hmarks : ∀ k ∈ TypeNode.tokenKinds, k ∉ marks := by decide
  exact of_forall fun p hp => hmarks _ (TypeNode.kind_pieces h p hp)

end Balanced

theorem headD_kinds (ps : List Piece) : (ps.map Piece.kind).headD .eof = firstKind ps := by
  cases ps <;> rfl

theorem Glued.head_beq {k : Token.Kind} (hk : k ∉ closers) {xs : List Lexeme} {ps : List Piece}
    (h : Glued xs ps) : ((xs.map Lexeme.kind).headD .eof == k) = (firstKind ps == k) := by
  have hcloser {k' : Token.Kind} (hk' : k' ∈ closers) : (k' == k) = (Token.Kind.greater == k) := by
    have hne : k' ≠ k := fun heq => hk (heq ▸ hk')
    have hne' : Token.Kind.greater ≠ k := fun heq => hk (heq ▸ by decide)
    rw [beq_eq_false_iff_ne.2 hne, beq_eq_false_iff_ne.2 hne']
  cases h with
  | nil | token => rfl
  | @close x _ _ hx _ =>
    have hx : x.kind ∈ closers := hx ▸ by decide
    exact hcloser hx
  | split hx => exact hcloser (closers_of_afterGreater? hx).1

/-- Glued together or not, the same is behind the closing parenthesis. -/
theorem Glued.closedBefore_beq {k : Token.Kind} (hk : k ∉ closers) {xs : List Lexeme}
    {ps : List Piece} (h : Glued xs ps) : ∀ depth,
    (closedBefore (xs.map Lexeme.kind) depth == some k) =
      (closedBefore (ps.map Piece.kind) depth == some k) := by
  have hskip : ∀ k ∈ .assign :: closers, k ∉ stops := by decide
  induction h with
  | nil => exact fun _ => rfl
  | @token x xs ps hrest ih =>
    intro depth
    rw [List.map_cons, List.map_cons, Piece.kind_token]
    by_cases hx : x.kind ∈ stops
    · obtain hx | hx | hx | hx | hx | hx := mem_stops.1 hx <;> rw [hx]
      · exact ih (depth + 1)
      · show ((if depth == 1 then _ else _) == _) = ((if depth == 1 then _ else _) == _)
        split
        · rw [headD_kinds]
          exact hrest.head_beq hk
        · exact ih (depth - 1)
      all_goals rfl
    · rw [closedBefore_cons hx, closedBefore_cons hx, ih]
  | @close x xs ps hx _ ih =>
    intro depth
    have hx : x.kind ∉ stops := hx ▸ by decide
    rw [List.map_cons, List.map_cons, closedBefore_cons hx, closedBefore_cons (by decide), ih]
  | @split x k' xs ps hx _ ih =>
    intro depth
    obtain ⟨hcloser, hk'⟩ := closers_of_afterGreater? hx
    have hk' : k' ∉ stops := hskip k' (List.mem_cons.2 hk'.symm)
    have hrest := ih depth
    rw [List.map_cons, closedBefore_cons hk'] at hrest
    rw [List.map_cons, List.map_cons, closedBefore_cons (hskip _ (List.mem_cons_of_mem _ hcloser)),
      closedBefore_cons (by decide), hrest]

/-- The token behind the closing parenthesis, where one is open before the current token. -/
def State.closing (s : State) : Option Token.Kind := closedBefore (s.toCome.map Lexeme.kind) 1

theorem arrowBehindParens_eq (s : State) (n : Nat) : ∀ (i depth : Nat), s.tokens.size - i = n →
    arrowBehindParens s i depth n =
      (closedBefore ((List.range n).map fun j => (s.token (i + j)).kind) depth == some .arrow) := by
  induction n with
  | zero => exact fun _ _ _ => rfl
  | succ n ih =>
    intro i depth hn
    have hlt : i < s.tokens.size := by omega
    have htail : (List.range (n + 1)).map (fun j => (s.token (i + j)).kind) =
        (s.token i).kind :: (List.range n).map fun j => (s.token (i + 1 + j)).kind := by
      rw [List.range_succ_eq_map, List.map_cons, List.map_map]
      refine congrArg _ (List.map_congr_left fun j _ => ?_)
      show (s.token (i + (j + 1))).kind = (s.token (i + 1 + j)).kind
      rw [Nat.add_comm j 1, Nat.add_assoc]
    have hnext := ih (i + 1)
    rw [htail]
    unfold arrowBehindParens
    rw [if_pos hlt]
    by_cases hstops : (s.token i).kind ∈ stops
    · obtain h | h | h | h | h | h := mem_stops.1 hstops <;> rw [h]
      · exact hnext _ (by omega)
      · show (if depth == 1 then _ else _) = ((if depth == 1 then _ else _) == _)
        split
        · cases n with
          | zero =>
            rw [decide_eq_false (by omega), Bool.false_and]
            rfl
          | succ n =>
            rw [decide_eq_true (by omega), Bool.true_and, List.range_succ_eq_map]
            rfl
        · exact hnext _ (by omega)
      all_goals rfl
    · rw [closedBefore_cons hstops, ← hnext _ (by omega)]
      generalize (s.token i).kind = k at hstops
      cases k <;> first | rfl | exact absurd (by decide) hstops

/-! ## Reading a type -/

/-- What reading a type does to a state: no parenthesis is passed. -/
structure State.Skimmed (s s' : State) : Prop where
  passes : s.Passes s'
  tame : s'.Tame
  closing : s'.closing = s.closing

/-- How a run ends that passes no parenthesis and reports nothing. -/
def State.Spared {α : Type} (s : State) : EStateM.Result Failure State α → Prop
  | .ok _ s' => s.Skimmed s'
  | .error .badSyntax s' => s.Passes s'
  | .error .exhausted _ => True

/-- A parser that, looking ahead, passes no parenthesis and reports nothing. -/
def Skims {α : Type} (pre : State → Prop) (p : Parser α) : Prop :=
  ∀ c s, c.speculating = true → s.Tame → pre s → s.Spared (p c s)

/-- No condition on the state. -/
def Anywhere (_ : State) : Prop := True

namespace State

variable {s s' s'' : State}

theorem Skimmed.refl (h : s.Tame) : s.Skimmed s := ⟨.refl, h, rfl⟩

theorem Skimmed.trans (h : s.Skimmed s') (h' : s'.Skimmed s'') : s.Skimmed s'' :=
  ⟨h.passes.trans h'.passes, h'.tame, h'.closing.trans h.closing⟩

/-- The position and the split tokens do not matter to the rest of the state. -/
theorem passes_passed : s.Passes s.passed := ⟨rfl, rfl, rfl, rfl, rfl, rfl, rfl⟩

theorem closing_passed (hlt : s.pos < s.tokens.size) (hk : s.current.kind ∉ stops) :
    s.passed.closing = s.closing := by
  rw [closing, closing, toCome_cons hlt, List.map_cons]
  exact (closedBefore_cons hk _ 1).symm

theorem toCome_of_le (h : s.tokens.size ≤ s.pos) : s.toCome = [] := by
  rw [toCome, Nat.sub_eq_zero_of_le h]
  rfl

theorem closing_splitting {t : Token} (hk : s.current.kind ∉ stops) (ht : t.kind ∉ stops) :
    (s.splitting t).closing = s.closing := by
  by_cases hlt : s.pos < s.tokens.size
  · have hsplit := toCome_splitting (t := t) (toCome_cons hlt)
    rw [closing, closing, hsplit, toCome_cons hlt, List.map_cons, List.map_cons]
    exact (closedBefore_cons ht _ 1).trans (closedBefore_cons hk _ 1).symm
  · have hle : s.tokens.size ≤ s.pos := Nat.le_of_not_lt hlt
    rw [closing, closing, toCome_of_le hle, toCome_of_le (s := s.splitting t) hle]

end State

namespace Skims

variable {α β : Type} {pre : State → Prop} {p : Parser α} {f : α → Parser β} {k : Token.Kind}

theorem bindThen {mid : State → Prop} (h : Skims pre p)
    (hmid : ∀ c s a s', pre s → p c s = .ok a s' → mid s') (hf : ∀ a, Skims mid (f a)) :
    Skims pre (p >>= f) := by
  intro c s hc hs hpre
  have hp := h c s hc hs hpre
  cases hrun : p c s with
  | ok a s' =>
    rw [hrun] at hp
    have hrest := hf a c s' hc hp.tame (hmid c s a s' hpre hrun)
    rw [bind_ok hrun]
    cases hfa : f a c s' with
    | ok b s'' =>
      rw [hfa] at hrest
      exact hp.trans hrest
    | error e s'' =>
      rw [hfa] at hrest
      cases e with
      | badSyntax => exact hp.passes.trans hrest
      | exhausted => trivial
  | error e s' =>
    rw [hrun] at hp
    rw [bind_error hrun]
    cases e with
    | badSyntax => exact hp
    | exhausted => trivial

theorem bind (h : Skims pre p) (hf : ∀ a, Skims Anywhere (f a)) : Skims pre (p >>= f) :=
  h.bindThen (fun _ _ _ _ _ _ => trivial) hf

theorem weaken {pre' : State → Prop} (h : Skims pre p) (himp : ∀ s, pre' s → pre s) :
    Skims pre' p := fun c s hc hs hpre => h c s hc hs (himp s hpre)

theorem pure {a : α} : Skims pre (pure a) := fun _ _ _ hs _ => .refl hs

theorem exhausted : Skims pre (throw .exhausted : Parser α) := fun _ _ _ _ _ => trivial

theorem ite {b : Prop} [Decidable b] {p₁ p₂ : Parser α} (yes : Skims pre p₁)
    (no : Skims pre p₂) : Skims pre (if b then p₁ else p₂) := by
  split
  · exact yes
  · exact no

theorem read (h : Reads p) (hf : ∀ a, Skims pre (f a)) : Skims pre (p >>= f) := by
  intro c s hc hs hpre
  obtain ⟨a, ha⟩ := h c s
  rw [bind_ok ha]
  exact hf a c s hc hs hpre

theorem peek {f : Token → Parser β}
    (hf : ∀ t, Skims (fun s => pre s ∧ s.current = t) (f t)) : Skims pre (Parse.peek >>= f) :=
  fun c s hc hs hpre => hf s.current c s hc hs ⟨hpre, rfl⟩

theorem check {f : Bool → Parser β} (yes : Skims (fun s => pre s ∧ s.current.kind = k) (f true))
    (no : Skims pre (f false)) : Skims pre (Parse.check k >>= f) := by
  intro c s hc hs hpre
  have hcheck : Parse.check k c s = .ok (s.current.kind == k) s := rfl
  rw [bind_ok hcheck]
  cases h : s.current.kind == k with
  | true => exact yes c s hc hs ⟨hpre, beq_iff_eq.1 h⟩
  | false => exact no c s hc hs hpre

/-- No annotation stands anywhere. -/
theorem checkAt {f : Bool → Parser β} (h : Skims pre (f false)) :
    Skims pre (Parse.check .at >>= f) := by
  intro c s hc hs hpre
  have hcheck : Parse.check .at c s = .ok false s :=
    congrArg (EStateM.Result.ok · s) (beq_eq_false_iff_ne.2 (hs s.pos).1)
  rw [bind_ok hcheck]
  exact h c s hc hs hpre

theorem advance_eq (c : Context) (s : State) : Parse.advance c s =
    .ok s.current (if s.pos + 1 < s.tokens.size then s.passed else s) := by
  show (if s.pos + 1 < s.tokens.size then _ else _ : Parser Token) c s = _
  split <;> rfl

theorem advance (h : ∀ s, pre s → s.current.kind ∉ stops) : Skims pre Parse.advance := by
  intro c s hc hs hpre
  rw [advance_eq]
  split
  · exact ⟨State.passes_passed, hs, State.closing_passed (by omega) (h s hpre)⟩
  · exact .refl hs

theorem accept (hk : k ∉ stops) : Skims pre (Parse.accept k) :=
  .check (.bind (.advance fun _ h => h.2 ▸ hk) fun _ => .pure) .pure

theorem fail_run {c : Context} {s : State} (hc : c.speculating = true) (expected : Text) :
    (Parse.fail expected : Parser α) c s = .error .badSyntax s := by
  have hreport : reportSyntax s.current expected c s = .ok () s := by
    unfold reportSyntax
    rw [bind_read, hc]
    rfl
  unfold Parse.fail
  rw [bind_ok (p := Parse.peek) (a := s.current) rfl, bind_ok hreport]
  rfl

theorem fail {expected : Text} : Skims pre (Parse.fail expected : Parser α) := by
  intro c s hc _ _
  rw [fail_run hc]
  exact State.Passes.refl

theorem failed {expected : Text} : Skims pre (Parse.fail expected >>= f) := by
  intro c s hc _ _
  rw [bind_error (fail_run hc expected)]
  exact State.Passes.refl

theorem expect (hk : k ∉ stops) : Skims pre (expect_ k) :=
  .bind (.check (.advance fun _ h => h.2 ▸ hk) .fail) fun _ => .pure

theorem newInfo (span : Span) : Skims pre (newInfo span) :=
  fun _ _ _ hs _ => ⟨⟨rfl, rfl, rfl, rfl, rfl, rfl, rfl⟩, hs, rfl⟩

theorem infoFrom (start : Position) : Skims pre (infoFrom start) :=
  .read (reads_spanFrom start) fun span => .newInfo span

theorem ident : Skims pre ident := by
  refine .peek fun t => ?_
  by_cases ht : t.kind = .identifier
  · rw [ht, if_neg (by decide)]
    refine .bind (.advance fun s hs => ?_) fun _ => .bind (.newInfo _) fun _ => .pure
    rw [hs.2, ht]
    decide
  · rw [if_pos (by simpa using ht)]
    exact .failed

theorem expectGreater : Skims pre expectGreater := by
  have hskip : ∀ k ∈ .assign :: closers, k ∉ stops := by decide
  intro c s hc hs _
  by_cases hk : s.current.kind = .greater
  · rw [expectGreater_whole hk]
    have hwhole : Skims (fun s => s.current.kind = .greater) Parse.advance :=
      .advance fun s hs => hs ▸ by decide
    exact hwhole.bind (fun _ => .pure) c s hc hs hk
  · cases hafter : afterGreater? s.current.kind with
    | some k' =>
      obtain ⟨hcloser, hk'⟩ := closers_of_afterGreater? hafter
      rw [expectGreater_part hafter]
      exact ⟨⟨rfl, rfl, rfl, rfl, rfl, rfl, rfl⟩, hs.splitting hafter, State.closing_splitting
        (hskip _ (List.mem_cons_of_mem _ hcloser)) (hskip k' (List.mem_cons.2 hk'.symm))⟩
    | none =>
      have hrun : Parse.expectGreater c s = (Parse.fail ">" : Parser Unit) c s := by
        unfold Parse.expectGreater
        rw [bind_ok (p := Parse.peek) (a := s.current) rfl, if_neg (by simpa using hk)]
        simp only [hafter]
      rw [hrun, fail_run hc]
      exact State.Passes.refl

theorem repeated {step : Parser (Option α)} (h : Skims Anywhere step) (fuel : Nat) :
    ∀ acc : Array α, Skims Anywhere (repeated step acc fuel) := by
  induction fuel with
  | zero => exact fun _ => .exhausted
  | succ fuel ih =>
    intro acc
    unfold Parse.repeated
    refine .bind h fun o => ?_
    cases o with
    | some a => exact ih _
    | none => exact .pure

theorem moreSeparated (hk : k ∉ stops) (h : Skims Anywhere p) :
    Skims Anywhere (moreSeparated k p) :=
  .read (fun _ s => ⟨s.tokens.size - s.pos + 1, rfl⟩) fun fuel =>
    .repeated (.bind (.accept hk) fun _ => .ite (.bind h fun _ => .pure) .pure) fuel #[]

theorem commaSeparated (h : Skims Anywhere p) : Skims Anywhere (commaSeparated p) :=
  .bind h fun _ => .bind (.moreSeparated (by decide) h) fun _ => .pure

end Skims

section

variable {g : Grammar} {pre : State → Prop}

theorem skims_annotsHere : Skims pre (annotsHere g) := by
  refine .read (fun _ s => ⟨s.tokens.size - s.pos + 1, rfl⟩) fun fuel => ?_
  cases fuel with
  | zero => exact .exhausted
  | succ fuel =>
    intro c s hc hs hpre
    have hstep : (do if ← check .at then return some (← g.annot) else return none :
        Parser (Option Annot)) c s = .ok none s :=
      congrArg (fun b => (if b = true then _ else _ : Parser (Option Annot)) c s)
        (beq_eq_false_iff_ne.2 (hs s.pos).1)
    unfold repeated
    rw [bind_ok hstep]
    exact .refl hs

theorem skims_skipBrackets : Skims (fun s => s.current.kind = .lbracket ∧
    (s.token (s.pos + 1)).kind = .rbracket) skipBrackets := by
  have hadvance : Skims (fun s => s.current.kind ∉ stops) advance := .advance fun _ => id
  refine .bindThen (hadvance.weaken fun s hs => hs.1 ▸ by decide) (fun c s t s' hs hrun => ?_)
    fun _ => .bind hadvance fun _ => .pure
  rw [Skims.advance_eq] at hrun
  cases hrun
  split
  · show (s.token (s.pos + 1)).kind ∉ stops
    rw [hs.2]
    decide
  · rw [hs.1]
    decide

theorem skims_dimension : Skims pre (dimension g) := by
  unfold dimension
  refine .checkAt ?_
  rw [if_neg Bool.false_ne_true]
  intro c s hc hs _
  have hbrackets : emptyBrackets c s = .ok (s.current.kind == .lbracket &&
      (s.token (s.pos + 1)).kind == .rbracket) s := rfl
  show s.Spared ((emptyBrackets >>= fun b => if b = true then skipBrackets >>= fun _ => pure true
    else pure false : Parser Bool) c s)
  rw [bind_ok hbrackets]
  split
  next h =>
    obtain ⟨hopen, hclose⟩ := Bool.and_eq_true_iff.1 h
    exact (skims_skipBrackets.bind fun _ => .pure) c s hc hs
      ⟨beq_iff_eq.1 hopen, beq_iff_eq.1 hclose⟩
  next => exact .refl hs

theorem skims_dimensions (t : TypeNode) : Skims pre (dimensions g t) := by
  have hfrom (fuel : Nat) : ∀ (pre : State → Prop) (t : TypeNode),
      Skims pre (dimensionsOf g t fuel) := by
    induction fuel with
    | zero => exact fun _ _ => .exhausted
    | succ fuel ih =>
      intro pre t
      unfold dimensionsOf
      refine .bind skims_dimension fun _ => .ite ?_ .pure
      exact .read reads_get fun _ => .bind (.newInfo _) fun _ => ih _ _
  exact .read (fun _ s => ⟨s.tokens.size - s.pos + 1, rfl⟩) fun fuel => hfrom fuel pre t

variable (hg : Skims Anywhere g.type)

include hg

theorem skims_typeArg : Skims pre (typeArg g) := by
  have haccept {pre : State → Prop} {k : Token.Kind} (hk : k ∉ stops) : Skims pre (accept k) :=
    .accept hk
  have hend {start : Position} (bound : Option TypeNode) (isLower : Bool) :
      Skims Anywhere (do return TypeNode.wildcard (← infoFrom start) bound isLower) :=
    .bind (.infoFrom start) fun _ => .pure
  refine .read reads_startPos fun start => .bind skims_annotsHere fun _ => ?_
  refine .bind (haccept (by decide)) fun _ => .ite ?_ (hg.weaken fun _ _ => trivial)
  refine .bind (haccept (by decide)) fun _ => .ite (.bind hg fun u => hend _ _) ?_
  exact .bind (haccept (by decide)) fun _ => .ite (.bind hg fun u => hend _ _) (hend _ _)

theorem skims_typeArgs : Skims pre (typeArgs g false) := by
  refine .bind (.expect (by decide)) fun _ => .read (reads_check _) fun _ => ?_
  rw [Bool.false_and, if_neg Bool.false_ne_true]
  exact .bind (.commaSeparated (skims_typeArg hg)) fun _ => .bind .expectGreater fun _ => .pure

theorem skims_classTypeFrom (start : Position) (fuel : Nat) : ∀ (pre : State → Prop)
    (q : Option TypeNode), Skims pre (classTypeFrom g false start q fuel) := by
  induction fuel with
  | zero => exact fun _ _ => .exhausted
  | succ fuel ih =>
    intro pre q
    have hmore (t : TypeNode) : Skims Anywhere (moreSegments g false start t fuel) := by
      refine .check ?_ (.read (reads_checkAt _ _) fun _ => .read (reads_checkAt _ _) fun _ => ?_)
      · refine .read (reads_checkAt _ _) fun _ => .read (reads_checkAt _ _) fun _ => .ite ?_ .pure
        exact .bind (.advance fun s hs => hs.2 ▸ by decide) fun _ => ih _ _
      · rw [Bool.false_and, if_neg Bool.false_ne_true]
        exact .pure
    have hend (annots : List Annot) (name : Ident) (args : List TypeNode) (diamond : Bool) :
        Skims Anywhere (do
          let i ← infoFrom start
          moreSegments g false start (.cls i annots q name args diamond) fuel) :=
      .bind (.infoFrom start) fun _ => hmore _
    unfold classTypeFrom
    refine .bind skims_annotsHere fun annots => .bind .ident fun name => ?_
    refine .read (reads_check _) fun _ => ?_
    exact .ite (.bind (skims_typeArgs hg) fun x => hend annots name x.1 x.2)
      (hend annots name [] false)

theorem skims_typeRule : Skims pre (typeRule g) := by
  refine .bind skims_annotsHere fun annots => .peek fun t => ?_
  cases hk : primitiveOf? t.kind with
  | some p =>
    have hstops : t.kind ∉ stops := by
      intro hmem
      obtain h | h | h | h | h | h := mem_stops.1 hmem <;> rw [h] at hk <;> cases hk
    exact .bind (.advance fun s hs => hs.2 ▸ hstops) fun _ => .bind (.newInfo _) fun _ =>
      skims_dimensions _
  | none =>
    have hclass : Skims (fun s => Anywhere s ∧ s.current = t) (classType g false) :=
      .read reads_startPos fun start => .read (fun _ s => ⟨s.tokens.size - s.pos + 1, rfl⟩)
        fun fuel => skims_classTypeFrom hg start fuel _ _
    exact .bind hclass fun _ => skims_dimensions _

omit hg

theorem skims_grammar (n : Nat) : Skims Anywhere (grammar n).type := by
  induction n with
  | zero => exact .exhausted
  | succ n ih => exact skims_typeRule ih

end

/-! ## The tests -/

/-- The token behind the closing parenthesis, where one is open before the pieces. -/
def closingOf (ps : List Piece) : Option Token.Kind := closedBefore (ps.map Piece.kind) 1

theorem Balanced.closingOf {ps : List Piece} (h : Balanced ps) (rest : List Piece) :
    closingOf (ps ++ .sign .rparen :: rest) = some (firstKind rest) := by
  rw [Parse.closingOf, h.closed]
  exact congrArg some (headD_kinds rest)

theorem State.Ahead.closedBefore_beq {s : State} {here : List Piece} {k : Token.Kind}
    (hk : k ∉ closers) (h : s.Ahead here) (depth : Nat) :
    (closedBefore (s.toCome.map Lexeme.kind) depth == some k) =
      (closedBefore (here.map Piece.kind) depth == some k) := by
  obtain ⟨-, e, he, hglued⟩ := h
  rw [hglued.closedBefore_beq hk, List.map_append, List.map_singleton, Piece.kind_token, he,
    closedBefore_end]

/-- Whether the pieces start with what starts a lambda. -/
def opensLambda (ps : List Piece) : Bool :=
  match firstKind ps with
  | .identifier => firstKind ps.tail == .arrow
  | .lparen => closingOf ps.tail == some .arrow
  | _ => false

/-- A parenthesis opens the parameters of a lambda if an arrow stands behind it. -/
theorem Balanced.opensLambda {ps : List Piece} (h : Balanced ps) (rest : List Piece) :
    opensLambda (.sign .lparen :: (ps ++ .sign .rparen :: rest)) = (firstKind rest == .arrow) := by
  show (Parse.closingOf (ps ++ .sign .rparen :: rest) == some .arrow) = _
  rw [h.closingOf]
  rfl

theorem opensLambda_other {ps : List Piece} (hname : firstKind ps ≠ .identifier)
    (hopen : firstKind ps ≠ .lparen) : opensLambda ps = false := by
  unfold opensLambda
  generalize firstKind ps = k at hname hopen
  cases k <;> first | rfl | exact absurd rfl hname | exact absurd rfl hopen

theorem isLambdaStart_other {c : Context} {s : State} (hname : s.current.kind ≠ .identifier)
    (hopen : s.current.kind ≠ .lparen) : isLambdaStart c s = .ok false s := by
  unfold isLambdaStart
  rw [bind_get]
  generalize s.current.kind = k at hname hopen
  cases k <;> first | rfl | exact absurd rfl hname | exact absurd rfl hopen

theorem arrowBehindParens_toCome (s : State) (depth : Nat) :
    arrowBehindParens s s.pos depth (s.tokens.size - s.pos) =
      (closedBefore (s.toCome.map Lexeme.kind) depth == some .arrow) := by
  rw [arrowBehindParens_eq s _ s.pos depth rfl, State.toCome, List.map_map]
  rfl

theorem State.Ahead.isLambdaStart {c : Context} {s : State} {here : List Piece} (h : s.Ahead here) :
    Parse.isLambdaStart c s = .ok (opensLambda here) s := by
  have hshows := h.shows
  by_cases hkind : firstKind here = .identifier ∨ firstKind here = .lparen
  · have hclosers : firstKind here ∉ closers := by
      obtain hk | hk := hkind <;> rw [hk] <;> decide
    have hcurrent := hshows.kind_eq hclosers
    match here, h with
    | .token x :: here, h =>
      have hcurrent : s.current.kind = x.kind := hcurrent
      unfold Parse.isLambdaStart opensLambda
      rw [bind_get, hcurrent, firstKind_cons, Piece.kind_token, List.tail_cons]
      obtain hx | hx : x.kind = .identifier ∨ x.kind = .lparen := hkind
      · rw [hx]
        exact congrArg (EStateM.Result.ok · s) (h.shows_next.kind_beq (by decide))
      · have hscan : arrowBehindParens s s.pos 0 (s.tokens.size - s.pos) =
            (closingOf here == some .arrow) := by
          rw [arrowBehindParens_toCome, h.closedBefore_beq (by decide), List.map_cons,
            Piece.kind_token, hx]
          rfl
        rw [hx]
        exact congrArg (EStateM.Result.ok · s) hscan
  · obtain ⟨hname, hopen⟩ := not_or.1 hkind
    rw [opensLambda_other hname hopen]
    refine isLambdaStart_other (fun heq => hname ?_) (fun heq => hopen ?_)
    · exact beq_iff_eq.1 ((hshows.kind_beq (by decide)).symm.trans (beq_iff_eq.2 heq))
    · exact beq_iff_eq.1 ((hshows.kind_beq (by decide)).symm.trans (beq_iff_eq.2 heq))

section

variable {g : Grammar} {here there : List Piece} {β : Type} {f : Bool → Parser β} {Q : β → Prop}

theorem Takes.isLambdaStart (h : Takes (f (opensLambda here)) here there Q) :
    Takes (isLambdaStart >>= f) here there Q :=
  .known (fun _ _ hs => hs.isLambdaStart) h

theorem State.Passes.missed {s s' : State} {r : EStateM.Result Failure State β} (h : s.Passes s')
    (hr : s'.Missed r) : s.Missed r := by
  match r, hr with
  | .error .badSyntax _, hr => exact h.trans hr
  | .error .exhausted _, _ => trivial

theorem Skims.missed {α : Type} {p : Parser α} {f : α → Parser β} {c : Context} {s : State}
    (h : Skims Anywhere p) (hc : c.speculating = true) (hs : s.Tame)
    (hf : ∀ a s', s.Skimmed s' → s'.Missed (f a c s')) : s.Missed ((p >>= f) c s) := by
  have hp := h c s hc hs trivial
  cases hrun : p c s with
  | error e s' =>
    rw [hrun] at hp
    rw [bind_error hrun]
    cases e with
    | badSyntax => exact hp
    | exhausted => trivial
  | ok a s' =>
    rw [hrun] at hp
    rw [bind_ok hrun]
    exact hp.passes.missed (hf a s' hp)

theorem expect_fails {c : Context} {s : State} {k : Token.Kind} (hc : c.speculating = true)
    (hk : s.current.kind ≠ k) : expect_ k c s = .error .badSyntax s := by
  have hcheck : check k c s = .ok false s :=
    congrArg (EStateM.Result.ok · s) (beq_eq_false_iff_ne.2 hk)
  have hexpect : expect k c s = .error .badSyntax s := by
    unfold expect
    rw [bind_ok hcheck, if_neg Bool.false_ne_true, Skims.fail_run hc]
  exact bind_error hexpect

variable (hg : Skims Anywhere g.type)

include hg

/-- Nothing is referred to behind two colons. -/
theorem misses_genericTypeRef : Misses (do
    let _ ← g.type
    expect_ .colonColon) here := by
  intro c s hc hs
  refine hg.missed hc hs.1 fun _ s' hs' => ?_
  rw [expect_fails hc (hs'.tame s'.pos).2]
  exact State.Passes.refl

theorem Takes.isGenericTypeRef (h : Takes (f false) here there Q) :
    Takes (isGenericTypeRef g >>= f) here there Q :=
  .lookaheadNo (misses_genericTypeRef hg) h

/-- What a test for casts asks behind the types. -/
def castEnd : Parser Unit := do
  expect_ .rparen
  if !(← checkAny operandStarts) && !(← isLambdaStart) then fail "Expression"

omit hg

theorem missed_castEnd {c : Context} {s : State} (hc : c.speculating = true)
    (hbehind : ∀ k ∈ operandStarts, s.closing ≠ some k) : s.Missed (castEnd c s) := by
  by_cases hk : s.current.kind = .rparen
  · have hexpect : expect_ .rparen c s =
        .ok () (if s.pos + 1 < s.tokens.size then s.passed else s) := by
      have hcheck : check .rparen c s = .ok true s :=
        congrArg (EStateM.Result.ok · s) (beq_iff_eq.2 hk)
      have hrun : expect .rparen c s =
          .ok s.current (if s.pos + 1 < s.tokens.size then s.passed else s) := by
        unfold expect
        rw [bind_ok hcheck, if_pos rfl, Skims.advance_eq]
      exact bind_ok hrun
    have hpass : s.Passes (if s.pos + 1 < s.tokens.size then s.passed else s) := by
      split
      · exact State.passes_passed
      · exact .refl
    have hstart : (if s.pos + 1 < s.tokens.size then s.passed else s).current.kind ∉
        operandStarts := by
      split
      next hlt =>
        intro hmem
        refine hbehind _ hmem ?_
        rw [State.closing, State.toCome_cons (by omega), State.toCome_cons (s := s.passed) hlt,
          List.map_cons, List.map_cons]
        show closedBefore (s.current.kind :: _) 1 = _
        rw [hk]
        rfl
      next => exact hk ▸ by decide
    unfold castEnd
    rw [bind_ok hexpect]
    generalize (if s.pos + 1 < s.tokens.size then s.passed else s) = s' at hpass hstart
    have hcheck : checkAny operandStarts c s' = .ok false s' :=
      congrArg (EStateM.Result.ok · s') (by simpa using hstart)
    have hlambda : isLambdaStart c s' = .ok false s' :=
      isLambdaStart_other (fun heq => hstart (heq ▸ by decide))
        fun heq => hstart (heq ▸ by decide)
    rw [bind_ok hcheck, bind_ok hlambda, if_pos (by rfl), Skims.fail_run hc]
    exact hpass
  · unfold castEnd
    rw [bind_error (expect_fails hc hk)]
    exact State.Passes.refl

include hg

/-- What stands behind the parenthesis does not go on a cast. -/
theorem misses_cast (hbehind : ∀ k ∈ operandStarts, closingOf here ≠ some k) : Misses (do
    let _ ← advance
    let _ ← g.type
    let _ ← moreSeparated .amp g.type
    castEnd) (.sign .lparen :: here) := by
  intro c s hc hs
  have hclosers : ∀ k ∈ operandStarts, k ∉ closers := by decide
  obtain ⟨hadvance, hpassed⟩ := hs.advance c
  rw [bind_ok hadvance]
  refine State.passes_passed.missed (hg.missed hc hpassed.1 fun _ s' hs' => ?_)
  refine (Skims.moreSeparated (by decide) hg).missed hc hs'.tame fun _ s'' hs'' => ?_
  refine missed_castEnd hc fun k hk heq => hbehind k hk (beq_iff_eq.1 ?_)
  rw [closingOf, ← hpassed.closedBefore_beq (hclosers k hk), beq_iff_eq]
  exact (hs''.closing.trans hs'.closing).symm.trans heq

theorem Takes.isCastNo (hnext : primitiveOf? (firstKind here) = none)
    (hbehind : ∀ k ∈ operandStarts, closingOf here ≠ some k)
    (h : Takes (f false) (.sign .lparen :: here) there Q) :
    Takes (isCast g >>= f) (.sign .lparen :: here) there Q := by
  suffices hno : Takes (isCast g) (.sign .lparen :: here) (.sign .lparen :: here) (· = false) from
    hno.bind fun _ hb => hb ▸ h
  refine .peekNext fun t ht => ?_
  have hprimitive : primitiveOf? t.kind = none := by
    by_contra hne
    have hclosers : t.kind ∉ closers := by
      intro hmem
      have hnone : ∀ k ∈ closers, primitiveOf? k = none := by decide
      exact hne (hnone _ hmem)
    have hkind : firstKind here = t.kind :=
      beq_iff_eq.1 ((ht.kind_beq hclosers).symm.trans (beq_self_eq_true _))
    exact hne (hkind ▸ hnext)
  show Takes (if (primitiveOf? t.kind).isSome = true then _ else _) _ _ _
  rw [hprimitive, if_neg (by simp)]
  refine .ite (fun _ => ?_) fun _ => .pure rfl
  have hmiss : Takes (lookahead _ >>= Pure.pure) (.sign .lparen :: here) (.sign .lparen :: here)
      (· = false) := .lookaheadNo (misses_cast hg hbehind) (.pure rfl)
  rwa [bind_pure] at hmiss

omit hg

variable {rest : List Piece} {named : Text → Prop}

theorem typeFollow_rparen : typeFollow (.sign .rparen :: rest) := by simp [typeFollow]

/-- Where a primitive type starts, one type in parentheses is enough. -/
theorem Takes.isCastPrimitive (hg : TakesTypes g) {t : TypeNode} (ht : t.Plain named false)
    (hnext : (primitiveOf? (firstKind (t.pieces ++ .sign .rparen :: rest))).isSome)
    (h : Takes (f true) (.sign .lparen :: (t.pieces ++ .sign .rparen :: rest)) there Q) :
    Takes (isCast g >>= f) (.sign .lparen :: (t.pieces ++ .sign .rparen :: rest)) there Q := by
  have htest : Takes (do
      let _ ← Parse.advance
      let _ ← g.type
      expect_ .rparen) (.sign .lparen :: (t.pieces ++ .sign .rparen :: rest)) rest fun _ => True :=
    .bind .advance fun _ _ => .bind (hg ht typeFollow_rparen) fun _ _ => .expect (by decide) rfl
  suffices hyes : Takes (isCast g) (.sign .lparen :: (t.pieces ++ .sign .rparen :: rest))
      (.sign .lparen :: (t.pieces ++ .sign .rparen :: rest)) (· = true) from
    hyes.bind fun _ hb => hb ▸ h
  refine .peekNext fun x hx => ?_
  have hkind : x.kind = firstKind (t.pieces ++ .sign .rparen :: rest) := by
    refine hx.kind_eq fun hmem => ?_
    have hnone : ∀ k ∈ closers, primitiveOf? k = none := by decide
    rw [hnone _ hmem] at hnext
    cases hnext
  show Takes (if (primitiveOf? x.kind).isSome = true then _ else _) _ _ _
  rw [hkind, if_pos hnext]
  have hlook := Takes.lookaheadYes (Q := (· = true)) htest (.pure (a := true) rfl)
  rwa [bind_pure] at hlook

/-- The types of a cast. -/
def boundsPieces (ts : List TypeNode) : List Piece := separated .amp (ts.map TypeNode.pieces)

theorem lets_bounds (ps : List Piece) : Lets typeFollow .amp (.sign .rparen :: ps) :=
  ⟨typeFollow_rparen, fun _ => by simp [typeFollow]⟩

/-- The types between the parentheses of a cast. -/
theorem takes_bounds (hg : TakesTypes g) {t : TypeNode} {ts : List TypeNode}
    (ht : t.Plain named false) (hts : ∀ u ∈ ts, u.Plain named false) {α : Type}
    {k : TypeNode → List TypeNode → Parser α} {P : α → Prop}
    (hk : ∀ u us, u.bare = t.bare → us.map TypeNode.bare = ts.map TypeNode.bare →
      Takes (k u us) (.sign .rparen :: rest) there P) :
    Takes (do
      let u ← g.type
      let us ← moreSeparated .amp g.type
      k u us) (boundsPieces (t :: ts) ++ .sign .rparen :: rest) there P := by
  have hlets := lets_bounds rest
  have hfollow : typeFollow (Parse.eachBehind .amp (ts.map TypeNode.pieces) ++
      .sign .rparen :: rest) := by
    cases ts with
    | nil => exact hlets.behind
    | cons u us => exact hlets.between _
  rw [boundsPieces, List.map_cons, separated, List.append_assoc]
  refine .bind (hg ht hfollow) fun u hu => ?_
  exact .bind (.moreSeparated (by decide) (by simp) hlets ts fun v hv rest hrest =>
    hg (hts v hv) hrest) fun us hus => hk u us hu hus

/-- Where a class type starts, an operand must follow the parentheses. -/
theorem Takes.isCastReference (hg : TakesTypes g) {t : TypeNode} {ts : List TypeNode}
    (ht : t.Plain named false) (hts : ∀ u ∈ ts, u.Plain named false)
    (hnext : firstKind (boundsPieces (t :: ts) ++ .sign .rparen :: rest) = .identifier)
    (hrest : firstKind rest ∈ operandStarts)
    (h : Takes (f true) (.sign .lparen :: (boundsPieces (t :: ts) ++ .sign .rparen :: rest))
      there Q) :
    Takes (isCast g >>= f) (.sign .lparen :: (boundsPieces (t :: ts) ++ .sign .rparen :: rest))
      there Q := by
  have hclosers : ∀ k ∈ operandStarts, k ∉ closers := by decide
  have hend : Takes castEnd (.sign .rparen :: rest) rest fun _ => True := by
    refine .bind (.expect (by decide) rfl) fun _ _ => ?_
    refine .known (a := true) (fun c s hs => ?_) (.isLambdaStart ?_)
    · have hkind := hs.shows.kind_eq (hclosers _ hrest)
      exact congrArg (EStateM.Result.ok · s) (by simpa [hkind] using hrest)
    · rw [if_neg (by simp)]
      exact .pure trivial
  have htest : Takes (do
      let _ ← Parse.advance
      let _ ← g.type
      let _ ← Parse.moreSeparated .amp g.type
      castEnd) (.sign .lparen :: (boundsPieces (t :: ts) ++ .sign .rparen :: rest)) rest
      fun _ => True :=
    .bind .advance fun _ _ => takes_bounds hg ht hts fun _ _ _ _ => hend
  suffices hyes : Takes (isCast g)
      (.sign .lparen :: (boundsPieces (t :: ts) ++ .sign .rparen :: rest))
      (.sign .lparen :: (boundsPieces (t :: ts) ++ .sign .rparen :: rest)) (· = true) from
    hyes.bind fun _ hb => hb ▸ h
  refine .peekNext fun x hx => ?_
  have hkind : x.kind = .identifier := hnext ▸ hx.kind_eq (hnext ▸ by decide)
  show Takes (if (primitiveOf? x.kind).isSome = true then _ else _) _ _ _
  rw [hkind, if_neg (by decide), if_pos (by rfl)]
  have hlook := Takes.lookaheadYes (Q := (· = true)) htest (.pure (a := true) rfl)
  rwa [bind_pure] at hlook

end

end Javelin.Parse
