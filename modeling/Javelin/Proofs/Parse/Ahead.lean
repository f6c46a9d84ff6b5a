import Javelin.Proofs.Parse.Moves

/-!
# The tokens ahead of a parser

What a phrase is written with is a list of pieces: tokens, and closing angle brackets, of which
several may stand in one token, perhaps in front of a sign that goes on (`Glued`). A state has a
list of pieces ahead when its tokens to come are glued together from them.

A parser takes a phrase when it walks from a state with the pieces of the phrase ahead to a state
with what stood behind them, and leaves everything else as it was (`Takes`). Nothing is said about
the number of steps: a parser may always give up because they are exhausted, and that this does not
happen is shown elsewhere.

1. Pieces, and how they are glued together.
2. States with pieces ahead.
3. `Takes`, and how it composes.
4. Tokens, lists and looking ahead.
-/

namespace Javelin.Parse

/-! ## Pieces -/

/-- What a parser reads of a token: its kind and its text. -/
structure Lexeme where
  kind : Token.Kind
  text : Text

def lexeme (t : Token) : Lexeme := ⟨t.kind, t.literal⟩

/-- A part of a written phrase. -/
inductive Piece where
  | token (x : Lexeme)
  /-- A closing angle bracket. -/
  | close

namespace Piece

/-- A keyword, an operator or a separator. -/
def sign (k : Token.Kind) : Piece := .token ⟨k, k.spelling⟩

/-- An identifier. -/
def word (name : Text) : Piece := .token ⟨.identifier, name⟩

def kind : Piece → Token.Kind
  | .token x => x.kind
  | .close => .greater

@[simp]
theorem kind_token (x : Lexeme) : (Piece.token x).kind = x.kind := rfl

@[simp]
theorem kind_sign (k : Token.Kind) : (sign k).kind = k := rfl

@[simp]
theorem kind_close : Piece.close.kind = .greater := rfl

end Piece

/-- The kind of the first piece; behind the last one stands the end. -/
def firstKind : List Piece → Token.Kind
  | [] => .eof
  | p :: _ => p.kind

@[simp]
theorem firstKind_nil : firstKind [] = .eof := rfl

@[simp]
theorem firstKind_cons (p : Piece) (ps : List Piece) : firstKind (p :: ps) = p.kind := rfl

theorem firstKind_append {ps qs : List Piece} (h : ps ≠ []) :
    firstKind (ps ++ qs) = firstKind ps := by
  cases ps with
  | nil => exact absurd rfl h
  | cons p ps => rfl

/-- The kinds of tokens that start with a closing angle bracket. -/
def closers : List Token.Kind :=
  [.greater, .shiftRight, .shiftRightZero, .greaterEq, .shiftRightAssign, .shiftRightZeroAssign]

theorem closers_of_afterGreater? {k k' : Token.Kind} (h : afterGreater? k = some k') :
    k ∈ closers ∧ (k' ∈ closers ∨ k' = .assign) := by
  unfold afterGreater? at h
  split at h <;> cases h <;> decide

/-- The tokens that pieces are written with. -/
inductive Glued : List Lexeme → List Piece → Prop
  | nil : Glued [] []
  | token {x : Lexeme} {xs : List Lexeme} {ps : List Piece} : Glued xs ps →
      Glued (x :: xs) (.token x :: ps)
  | close {x : Lexeme} {xs : List Lexeme} {ps : List Piece} : x.kind = .greater → Glued xs ps →
      Glued (x :: xs) (.close :: ps)
  /-- A bracket that is glued to what follows it. -/
  | split {x : Lexeme} {k : Token.Kind} {xs : List Lexeme} {ps : List Piece} :
      afterGreater? x.kind = some k → Glued (⟨k, x.text.drop 1⟩ :: xs) ps →
      Glued (x :: xs) (.close :: ps)

/-- What the token in front of pieces is like. -/
def Shows (t : Token) : List Piece → Prop
  | [] => t.kind = .eof
  | .token x :: _ => lexeme t = x
  | .close :: _ => t.kind ∈ closers

theorem Shows.kind_beq {t : Token} {here : List Piece} {k : Token.Kind} (hk : k ∉ closers)
    (h : Shows t here) : (t.kind == k) = (firstKind here == k) := by
  match here, h with
  | [], h => rw [firstKind_nil, show t.kind = .eof from h]
  | .token x :: _, h => rw [firstKind_cons, Piece.kind_token, ← show lexeme t = x from h]; rfl
  | .close :: _, h =>
    have hne : t.kind ≠ k := fun heq => hk (heq ▸ (show t.kind ∈ closers from h))
    have hne' : Token.Kind.greater ≠ k := fun heq => hk (heq ▸ by decide)
    rw [firstKind_cons, Piece.kind_close, beq_eq_false_iff_ne.2 hne, beq_eq_false_iff_ne.2 hne']

theorem Shows.kind_eq {t : Token} {here : List Piece} (h : Shows t here)
    (hk : firstKind here ∉ closers) : t.kind = firstKind here :=
  beq_iff_eq.1 ((h.kind_beq hk).trans (beq_self_eq_true _))

/-! ## States with pieces ahead -/

namespace State

/-- The tokens from the current one on. -/
def toCome (s : State) : List Lexeme :=
  (List.range (s.tokens.size - s.pos)).map fun i => lexeme (s.token (s.pos + i))

/-- No annotation starts in the tokens, and nothing is referred to behind two colons. -/
def Tame (s : State) : Prop := ∀ i, (s.token i).kind ≠ .at ∧ (s.token i).kind ≠ .colonColon

/-- The pieces ahead, up to the end of the tokens. -/
def Ahead (s : State) (ps : List Piece) : Prop :=
  s.Tame ∧ ∃ e, e.kind = .eof ∧ Glued s.toCome (ps ++ [.token e])

/-- What a phrase leaves as it is: nothing is reported and no draft is opened or closed. -/
structure Passes (s s' : State) : Prop where
  lexer : s'.lexer = s.lexer
  tokens : s'.tokens = s.tokens
  drafts : s'.drafts = s.drafts
  problems : s'.problems = s.problems
  errorCount : s'.errorCount = s.errorCount
  lastError : s'.lastError = s.lastError
  missingAtEnd : s'.missingAtEnd = s.missingAtEnd

variable {s s' s'' : State}

theorem Passes.refl : s.Passes s := ⟨rfl, rfl, rfl, rfl, rfl, rfl, rfl⟩

theorem Passes.trans (h : s.Passes s') (h' : s'.Passes s'') : s.Passes s'' :=
  ⟨h'.lexer.trans h.lexer, h'.tokens.trans h.tokens, h'.drafts.trans h.drafts,
    h'.problems.trans h.problems, h'.errorCount.trans h.errorCount, h'.lastError.trans h.lastError,
    h'.missingAtEnd.trans h.missingAtEnd⟩

theorem pos_lt_of_toCome {x : Lexeme} {xs : List Lexeme} (h : s.toCome = x :: xs) :
    s.pos < s.tokens.size := by
  have hlength := congrArg List.length h
  simp only [toCome, List.length_map, List.length_range, List.length_cons] at hlength
  omega

/-- The state behind the current token. -/
def passed (s : State) : State := { s with pos := s.pos + 1 }

/-- The state in which the current token is replaced by what is left of it. -/
def splitting (s : State) (t : Token) : State := { s with splits := s.splits.insert s.pos t }

/-- The tokens to come are the current one and those behind it. -/
theorem toCome_cons (h : s.pos < s.tokens.size) :
    s.toCome = lexeme s.current :: s.passed.toCome := by
  obtain ⟨k, hk⟩ : ∃ k, s.tokens.size - s.pos = k + 1 := ⟨s.tokens.size - s.pos - 1, by omega⟩
  have hk' : s.tokens.size - (s.pos + 1) = k := by omega
  simp only [toCome, passed, hk, hk', List.range_succ_eq_map, List.map_cons, List.map_map]
  refine congrArg _ (List.map_congr_left fun i _ => ?_)
  show lexeme (s.token (s.pos + (i + 1))) = lexeme (s.token (s.pos + 1 + i))
  rw [Nat.add_comm i 1, Nat.add_assoc]

theorem current_of_toCome {x : Lexeme} {xs : List Lexeme} (h : s.toCome = x :: xs) :
    lexeme s.current = x :=
  (List.cons.inj ((toCome_cons (pos_lt_of_toCome h)).symm.trans h)).1

theorem toCome_passed {x : Lexeme} {xs : List Lexeme} (h : s.toCome = x :: xs) :
    s.passed.toCome = xs :=
  (List.cons.inj ((toCome_cons (pos_lt_of_toCome h)).symm.trans h)).2

/-- The token that is split is replaced, and no other one. -/
theorem token_splitting {t : Token} (i : Nat) : (s.splitting t).token i =
    if min i (s.tokens.size - 1) = s.pos then t else s.token i := by
  have hnonempty : (s.splits.insert s.pos t).isEmpty = false := Std.TreeMap.isEmpty_insert
  simp only [token, splitting, hnonempty, Bool.false_eq_true, if_false,
    Std.TreeMap.get?_eq_getElem?, Std.TreeMap.getElem?_insert, Std.LawfulEqCmp.compare_eq_iff_eq,
    eq_comm (a := s.pos)]
  split
  · rfl
  split
  · rename_i hempty
    rw [Std.TreeMap.getElem?_of_isEmpty hempty]
    rfl
  · rfl

theorem toCome_splitting {t : Token} {x : Lexeme} {xs : List Lexeme} (h : s.toCome = x :: xs) :
    (s.splitting t).toCome = lexeme t :: xs := by
  have hlt := pos_lt_of_toCome h
  rw [toCome_cons (s := s.splitting t) hlt, ← toCome_passed h]
  congr 1
  · rw [State.current, token_splitting, if_pos (by show min s.pos _ = _; omega)]
  · simp only [toCome]
    refine List.map_congr_left fun i hi => ?_
    have hi : i < s.tokens.size - (s.pos + 1) := List.mem_range.1 hi
    show lexeme ((s.splitting t).token (s.pos + 1 + i)) = lexeme (s.token (s.pos + 1 + i))
    rw [token_splitting, if_neg (by omega)]

section

variable {here : List Piece} {x : Lexeme}

theorem Ahead.shows (h : s.Ahead here) : Shows s.current here := by
  obtain ⟨-, e, he, hglued⟩ := h
  generalize hxs : s.toCome = xs at hglued
  match here, hglued with
  | [], .token _ => exact (congrArg Lexeme.kind (current_of_toCome hxs)).trans he
  | .token _ :: _, .token _ => exact current_of_toCome hxs
  | .close :: _, .close hx _ =>
    have hkind : s.current.kind = .greater := by rw [← hx, ← current_of_toCome hxs]; rfl
    show s.current.kind ∈ closers
    rw [hkind]
    decide
  | .close :: _, .split hx _ =>
    rw [← current_of_toCome hxs] at hx
    exact (closers_of_afterGreater? hx).1

/-- There is a token behind one that is ahead, if only the end. -/
theorem Ahead.toCome_token (h : s.Ahead (.token x :: here)) :
    ∃ y ys, s.toCome = x :: y :: ys ∧ s.passed.Ahead here := by
  obtain ⟨htame, e, he, hglued⟩ := h
  generalize hxs : s.toCome = xs at hglued
  obtain - | @⟨_, xs, _, hrest⟩ := hglued
  have hpassed : s.passed.Ahead here := ⟨htame, e, he, toCome_passed hxs ▸ hrest⟩
  cases xs with
  | nil => exact absurd hrest (by cases here <;> nofun)
  | cons y ys => exact ⟨y, ys, rfl, hpassed⟩

theorem Ahead.shows_next (h : s.Ahead (.token x :: here)) : Shows (s.token (s.pos + 1)) here :=
  have ⟨_, _, _, hpassed⟩ := h.toCome_token
  hpassed.shows

theorem advance_run {y : Lexeme} {ys : List Lexeme} (c : Context) (h : s.toCome = x :: y :: ys) :
    Parse.advance c s = .ok s.current s.passed := by
  have hlt : s.pos + 1 < s.tokens.size := pos_lt_of_toCome (toCome_passed h)
  show (if s.pos + 1 < s.tokens.size then _ else _ : Parser Token) c s = _
  rw [if_pos hlt]
  rfl

theorem Ahead.advance (c : Context) (h : s.Ahead (.token x :: here)) :
    Parse.advance c s = .ok s.current s.passed ∧ s.passed.Ahead here := by
  obtain ⟨y, ys, hxs, hpassed⟩ := h.toCome_token
  exact ⟨advance_run c hxs, hpassed⟩

theorem Tame.splitting {t : Token} {k k' : Token.Kind} (h : s.Tame)
    (hk : afterGreater? k' = some k) : (s.splitting (shorten t k)).Tame := by
  intro i
  rw [token_splitting]
  split
  · show k ≠ .at ∧ k ≠ .colonColon
    obtain ⟨-, hk | rfl⟩ := closers_of_afterGreater? hk
    · exact ⟨fun h => absurd (h ▸ hk) (by decide), fun h => absurd (h ▸ hk) (by decide)⟩
    · decide
  · exact h i

end

end State

/-! ## Taking a phrase -/

/-- How a run ends that gives up at most because the steps are exhausted. -/
def Gives {α : Type} (P : α → State → Prop) : EStateM.Result Failure State α → Prop
  | .ok a s => P a s
  | .error e _ => e = .exhausted

/-- A parser takes the pieces of a phrase: from where the pieces `here` are ahead it goes to where
the pieces `there` are. -/
def Takes {α : Type} (p : Parser α) (here there : List Piece) (Q : α → Prop) : Prop :=
  ∀ c s, s.Ahead here → Gives (fun a s' => Q a ∧ s.Passes s' ∧ s'.Ahead there) (p c s)

section

variable {α β : Type} {p : Parser α} {f : α → Parser β} {P : α → Prop} {Q : β → Prop}
  {here there mid : List Piece} {x : Lexeme}

theorem Takes.bind (h : Takes p here mid P) (hf : ∀ a, P a → Takes (f a) mid there Q) :
    Takes (p >>= f) here there Q := by
  intro c s hs
  have hp := h c s hs
  cases hrun : p c s with
  | ok a s' =>
    rw [hrun] at hp
    obtain ⟨ha, hpass, hahead⟩ := hp
    have hrest := hf a ha c s' hahead
    rw [bind_ok hrun]
    cases hfa : f a c s' with
    | ok b s'' =>
      rw [hfa] at hrest
      exact ⟨hrest.1, hpass.trans hrest.2.1, hrest.2.2⟩
    | error e s'' =>
      rw [hfa] at hrest
      exact hrest
  | error e s' =>
    rw [hrun] at hp
    rw [bind_error hrun]
    exact hp

theorem Takes.mono {P' : α → Prop} (h : Takes p here there P) (himp : ∀ a, P a → P' a) :
    Takes p here there P' := by
  intro c s hs
  have hp := h c s hs
  cases hrun : p c s with
  | ok a s' =>
    rw [hrun] at hp
    exact ⟨himp a hp.1, hp.2⟩
  | error e s' =>
    rw [hrun] at hp
    exact hp

theorem Takes.pure {a : α} (ha : P a) : Takes (pure a) here here P :=
  fun _ _ hs => ⟨ha, .refl, hs⟩

theorem Takes.exhausted : Takes (throw .exhausted : Parser α) here there P := fun _ _ _ => rfl

theorem Takes.ite {b : Prop} [Decidable b] {p₁ p₂ : Parser α} (yes : b → Takes p₁ here there P)
    (no : ¬b → Takes p₂ here there P) : Takes (if b then p₁ else p₂) here there P := by
  split
  · exact yes ‹_›
  · exact no ‹_›

theorem Takes.read (h : Reads p) (hf : ∀ a, Takes (f a) here there Q) :
    Takes (p >>= f) here there Q := by
  intro c s hs
  obtain ⟨a, ha⟩ := h c s
  rw [bind_ok ha]
  exact hf a c s hs

/-- Reading what the pieces ahead decide. -/
theorem Takes.known {a : α} (h : ∀ c s, s.Ahead here → p c s = .ok a s)
    (hf : Takes (f a) here there Q) : Takes (p >>= f) here there Q := by
  intro c s hs
  rw [bind_ok (h c s hs)]
  exact hf c s hs

theorem Takes.untracked (h : Takes p here there P) : Takes (untracked p) here there P :=
  fun c => h { c with inExpression := true }

/-! ## Tokens -/

theorem Takes.peek {f : Token → Parser β} (hf : ∀ t, Shows t here → Takes (f t) here there Q) :
    Takes (peek >>= f) here there Q := fun c s hs => hf s.current hs.shows c s hs

theorem Takes.peekNext {f : Token → Parser β}
    (hf : ∀ t, Shows t here → Takes (f t) (.token x :: here) there Q) :
    Takes (peekAt 1 >>= f) (.token x :: here) there Q :=
  fun c s hs => hf _ hs.shows_next c s hs

variable {k : Token.Kind} {g : Bool → Parser β}

theorem Takes.check (hk : k ∉ closers) (h : Takes (g (firstKind here == k)) here there Q) :
    Takes (check k >>= g) here there Q :=
  .known (fun _ s hs => congrArg (EStateM.Result.ok · s) (hs.shows.kind_beq hk)) h

theorem Takes.checkNext (hk : k ∉ closers)
    (h : Takes (g (firstKind here == k)) (.token x :: here) there Q) :
    Takes (checkAt 1 k >>= g) (.token x :: here) there Q :=
  .known (fun _ s hs => congrArg (EStateM.Result.ok · s) (hs.shows_next.kind_beq hk)) h

/-- No annotation stands anywhere. -/
theorem Takes.checkAt (h : Takes (g false) here there Q) :
    Takes (Parse.check .at >>= g) here there Q :=
  .known (fun _ s hs => congrArg (EStateM.Result.ok · s)
    (beq_eq_false_iff_ne.2 (hs.1 s.pos).1)) h

theorem Takes.advance : Takes advance (.token x :: here) here (lexeme · = x) := by
  intro c s hs
  obtain ⟨hrun, hahead⟩ := hs.advance c
  rw [hrun]
  exact ⟨hs.shows, ⟨rfl, rfl, rfl, rfl, rfl, rfl, rfl⟩, hahead⟩

theorem Takes.acceptYes (hk : k ∉ closers) (hx : x.kind = k) (h : Takes (g true) here there Q) :
    Takes (accept k >>= g) (.token x :: here) there Q := by
  have haccept : Takes (accept k) (.token x :: here) here (· = true) := by
    refine .check hk ?_
    rw [firstKind_cons, Piece.kind_token, beq_iff_eq.2 hx, if_pos rfl]
    exact .bind .advance fun _ _ => .pure rfl
  exact haccept.bind fun _ hb => hb ▸ h

theorem Takes.acceptNo (hk : k ∉ closers) (hx : firstKind here ≠ k)
    (h : Takes (g false) here there Q) : Takes (accept k >>= g) here there Q := by
  have haccept : Takes (accept k) here here (· = false) := by
    refine .check hk ?_
    rw [beq_eq_false_iff_ne.2 hx, if_neg Bool.false_ne_true]
    exact .pure rfl
  exact haccept.bind fun _ hb => hb ▸ h

theorem Takes.expect (hk : k ∉ closers) (hx : x.kind = k) :
    Takes (expect_ k) (.token x :: here) here fun _ => True := by
  have hexpect : Takes (Parse.expect k) (.token x :: here) here (lexeme · = x) := by
    refine .check hk ?_
    rw [firstKind_cons, Piece.kind_token, beq_iff_eq.2 hx, if_pos rfl]
    exact .advance
  exact hexpect.bind fun _ _ => .pure trivial

theorem Takes.newInfo (span : Span) : Takes (newInfo span) here here fun _ => True := by
  intro c s hs
  exact ⟨trivial, ⟨rfl, rfl, rfl, rfl, rfl, rfl, rfl⟩, hs⟩

theorem Takes.infoFrom (start : Position) : Takes (infoFrom start) here here fun _ => True :=
  .read (reads_spanFrom start) fun span => .newInfo span

theorem Takes.ident {name : Text} :
    Takes ident (.word name :: here) here (·.name = name) := by
  refine .peek fun t ht => ?_
  have ht : lexeme t = ⟨.identifier, name⟩ := ht
  have hkind : t.kind = .identifier := congrArg Lexeme.kind ht
  rw [hkind, if_neg (by decide)]
  refine .bind .advance fun _ _ => .bind (.newInfo _) fun i _ => .pure ?_
  exact congrArg Lexeme.text ht

theorem expectGreater_whole {c : Context} {s : State} (h : s.current.kind = .greater) :
    expectGreater c s = (advance >>= fun _ => pure ()) c s := by
  unfold expectGreater
  rw [bind_ok (p := peek) (a := s.current) rfl, if_pos (beq_iff_eq.2 h)]

theorem expectGreater_part {c : Context} {s : State} {k : Token.Kind}
    (h : afterGreater? s.current.kind = some k) :
    expectGreater c s = .ok () (s.splitting (shorten s.current k)) := by
  have hne : s.current.kind ≠ .greater := fun heq => by rw [heq] at h; cases h
  unfold expectGreater
  rw [bind_ok (p := peek) (a := s.current) rfl, if_neg (by simpa using hne)]
  simp only [h]
  rfl

/-- A closing bracket is consumed, or taken away from the token that it starts. -/
theorem Takes.expectGreater : Takes expectGreater (.close :: here) here fun _ => True := by
  rintro c s ⟨htame, e, he, hglued⟩
  generalize hxs : s.toCome = xs at hglued
  obtain - | - | @⟨x, xs, _, hx, hrest⟩ | @⟨x, k, xs, _, hx, hrest⟩ := hglued
  · obtain ⟨y, ys, rfl⟩ : ∃ y ys, xs = y :: ys := by
      refine List.exists_cons_of_ne_nil ?_
      rintro rfl
      cases here <;> cases hrest
    rw [expectGreater_whole ((congrArg Lexeme.kind (State.current_of_toCome hxs)).trans hx),
      bind_ok (State.advance_run c hxs)]
    exact ⟨trivial, ⟨rfl, rfl, rfl, rfl, rfl, rfl, rfl⟩, htame, e, he,
      State.toCome_passed hxs ▸ hrest⟩
  · have hcurrent := State.current_of_toCome hxs
    rw [← hcurrent] at hx hrest
    rw [expectGreater_part hx]
    refine ⟨trivial, ⟨rfl, rfl, rfl, rfl, rfl, rfl, rfl⟩, htame.splitting hx, e, he, ?_⟩
    rw [State.toCome_splitting hxs]
    exact hrest

/-! ## Lists -/

/-- Phrases with a separator in front of each. -/
def eachBehind (sep : Token.Kind) (pss : List (List Piece)) : List Piece :=
  pss.flatMap fun ps => .sign sep :: ps

/-- Phrases with a separator between them. -/
def separated (sep : Token.Kind) : List (List Piece) → List Piece
  | [] => []
  | ps :: pss => ps ++ eachBehind sep pss

@[simp]
theorem eachBehind_nil (sep : Token.Kind) : eachBehind sep [] = [] := rfl

@[simp]
theorem eachBehind_cons (sep : Token.Kind) (ps : List Piece) (pss : List (List Piece)) :
    eachBehind sep (ps :: pss) = .sign sep :: (ps ++ eachBehind sep pss) := rfl

/-- What may follow an item of a list. -/
structure Lets (follow : List Piece → Prop) (sep : Token.Kind) (there : List Piece) : Prop where
  behind : follow there
  between : ∀ ps, follow (.sign sep :: ps)

section

variable {γ ι : Type} {item : Parser α} {key : α → γ} {write : ι → List Piece} {want : ι → γ}
  {follow : List Piece → Prop} {sep : Token.Kind}

/-- What an item parser does with each of the items that are written. -/
def TakesEach (item : Parser α) (key : α → γ) (write : ι → List Piece) (want : ι → γ)
    (follow : List Piece → Prop) (is : List ι) : Prop :=
  ∀ i ∈ is, ∀ rest, follow rest → Takes item (write i ++ rest) rest (key · = want i)

theorem Takes.eachBehind (hsep : sep ∉ closers) (hthere : firstKind there ≠ sep)
    (hlets : Lets follow sep there) (fuel : Nat) : ∀ (is : List ι) (acc : Array α),
      TakesEach item key write want follow is →
      Takes (repeated (do if ← accept sep then return some (← item) else return none) acc fuel)
        (eachBehind sep (is.map write) ++ there) there
        fun bs => bs.map key = acc.toList.map key ++ is.map want := by
  induction fuel with
  | zero => exact fun _ _ _ => .exhausted
  | succ fuel ih =>
    intro is acc hitem
    unfold repeated
    cases is with
    | nil =>
      have hnone : Takes (do if ← accept sep then return some (← item) else return none)
          there there (· = none) := by
        refine .acceptNo hsep hthere ?_
        rw [if_neg Bool.false_ne_true]
        exact .pure rfl
      refine hnone.bind fun o ho => ?_
      rw [ho]
      exact .pure (by simp)
    | cons i is =>
      have hsome : Takes (do if ← accept sep then return some (← item) else return none)
          (Parse.eachBehind sep ((i :: is).map write) ++ there)
          (Parse.eachBehind sep (is.map write) ++ there) (∃ b, · = some b ∧ key b = want i) := by
        rw [List.map_cons, eachBehind_cons, List.cons_append, List.append_assoc]
        refine .acceptYes hsep rfl ?_
        rw [if_pos rfl]
        have hfollow : follow (Parse.eachBehind sep (is.map write) ++ there) := by
          cases is with
          | nil => exact hlets.behind
          | cons j js => exact hlets.between _
        exact .bind (hitem i List.mem_cons_self _ hfollow) fun b hb => .pure ⟨b, rfl, hb⟩
      refine hsome.bind ?_
      rintro _ ⟨b, rfl, hb⟩
      refine (ih is (acc.push b) fun j hj => hitem j (List.mem_cons_of_mem i hj)).mono fun bs hbs => ?_
      rw [hbs]
      simp [hb]

theorem Takes.moreSeparated (hsep : sep ∉ closers) (hthere : firstKind there ≠ sep)
    (hlets : Lets follow sep there) (is : List ι)
    (hitem : TakesEach item key write want follow is) :
    Takes (moreSeparated sep item) (Parse.eachBehind sep (is.map write) ++ there) there
      fun bs => bs.map key = is.map want :=
  .read (fun _ s => ⟨s.tokens.size - s.pos + 1, rfl⟩) fun fuel =>
    (Takes.eachBehind hsep hthere hlets fuel is #[] hitem).mono fun _ => id

theorem Takes.commaSeparated (hthere : firstKind there ≠ .comma) (hlets : Lets follow .comma there)
    {is : List ι} (hne : is ≠ []) (hitem : TakesEach item key write want follow is) :
    Takes (commaSeparated item) (separated .comma (is.map write) ++ there) there
      fun bs => bs.map key = is.map want := by
  obtain ⟨i, is, rfl⟩ := List.exists_cons_of_ne_nil hne
  rw [List.map_cons, separated, List.append_assoc]
  have hfollow : follow (Parse.eachBehind .comma (is.map write) ++ there) := by
    cases is with
    | nil => exact hlets.behind
    | cons j js => exact hlets.between _
  refine .bind (hitem i List.mem_cons_self _ hfollow) fun b hb => ?_
  refine .bind (.moreSeparated (by decide) hthere hlets is fun j hj =>
    hitem j (List.mem_cons_of_mem i hj)) fun bs hbs => .pure ?_
  simp [hb, hbs]

/-- The pieces of a list in parentheses. -/
def inParentheses (pss : List (List Piece)) : List Piece :=
  .sign .lparen :: (separated .comma pss ++ [.sign .rparen])

theorem Takes.parenthesized (hlets : ∀ ps, Lets follow .comma (.sign .rparen :: ps)) {is : List ι}
    (hitem : TakesEach item key write want follow is)
    (hstart : ∀ i ∈ is, write i ≠ [] ∧ firstKind (write i) ≠ .rparen) :
    Takes (parenthesized item) (inParentheses (is.map write) ++ here) here
      fun bs => bs.map key = is.map want := by
  have hclose (bs : List α) (hbs : bs.map key = is.map want) :
      Takes (do
        expect_ .rparen
        return bs) (.sign .rparen :: here) here fun bs => bs.map key = is.map want :=
    .bind (.expect (by decide) rfl) fun _ _ => .pure hbs
  have hpieces : inParentheses (is.map write) ++ here =
      .sign .lparen :: (separated .comma (is.map write) ++ .sign .rparen :: here) := by
    simp [inParentheses]
  rw [hpieces]
  refine .bind (.expect (by decide) rfl) fun _ _ => .check (by decide) ?_
  cases is with
  | nil => exact hclose [] rfl
  | cons i is =>
    obtain ⟨hne, hkind⟩ := hstart i List.mem_cons_self
    rw [if_neg]
    · exact .bind (.commaSeparated (by simp) (hlets here) (by simp) hitem) hclose
    · rw [List.map_cons, separated, List.append_assoc, firstKind_append hne]
      simpa using hkind

end

/-! ## Looking ahead -/

theorem State.Passes.rewound {s s' : State} (h : s.Passes s') : s.Passes (s'.rewound s) :=
  ⟨h.lexer, h.tokens, rfl, h.problems, h.errorCount, h.lastError, h.missingAtEnd⟩

/-- Behind a test the same pieces are ahead. -/
theorem State.Ahead.rewound {s s' : State} (hs : s.Ahead here) (h : s.Passes s') :
    (s'.rewound s).Ahead here := by
  have htoken (i : Nat) : (s'.rewound s).token i = s.token i := by
    simp only [State.token, State.rewound, h.tokens]
  have htoCome : (s'.rewound s).toCome = s.toCome := by
    simp only [State.toCome, htoken]
    simp only [State.rewound, h.tokens]
  obtain ⟨htame, e, he, hglued⟩ := hs
  exact ⟨fun i => htoken i ▸ htame i, e, he, htoCome ▸ hglued⟩

theorem Takes.lookaheadYes {p : Parser Unit} {P : Unit → Prop} (hp : Takes p here mid P)
    (h : Takes (g true) here there Q) : Takes (lookahead p >>= g) here there Q := by
  suffices hyes : Takes (lookahead p) here here (· = true) from hyes.bind fun _ hb => hb ▸ h
  intro c s hs
  have hrun := hp { c with speculating := true } s hs
  unfold lookahead
  cases hx : p { c with speculating := true } s with
  | ok a s' =>
    rw [hx] at hrun
    exact ⟨rfl, hrun.2.1.rewound, hs.rewound hrun.2.1⟩
  | error e s' =>
    rw [hx] at hrun
    cases hrun
    rfl

/-- How a run ends that fails and reports nothing. -/
def State.Missed {α : Type} (s : State) : EStateM.Result Failure State α → Prop
  | .ok _ _ => False
  | .error .badSyntax s' => s.Passes s'
  | .error .exhausted _ => True

/-- A parser that, looking ahead, does not find the pieces. -/
def Misses {α : Type} (p : Parser α) (here : List Piece) : Prop :=
  ∀ (c : Context) (s : State), c.speculating = true → s.Ahead here → s.Missed (p c s)

theorem Takes.lookaheadNo {p : Parser Unit} (hp : Misses p here)
    (h : Takes (g false) here there Q) : Takes (lookahead p >>= g) here there Q := by
  suffices hno : Takes (lookahead p) here here (· = false) from hno.bind fun _ hb => hb ▸ h
  intro c s hs
  have hrun := hp { c with speculating := true } s rfl hs
  unfold lookahead
  cases hx : p { c with speculating := true } s with
  | ok a s' =>
    rw [hx] at hrun
    exact hrun.elim
  | error e s' =>
    rw [hx] at hrun
    cases e with
    | badSyntax => exact ⟨rfl, State.Passes.rewound hrun, hs.rewound hrun⟩
    | exhausted => rfl

end

end Javelin.Parse
