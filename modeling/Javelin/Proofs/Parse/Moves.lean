import Javelin.Proofs.Parse.States

/-!
# What parsers do to the state

Five things are said of every parser at once (`Moves`). It goes forward: the tokens stay, the
position does not fall, and where a parser takes a token the number of tokens left falls. It
reports: when it fails without looking ahead, an error is on record or something is missing at the
end. When it looks ahead it is quiet: it reports modifiers that are given again and nothing else.
It is not exhausted: it fails for bad syntax only, as long as there are sixteen steps for each token
left. And it closes what it opens: drafts that it leaves behind stand for bodies in which it failed.

1. `Moves`, and `Looks` for parsers that stay where they are.
2. How they compose. A round of a repetition takes a token, so it leaves sixteen steps fewer.
3. The tokens, reports, speculation and repetition of parsers.
4. Drafts: what is opened in front of a body is closed behind it (`Moves.tracked`).
-/

namespace Javelin.Parse

/-! ## Parsers -/

/-- Whether a parser may fail. -/
inductive Mode where
  /-- It never fails. -/
  | sure
  /-- It fails with a report, unless it looks ahead. -/
  | strict

/-- What holds in the state that a failure leaves. -/
def Mode.Allows (m : Mode) (c : Context) (s : State) : Prop :=
  match m with
  | .sure => False
  | .strict => c.speculating = false → s.Reported

/-- How a run from a state may end: with a value at a later state, or for bad syntax. -/
def Ends {α : Type} (v : Setting) (m : Mode) (c : Context) (s : State) (δ : Nat) (Q : α → Prop) :
    EStateM.Result Failure State α → Prop
  | .ok a s' => s.Leads v c s' δ ∧ Q a
  | .error e s' => e = .badSyntax ∧ s.Fails v c s' ∧ m.Allows c s'

/-- A parser ends well from all states with a budget of `n` steps, `r` of them beyond sixteen for
each token left, whose token satisfies `pre`. It takes `δ` tokens at least. -/
def Moves {α : Type} (v : Setting) (n : Nat) (m : Mode) (pre : Token → Prop) (δ r : Nat)
    (p : Parser α) (Q : α → Prop) : Prop :=
  ∀ c s, v.Suits c → s.Fits v → 16 * s.left + r ≤ n → pre s.current → Ends v m c s δ Q (p c s)

/-- A parser returns and stays at the same token. -/
def Looks {α : Type} (v : Setting) (n : Nat) (pre : Token → Prop) (r : Nat) (p : Parser α)
    (Q : α → Prop) : Prop :=
  ∀ c s, v.Suits c → s.Fits v → 16 * s.left + r ≤ n → pre s.current →
    ∃ a s', p c s = .ok a s' ∧ s.Stays v c s' ∧ Q a

/-- A test that looks ahead returns, and leaves no trace in any context. -/
def Probes (v : Setting) (n : Nat) (pre : Token → Prop) (r : Nat) (p : Parser Bool) : Prop :=
  ∀ c s, v.Suits c → s.Fits v → 16 * s.left + r ≤ n → pre s.current →
    ∃ b s', p c s = .ok b s' ∧ s.Stays v c s' ∧ s.Traceless v c.file s'

/-- A parser that only reads. -/
def Reads {α : Type} (p : Parser α) : Prop := ∀ c s, ∃ a, p c s = .ok a s

/-- A test that only reads, and what it tells of the token where it holds. -/
structure Tells (v : Setting) (test : Parser Bool) (here : Token → Prop) : Prop where
  reads : Reads test
  holds : ∀ c s, s.Fits v → test c s = .ok true s → here s.current

/-- What a test tells where it holds at a known token. -/
def TellsAt (t : Token) (test : Parser Bool) (here : Prop) : Prop :=
  ∀ c s, s.current = t → test c s = .ok true s → here

/-- Any token. -/
def Any (_ : Token) : Prop := True

section

variable {α β : Type} {v : Setting} {n : Nat} {m : Mode} {pre : Token → Prop} {δ r : Nat}
  {p : Parser α} {f : α → Parser β} {P : α → Prop} {Q : β → Prop} {t : Token}

theorem bind_ok {c : Context} {s s' : State} {a : α} (h : p c s = .ok a s') :
    (p >>= f) c s = f a c s' := by
  show EStateM.bind (p c) (fun a => f a c) s = _
  rw [EStateM.bind, h]

theorem bind_error {c : Context} {s s' : State} {e : Failure} (h : p c s = .error e s') :
    (p >>= f) c s = .error e s' := by
  show EStateM.bind (p c) (fun a => f a c) s = _
  rw [EStateM.bind, h]

theorem bind_get {c : Context} {s : State} {f : State → Parser β} :
    ((get : Parser State) >>= f) c s = f s c s := rfl

theorem bind_read {c : Context} {s : State} {f : Context → Parser β} :
    ((read : Parser Context) >>= f) c s = f c c s := rfl

theorem bind_modify {c : Context} {s : State} {u : State → State} {f : Unit → Parser β} :
    ((modify u : Parser Unit) >>= f) c s = f () c (u s) := rfl

/-! ## Composition -/

theorem Ends.bind {ε : Nat} {c : Context} {s : State} (h : Ends v m c s ε P (p c s))
    (hf : ∀ a s', s.Leads v c s' ε → P a → Ends v m c s' (δ - ε) Q (f a c s')) :
    Ends v m c s δ Q ((p >>= f) c s) := by
  cases hp : p c s with
  | ok a s' =>
    rw [hp] at h
    have hrest := hf a s' h.1 h.2
    rw [bind_ok hp]
    cases hfa : f a c s' with
    | ok b s'' =>
      rw [hfa] at hrest
      exact ⟨(h.1.trans hrest.1).mono (by omega), hrest.2⟩
    | error e s'' =>
      rw [hfa] at hrest
      exact ⟨hrest.1, h.1.toGoes.thenFails hrest.2.1, hrest.2.2⟩
  | error e s' =>
    rw [hp] at h
    rw [bind_error hp]
    exact h

/-- What follows a later state ends as from before it. -/
theorem State.Leads.ends {c : Context} {s s' : State} {x : EStateM.Result Failure State α}
    (h : s.Leads v c s' 0) (hx : Ends v m c s' δ P x) : Ends v m c s δ P x := by
  cases x with
  | ok a s'' => exact ⟨(h.trans hx.1).mono (by omega), hx.2⟩
  | error e s'' => exact ⟨hx.1, h.toGoes.thenFails hx.2.1, hx.2.2⟩

theorem Ends.mono {ε : Nat} {c : Context} {s : State} {P' : α → Prop}
    {x : EStateM.Result Failure State α} (h : Ends v m c s δ P x) (hle : ε ≤ δ)
    (himp : ∀ a, P a → P' a) : Ends v m c s ε P' x := by
  cases x with
  | ok a s' => exact ⟨h.1.mono hle, himp a h.2⟩
  | error e s' => exact h

theorem Moves.mono {r' ε : Nat} {pre' : Token → Prop} {P' : α → Prop}
    (h : Moves v n m pre δ r p P) (hr : r ≤ r') (hle : ε ≤ δ) (hpre : ∀ t, pre' t → pre t)
    (himp : ∀ a, P a → P' a) : Moves v n m pre' ε r' p P' :=
  fun c s hv hs hn hp => (h c s hv hs (by omega) (hpre _ hp)).mono hle himp

/-- A smaller budget admits fewer states. -/
theorem Moves.lower {k : Nat} (h : Moves v n m pre δ r p P) (hk : k ≤ n) :
    Moves v k m pre δ r p P :=
  fun c s hv hs hn => h c s hv hs (by omega)

/-- A step that takes a token leaves sixteen steps more to what follows, where there may have been
none. -/
theorem Moves.take (h : Moves v n m pre 1 r p P)
    (hf : ∀ a, P a → Moves v n m Any (δ - 1) 16 (f a) Q) :
    Moves v n m pre δ r (p >>= f) Q := by
  intro c s hv hs hn hp
  refine (h c s hv hs hn hp).bind fun a s' hlead ha => ?_
  have htaken := hlead.taken
  exact hf a ha c s' hv hlead.fits (by omega) trivial

/-- A round of a repetition takes a token: what follows has sixteen steps fewer in all, and as many
beyond those for the tokens left. -/
theorem Moves.round (h : Moves v n m pre 1 r p P)
    (hf : ∀ k a, k + 16 ≤ n → P a → Moves v k m Any (δ - 1) r (f a) Q) :
    Moves v n m pre δ r (p >>= f) Q := by
  intro c s hv hs hn hp
  refine (h c s hv hs hn hp).bind fun a s' hlead ha => ?_
  have htaken := hlead.taken
  exact hf (n - 16) a (by omega) ha c s' hv hlead.fits (by omega) trivial

/-- A step that may take no token leaves the steps that it was given. -/
theorem Moves.go (h : Moves v n m pre 0 r p P)
    (hf : ∀ a, P a → Moves v n m Any δ r (f a) Q) :
    Moves v n m pre δ r (p >>= f) Q := by
  intro c s hv hs hn hp
  refine (h c s hv hs hn hp).bind fun a s' hlead ha => ?_
  have htaken := hlead.taken
  exact hf a ha c s' hv hlead.fits (by omega) trivial

theorem Moves.look (h : Looks v n pre r p P)
    (hf : ∀ a, P a → Moves v n m pre δ r (f a) Q) :
    Moves v n m pre δ r (p >>= f) Q := by
  intro c s hv hs hn hp
  obtain ⟨a, s', hrun, hstays, ha⟩ := h c s hv hs hn hp
  have hleft := hstays.left_eq hs
  have hrest := hf a ha c s' hv hstays.fits (by omega) (by rw [hstays.current hs]; exact hp)
  rw [bind_ok hrun]
  cases hfa : f a c s' with
  | ok b s'' =>
    rw [hfa] at hrest
    exact ⟨((hstays.leads hs).trans hrest.1).mono (by omega), hrest.2⟩
  | error e s'' =>
    rw [hfa] at hrest
    exact ⟨hrest.1, hstays.toGoes.thenFails hrest.2.1, hrest.2.2⟩

theorem Reads.looks (h : Reads p) : Looks v n pre r p fun _ => True := by
  intro c s hv hs _ _
  obtain ⟨a, ha⟩ := h c s
  exact ⟨a, s, ha, .refl hs, trivial⟩

/-- That a step takes a token may be forgotten. -/
theorem Moves.weak (h : Moves v n m Any δ r p P) : Moves v n m pre 0 r p P :=
  h.mono (Nat.le_refl r) (Nat.zero_le δ) (fun _ _ => trivial) fun _ => id

theorem Reads.moves (h : Reads p) : Moves v n m pre 0 r p fun _ => True := by
  intro c s hv hs _ _
  obtain ⟨a, ha⟩ := h c s
  rw [ha]
  exact ⟨.refl hs, trivial⟩

theorem Moves.read (h : Reads p) (hf : ∀ a, Moves v n m pre δ r (f a) Q) :
    Moves v n m pre δ r (p >>= f) Q :=
  .look h.looks fun a _ => hf a

theorem discard_eq (p : Parser α) : discard p = p >>= fun _ => pure () := rfl

theorem moves_discard (h : Moves v n m pre δ r p P) :
    Moves v n m pre δ r (discard p) fun _ => True := by
  intro c s hv hs hn hp
  rw [discard_eq]
  refine (h c s hv hs hn hp).bind fun a s' hlead _ => ?_
  exact ⟨⟨.refl hlead.fits, by omega⟩, trivial⟩

/-- What follows may use the token here. -/
theorem Moves.here (h : ∀ t, pre t → Moves v n m (· = t) δ r p P) : Moves v n m pre δ r p P :=
  fun c s hv hs hn hp => h s.current hp c s hv hs hn rfl

theorem Moves.pure {a : α} (ha : P a) : Moves v n m pre 0 r (pure a) P :=
  fun _ _ _ hs _ _ => ⟨.refl hs, ha⟩

theorem Moves.ite {b : Prop} [Decidable b] {p₁ p₂ : Parser α}
    (yes : b → Moves v n m pre δ r p₁ P) (no : ¬b → Moves v n m pre δ r p₂ P) :
    Moves v n m pre δ r (if b then p₁ else p₂) P := by
  split
  · exact yes ‹_›
  · exact no ‹_›

/-- A step that is made under a condition. -/
theorem Moves.lookIf {b : Prop} [Decidable b] {p : Parser Unit} {k : Unit → Parser β}
    (h : Looks v n pre r p fun _ => True) (hk : Moves v n m pre δ r (k ()) Q) :
    Moves v n m pre δ r (if b then p >>= k else k ()) Q :=
  .ite (fun _ => .look h fun _ _ => hk) fun _ => hk

theorem Looks.bind (h : Looks v n pre r p P) (hf : ∀ a, P a → Looks v n pre r (f a) Q) :
    Looks v n pre r (p >>= f) Q := by
  intro c s hv hs hn hp
  obtain ⟨a, s', hrun, hstays, ha⟩ := h c s hv hs hn hp
  have hleft := hstays.left_eq hs
  obtain ⟨b, s'', hrun', hstays', hb⟩ :=
    hf a ha c s' hv hstays.fits (by omega) (by rw [hstays.current hs]; exact hp)
  exact ⟨b, s'', by rw [bind_ok hrun, hrun'], hstays.trans hstays', hb⟩

theorem Looks.pure {a : α} (ha : P a) : Looks v n pre r (pure a) P :=
  fun _ s _ hs _ _ => ⟨a, s, rfl, .refl hs, ha⟩

theorem Looks.ite {b : Prop} [Decidable b] {p₁ p₂ : Parser α}
    (yes : b → Looks v n pre r p₁ P) (no : ¬b → Looks v n pre r p₂ P) :
    Looks v n pre r (if b then p₁ else p₂) P := by
  split
  · exact yes ‹_›
  · exact no ‹_›

theorem Looks.mono {P' : α → Prop} (h : Looks v n pre r p P) (himp : ∀ a, P a → P' a) :
    Looks v n pre r p P' := by
  intro c s hv hs hn hp
  obtain ⟨a, s', hrun, hstays, ha⟩ := h c s hv hs hn hp
  exact ⟨a, s', hrun, hstays, himp a ha⟩

theorem Looks.moves (h : Looks v n pre r p P) : Moves v n m pre 0 r p P := by
  intro c s hv hs hn hp
  obtain ⟨a, s', hrun, hstays, ha⟩ := h c s hv hs hn hp
  rw [hrun]
  exact ⟨hstays.leads hs, ha⟩

theorem Reads.bind (h : Reads p) (hf : ∀ a, Reads (f a)) : Reads (p >>= f) := by
  intro c s
  obtain ⟨a, ha⟩ := h c s
  obtain ⟨b, hb⟩ := hf a c s
  exact ⟨b, by rw [bind_ok ha, hb]⟩

theorem Reads.pure {a : α} : Reads (pure a : Parser α) := fun _ _ => ⟨a, rfl⟩

theorem Reads.ite {b : Prop} [Decidable b] {p₁ p₂ : Parser α} (yes : Reads p₁) (no : Reads p₂) :
    Reads (if b then p₁ else p₂) := by
  split
  · exact yes
  · exact no

/-! ## Tokens -/

theorem reads_peek : Reads peek := fun _ s => ⟨s.current, rfl⟩

theorem reads_peekAt (k : Nat) : Reads (peekAt k) := fun _ s => ⟨s.token (s.pos + k), rfl⟩

theorem reads_previous : Reads previous := fun _ s => ⟨s.token (s.pos - 1), rfl⟩

theorem reads_check (k : Token.Kind) : Reads (check k) := fun _ s => ⟨s.current.kind == k, rfl⟩

theorem reads_checkAt (i : Nat) (k : Token.Kind) : Reads (checkAt i k) :=
  fun _ s => ⟨(s.token (s.pos + i)).kind == k, rfl⟩

theorem reads_checkAny (ks : List Token.Kind) : Reads (checkAny ks) :=
  fun _ s => ⟨ks.contains s.current.kind, rfl⟩

theorem reads_checkWord (w : Text) : Reads (checkWord w) := fun _ s => ⟨s.current.isWord w, rfl⟩

theorem reads_startPos : Reads startPos := fun _ s => ⟨s.current.span.start, rfl⟩

theorem reads_spanFrom (start : Position) : Reads (spanFrom start) := fun _ _ => ⟨_, rfl⟩

theorem reads_get : Reads (get : Parser State) := fun _ s => ⟨s, rfl⟩

theorem reads_read : Reads (read : Parser Context) := fun c _ => ⟨c, rfl⟩

/-- Reading what the token here decides. -/
theorem Moves.known {a : α} (hp : ∀ c s, s.current = t → p c s = .ok a s)
    (h : Moves v n m (· = t) δ r (f a) Q) : Moves v n m (· = t) δ r (p >>= f) Q := by
  intro c s hv hs hn ht
  rw [bind_ok (hp c s ht)]
  exact h c s hv hs hn ht

variable {g : Bool → Parser β} {h : Token → Parser β}

theorem Moves.peek (hf : Moves v n m (· = t) δ r (h t) Q) :
    Moves v n m (· = t) δ r (peek >>= h) Q :=
  .known (fun _ _ ht => ht ▸ rfl) hf

theorem Moves.check {k : Token.Kind} (hf : Moves v n m (· = t) δ r (g (t.kind == k)) Q) :
    Moves v n m (· = t) δ r (check k >>= g) Q :=
  .known (fun _ _ ht => ht ▸ rfl) hf

theorem Moves.checkAny {ks : List Token.Kind}
    (hf : Moves v n m (· = t) δ r (g (ks.contains t.kind)) Q) :
    Moves v n m (· = t) δ r (checkAny ks >>= g) Q :=
  .known (fun _ _ ht => ht ▸ rfl) hf

theorem Moves.checkWord {w : Text} (hf : Moves v n m (· = t) δ r (g (t.isWord w)) Q) :
    Moves v n m (· = t) δ r (checkWord w >>= g) Q :=
  .known (fun _ _ ht => ht ▸ rfl) hf

/-- A token before the end is taken; the end stays. -/
theorem leads_advance {c : Context} {s : State} (hs : s.Fits v) :
    ∃ s', Parse.advance c s = .ok s.current s' ∧ s.Leads v c s' (min s.left 1) ∧
      s'.pos = s.pos + min s.left 1 := by
  have hpos := hs.pos
  have htokens := hs.tokens
  have hrun : Parse.advance c s = .ok s.current
      (if s.pos + 1 < s.tokens.size then { s with pos := s.pos + 1 } else s) := by
    unfold Parse.advance
    rw [bind_get]
    split <;> rfl
  refine ⟨_, hrun, ?_⟩
  split
  next hlt =>
    refine ⟨⟨⟨⟨hs.tokens, htokens ▸ hlt, fun i hi => hs.behind i (Nat.le_of_succ_le hi), hs.splits,
      hs.ids, hs.noted, hs.starts, hs.opened⟩, id, id, fun _ => .silent rfl rfl rfl rfl rfl⟩,
      ?_⟩, ?_⟩ <;> simp only [State.left] <;> omega
  next hge =>
    refine ⟨⟨.refl hs, ?_⟩, ?_⟩ <;> simp only [State.left] <;> omega

theorem moves_advance (ht : t.kind ≠ .eof) :
    Moves v n m (· = t) 1 r Parse.advance (· = t) := by
  intro c s hv hs _ hst
  obtain ⟨s', hrun, hlead, -⟩ := leads_advance (c := c) hs
  have hleft : s.left ≠ 0 := by
    rw [Ne, ← hs.current_eof, hst]
    exact ht
  rw [hrun]
  exact ⟨hlead.mono (by omega), hst⟩

/-- Where nothing is known of the token, nothing need be taken. -/
theorem moves_advance_any : Moves v n m pre 0 r Parse.advance fun _ => True := by
  intro c s hv hs _ _
  obtain ⟨s', hrun, hlead, -⟩ := leads_advance (c := c) hs
  rw [hrun]
  exact ⟨hlead.mono (Nat.zero_le _), trivial⟩

theorem Moves.advance (ht : t.kind ≠ .eof) (hf : Moves v n m Any (δ - 1) 16 (h t) Q) :
    Moves v n m (· = t) δ r (advance >>= h) Q :=
  .take (moves_advance ht) fun _ ha => ha ▸ hf

theorem accept_yes {c : Context} {s : State} {k : Token.Kind} (hs : s.Fits v)
    (h : s.current.kind = k) (hk : k ≠ .eof) :
    ∃ s', Parse.accept k c s = .ok true s' ∧ s.Leads v c s' 1 := by
  obtain ⟨s', hrun, hlead, -⟩ := leads_advance (c := c) hs
  have hleft : s.left ≠ 0 := by
    rw [Ne, ← hs.current_eof, h]
    exact hk
  refine ⟨s', ?_, hlead.mono (by omega)⟩
  unfold Parse.accept
  rw [bind_ok (p := Parse.check k) (a := s.current.kind == k) rfl, if_pos (beq_iff_eq.2 h),
    bind_ok hrun]
  rfl

theorem accept_no {c : Context} {s : State} {k : Token.Kind} (h : s.current.kind ≠ k) :
    Parse.accept k c s = .ok false s := by
  unfold Parse.accept
  rw [bind_ok (p := Parse.check k) (a := s.current.kind == k) rfl, if_neg (mt beq_iff_eq.1 h)]
  rfl

/-- What follows an optional token depends on whether it was there. A token that was there begins a
round. -/
theorem Moves.acceptRound {k : Token.Kind} (hk : k ≠ .eof)
    (yes : ∀ j, j + 16 ≤ n → Moves v j m Any (δ - 1) r (g true) Q)
    (no : Moves v n m pre δ r (g false) Q) : Moves v n m pre δ r (Parse.accept k >>= g) Q := by
  intro c s hv hs hn hp
  by_cases h : s.current.kind = k
  · obtain ⟨s', hrun, hlead⟩ := accept_yes (c := c) hs h hk
    have hfirst : Ends v m c s 1 (· = true) (Parse.accept k c s) := by
      rw [hrun]
      exact ⟨hlead, rfl⟩
    refine hfirst.bind fun b s' hlead hb => ?_
    have htaken := hlead.taken
    rw [hb]
    exact yes (n - 16) (by omega) c s' hv hlead.fits (by omega) trivial
  · rw [bind_ok (accept_no (c := c) h)]
    exact no c s hv hs hn hp

theorem Moves.accepted {k : Token.Kind} (hk : k ≠ .eof)
    (yes : Moves v n m Any (δ - 1) 16 (g true) Q) (no : Moves v n m pre δ r (g false) Q) :
    Moves v n m pre δ r (Parse.accept k >>= g) Q :=
  .acceptRound hk (fun _ hj c s hv hs hn => yes c s hv hs (by omega)) no

theorem Moves.acceptIf {k : Token.Kind} {p₁ p₂ : Parser β} (hk : k ≠ .eof)
    (yes : ∀ j, j + 16 ≤ n → Moves v j m Any (δ - 1) r p₁ Q) (no : Moves v n m pre δ r p₂ Q) :
    Moves v n m pre δ r (Parse.accept k >>= fun b => if b = true then p₁ else p₂) Q :=
  .acceptRound hk yes no

theorem Moves.accept {k : Token.Kind} {p₁ p₂ : Parser β} (hk : k ≠ .eof)
    (yes : Moves v n m Any (δ - 1) 16 p₁ Q) (no : Moves v n m pre δ r p₂ Q) :
    Moves v n m pre δ r (Parse.accept k >>= fun b => if b = true then p₁ else p₂) Q :=
  .accepted hk yes no

theorem Moves.acceptNot {k : Token.Kind} {p₁ p₂ : Parser β} (hk : k ≠ .eof)
    (yes : Moves v n m Any (δ - 1) 16 p₁ Q) (no : Moves v n m pre δ r p₂ Q) :
    Moves v n m pre δ r (Parse.accept k >>= fun b => if (!b) = true then p₂ else p₁) Q :=
  .accepted hk yes no

theorem moves_accept {k : Token.Kind} (hk : k ≠ .eof) :
    Moves v n m pre 0 r (accept k) fun _ => True := by
  intro c s hv hs _ _
  by_cases h : s.current.kind = k
  · obtain ⟨s', hrun, hlead⟩ := accept_yes (c := c) hs h hk
    rw [hrun]
    exact ⟨hlead.mono (Nat.zero_le _), trivial⟩
  · rw [accept_no h]
    exact ⟨.refl hs, trivial⟩

/-- What a test tells of the token may be used where it holds. -/
theorem Moves.test {test : Parser Bool} {here : Token → Prop} (htest : Tells v test here)
    (yes : Moves v n m here δ r (g true) Q) (no : Moves v n m pre δ r (g false) Q) :
    Moves v n m pre δ r (test >>= g) Q := by
  intro c s hv hs hn hp
  obtain ⟨b, hrun⟩ := htest.reads c s
  rw [bind_ok hrun]
  cases b with
  | true => exact yes c s hv hs hn (htest.holds c s hs hrun)
  | false => exact no c s hv hs hn hp

/-- A test that depends on the token here. -/
theorem Tells.peek {test : Token → Parser Bool} {here : Token → Prop}
    (hreads : Reads (Parse.peek >>= test))
    (hholds : ∀ t, TellsAt t (test t) (here t)) : Tells v (Parse.peek >>= test) here :=
  ⟨hreads, fun c s _ h => hholds s.current c s rfl h⟩

theorem tells_check {k : Token.Kind} : Tells v (Parse.check k) fun t => t.kind = k where
  reads := reads_check k
  holds c s _ h := by
    have hkind : (s.current.kind == k) = true := by injection h
    exact beq_iff_eq.1 hkind

/-- A test of the token here and the one behind it. -/
theorem tells_checkBoth {k k' : Token.Kind} :
    Tells v (do return (← Parse.check k) && (← checkAt 1 k')) fun t => t.kind = k where
  reads := (reads_check _).bind fun _ => (reads_checkAt _ _).bind fun _ => .pure
  holds c s _ h := by
    have hkinds : ((s.current.kind == k) && ((s.token (s.pos + 1)).kind == k')) = true := by
      injection h
    exact beq_iff_eq.1 (Bool.and_eq_true_iff.1 hkinds).1

/-- There is a round for every token left and one more. -/
theorem Moves.remaining {f : Nat → Parser β}
    (hf : ∀ fuel k, k ≤ n → k < 16 * fuel + r → Moves v k m pre δ r (f fuel) Q) :
    Moves v n m pre δ r (Parse.remaining >>= f) Q := by
  intro c s hv hs hn hp
  have hpos := hs.pos
  rw [← hs.tokens] at hpos
  rw [bind_ok (p := Parse.remaining) (a := s.tokens.size - s.pos + 1) rfl]
  refine hf _ (16 * s.left + r) hn ?_ c s hv hs (Nat.le_refl _) hp
  simp only [State.left]
  omega

/-- A repetition and what follows it. -/
theorem Moves.loop {rounds : Nat → Parser α}
    (hloop : ∀ fuel k, k ≤ n → k < 16 * fuel + r → Moves v k m pre 0 r (rounds fuel) P)
    (hf : ∀ a, P a → Moves v n m Any δ r (f a) Q) :
    Moves v n m pre δ r (Parse.remaining >>= fun fuel => rounds fuel >>= f) Q :=
  .remaining fun fuel k hk hfuel =>
    .go (hloop fuel k hk hfuel) fun a ha => (hf a ha).lower hk

/-! ## Reporting and failing -/

/-- Reports and numbers do not concern the tokens. -/
theorem State.Fits.stays {c : Context} {s s' : State} (hs : s.Fits v)
    (htokens : s'.tokens = s.tokens)
    (hpos : s'.pos = s.pos) (hsplits : s'.splits = s.splits) (hids : s.nextId ≤ s'.nextId)
    (hdrafts : s'.drafts = s.drafts) (hrecorded : s.Recorded → s'.Recorded)
    (hmissing : s.missingAtEnd.isEmpty = false → s'.missingAtEnd.isEmpty = false)
    (hnoted : s'.lastError.isSome → s'.Reported)
    (hquiet : c.speculating = true → s.Quiet v c.file s') : s.Stays v c s' := by
  refine ⟨⟨⟨?_, ?_, ?_, ?_, ?_, hnoted, ?_, ?_⟩, hrecorded, hmissing, hquiet⟩, hpos,
    hsplits⟩
  · rw [htokens, hs.tokens]
  · rw [hpos]
    exact hs.pos
  · rw [hpos]
    exact hs.behind
  · rw [hsplits]
    exact hs.splits
  · exact Nat.le_trans hs.ids hids
  · rw [hdrafts]
    exact hs.starts
  · rw [hdrafts]
    exact hs.opened

theorem State.Recorded.reporting {s : State} (h : s.Recorded) (p : Problem) :
    (s.reporting p).Recorded := by
  obtain ⟨-, x, hx, herror⟩ := h
  exact ⟨Nat.succ_pos _, x, Array.mem_push.2 (.inl hx), herror⟩

theorem State.recorded_reporting {s : State} {p : Problem} (h : p.isError = true) :
    (s.reporting p).Recorded :=
  ⟨Nat.succ_pos _, p, Array.mem_push.2 (.inr rfl), h⟩

/-- A report that a parser makes which does not look ahead, or of a modifier given again. -/
theorem report_run {c : Context} {s : State} (hs : s.Fits v) (x : Token) (id : Problem.Id)
    (args : List Text) (hquiet : c.speculating = true →
      s.Quiet v c.file (s.reporting (.new id (.ofSpan c.file x.span) args))) :
    ∃ s', report x id args c s = .ok () s' ∧ s.Stays v c s' := by
  have hkept : s.Recorded → (s.reporting (.new id (.ofSpan c.file x.span) args)).Recorded :=
    fun h => h.reporting _
  exact ⟨_, rfl, hs.stays rfl rfl rfl (Nat.le_refl _) rfl hkept
    (fun h => h) (Or.imp_left hkept ∘ hs.noted)
    hquiet⟩

theorem looks_reportSoft (x : Token) (id : Problem.Id) (args : List Text) :
    Looks v n pre r (reportSoft x id args) fun _ => True := by
  intro c s hv hs _ _
  unfold reportSoft
  rw [bind_read]
  by_cases hspec : c.speculating = true
  · rw [if_pos hspec]
    exact ⟨(), s, rfl, .refl hs, trivial⟩
  · rw [if_neg hspec]
    obtain ⟨s', hrun, hstays⟩ := report_run (c := c) hs x id args
      fun h => absurd h hspec
    exact ⟨(), s', hrun, hstays, trivial⟩

/-- The report of a modifier that is given again is all that is left of looking ahead. -/
theorem State.Quiet.again {file : Text} {s : State} {x : Token} (hx : v.Repeats x) :
    s.Quiet v file (s.reporting (repeatedModifier file x)) :=
  ⟨rfl, rfl, rfl, [x], List.forall_mem_singleton.2 hx, rfl, rfl⟩

/-- A syntax error is put on record, unless the parser looks ahead or one was reported here. What
is missing at the end has a name. -/
theorem reportSyntax_run {c : Context} {s : State} (hs : s.Fits v) (x : Token) (expected : Text)
    (he : expected.isEmpty = false ∨ x.kind ≠ .eof) :
    ∃ s', reportSyntax x expected c s = .ok () s' ∧ s.Stays v c s' ∧
      (c.speculating = false → s'.Reported) := by
  unfold reportSyntax
  rw [bind_read]
  by_cases hspec : c.speculating = true
  · rw [if_pos hspec]
    exact ⟨s, rfl, .refl hs, fun h => absurd (hspec.symm.trans h) (by decide)⟩
  have hquiet : ∀ {s'}, c.speculating = true → s.Quiet v c.file s' := fun h => absurd h hspec
  rw [if_neg hspec, bind_get]
  by_cases hlast : (s.lastError == some x.span.start.offset) = true
  · rw [if_pos hlast]
    have hsome : s.lastError.isSome := by
      rw [beq_iff_eq.1 hlast]
      rfl
    exact ⟨s, rfl, .refl hs, fun _ => hs.noted hsome⟩
  rw [if_neg hlast]
  -- from here on the place of the error is remembered
  by_cases hend : (x.kind == .eof) = true
  · have hname : expected.isEmpty = false := he.resolve_right (not_not_intro (beq_iff_eq.1 hend))
    by_cases hmissing : s.missingAtEnd.isEmpty = true
    · refine ⟨{ s with lastError := some x.span.start.offset, missingAtEnd := expected }, ?_, ?_,
        fun _ => .inr hname⟩
      · rw [bind_modify, if_pos hend, if_pos hmissing]
        rfl
      · exact hs.stays rfl rfl rfl (Nat.le_refl _) rfl (fun h => h) (fun _ => hname)
          (fun _ => .inr hname) hquiet
    · have hold : s.missingAtEnd.isEmpty = false := Bool.not_eq_true _ ▸ hmissing
      refine ⟨{ s with lastError := some x.span.start.offset }, ?_, ?_, fun _ => .inr hold⟩
      · rw [bind_modify, if_pos hend, if_neg hmissing]
        rfl
      · exact hs.stays rfl rfl rfl (Nat.le_refl _) rfl (fun h => h) (fun h => h)
          (fun _ => .inr hold) hquiet
  · rw [bind_modify, if_neg hend]
    split
    · exact ⟨_, rfl, hs.stays rfl rfl rfl (Nat.le_refl _) rfl
        (fun _ => State.recorded_reporting rfl) (fun h => h)
        (fun _ => .inl (State.recorded_reporting rfl)) hquiet,
        fun _ => .inl (State.recorded_reporting rfl)⟩
    · exact ⟨_, rfl, hs.stays rfl rfl rfl (Nat.le_refl _) rfl
        (fun _ => State.recorded_reporting rfl) (fun h => h)
        (fun _ => .inl (State.recorded_reporting rfl)) hquiet,
        fun _ => .inl (State.recorded_reporting rfl)⟩

/-- A failure is reported where it happens. -/
theorem moves_fail {expected : Text} (he : expected.isEmpty = false ∨ ∀ t, pre t → t.kind ≠ .eof) :
    Moves v n .strict pre δ r (fail expected : Parser α) P := by
  intro c s hv hs _ hp
  obtain ⟨s', hrun, hstays, hreported⟩ :=
    reportSyntax_run (c := c) hs s.current expected (he.imp_right fun h => h s.current hp)
  have hfail : (fail expected : Parser α) c s = .error .badSyntax s' := by
    unfold fail
    rw [bind_ok (p := Parse.peek) (a := s.current) rfl, bind_ok hrun]
    rfl
  rw [hfail]
  exact ⟨rfl, hstays.toGoes.fails, hreported⟩

/-- Nothing follows a failure. -/
theorem Moves.fail {expected : Text} (he : expected.isEmpty = false ∨ ∀ t, pre t → t.kind ≠ .eof) :
    Moves v n .strict pre δ r (fail expected >>= f) Q := by
  intro c s hv hs hn hp
  exact (moves_fail (P := fun _ => False) (δ := 0) he c s hv hs hn hp).bind fun _ _ _ h => h.elim

theorem isEmpty_name (k : Token.Kind) : (Text.ofString k.name).isEmpty = false := by
  cases k <;> rfl

theorem moves_expect {k : Token.Kind} (hk : k ≠ .eof) :
    Moves v n .strict pre 1 r (expect k) fun x => x.kind = k := by
  refine .here fun x _ => ?_
  unfold expect
  refine .check (.ite (fun h => ?_) fun _ => moves_fail (.inl (isEmpty_name k)))
  rw [beq_iff_eq] at h
  exact (moves_advance (h ▸ hk)).mono (Nat.le_refl r) (Nat.le_refl 1) (fun _ => id)
    fun _ ha => ha ▸ h

theorem moves_expect_ {k : Token.Kind} (hk : k ≠ .eof) :
    Moves v n .strict pre 1 r (expect_ k) fun _ => True :=
  .take (moves_expect hk) fun _ _ => .pure trivial

theorem Moves.expect {k : Token.Kind} {h : Unit → Parser β} (hk : k ≠ .eof)
    (hf : Moves v n .strict Any (δ - 1) 16 (h ()) Q) :
    Moves v n .strict pre δ r (expect_ k >>= h) Q :=
  .take (moves_expect_ hk) fun _ _ => hf

/-! ## Numbers and names -/

/-- A number is given out that no draft has. -/
theorem freshId_run {c : Context} {s : State} (hs : s.Fits v) :
    ∃ id s', freshId c s = .ok id s' ∧ s.Stays v c s' ∧ v.base ≤ id ∧ id < s'.nextId := by
  refine ⟨s.nextId, { s with nextId := s.nextId + 1 }, rfl, ?_, hs.ids, Nat.lt_succ_self _⟩
  exact hs.stays rfl rfl rfl (Nat.le_succ _) rfl id id hs.noted
    fun _ => .silent rfl rfl rfl rfl rfl

theorem looks_newInfo (span : Span) :
    Looks v n pre r (newInfo span) fun i => i.flags = {} := by
  intro c s _ hs _ _
  obtain ⟨id, s', hrun, hstays, -⟩ := freshId_run (c := c) hs
  unfold newInfo
  rw [bind_ok hrun]
  exact ⟨_, _, rfl, hstays, rfl⟩

theorem looks_infoFrom (start : Position) :
    Looks v n pre r (infoFrom start) fun i => i.flags = {} := by
  unfold infoFrom
  exact .bind (reads_spanFrom start).looks fun span _ => looks_newInfo span

theorem looks_identToken (x : Token) (name : Text) :
    Looks v n pre r (identToken x name)
      fun i => (Node.ident i).Unmarked := by
  unfold identToken
  exact .bind (looks_newInfo x.span) fun i hi => .pure (Node.unmarked_ident.2 hi)

theorem moves_ident :
    Moves v n .strict pre 1 r ident fun i => (Node.ident i).Unmarked := by
  refine .here fun x _ => ?_
  unfold ident
  refine .peek ?_
  refine .ite (fun _ => .fail (.inl rfl)) fun h => ?_
  have hx : x.kind = .identifier := by simpa using h
  refine .advance (by rw [hx]; decide) ?_
  exact (looks_identToken x x.literal).moves

/-! ## Speculation -/

/-- Going back keeps what was reported meanwhile. -/
theorem State.Fails.rewound {c : Context} {s saved : State} (hsaved : saved.Fits v)
    (h : saved.Fails v c s) : saved.Stays v c (s.rewound saved) := by
  obtain ⟨w, hw, hfits, hrecorded, hmissing, hquiet⟩ := h
  refine ⟨⟨⟨hfits.tokens.trans hw.tokens, hsaved.pos, hsaved.behind, hsaved.splits,
    hw.base.trans hfits.ids, hfits.noted, hsaved.starts, hsaved.opened⟩, hrecorded, hmissing,
    fun hc => ?_⟩, rfl, rfl⟩
  obtain ⟨hlexer, hlast, hend, hreports⟩ := (hquiet hc).within hw.tokens.symm
  exact ⟨hlexer, hlast, hend, hreports⟩

/-- Going back after looking ahead leaves no trace, also in a context that does not look ahead. -/
theorem State.Fails.traceless {c : Context} {s saved : State} (hsaved : saved.Fits v)
    (h : saved.Fails v { c with speculating := true } s) :
    saved.Stays v c (s.rewound saved) ∧ saved.Traceless v c.file (s.rewound saved) := by
  have hstays := h.rewound hsaved
  refine ⟨⟨hstays.toGoes.outside, rfl, rfl⟩, hstays.quiet rfl, ?_, rfl, rfl, rfl⟩
  exact hstays.fits.tokens.trans hsaved.tokens.symm

theorem Probes.read {a : Parser α} {f : α → Parser Bool} (h : Reads a)
    (hf : ∀ x, Probes v n pre r (f x)) : Probes v n pre r (a >>= f) := by
  intro c s hv hs hn hp
  obtain ⟨x, hx⟩ := h c s
  rw [bind_ok hx]
  exact hf x c s hv hs hn hp

theorem Reads.probes {p : Parser Bool} (h : Reads p) : Probes v n pre r p := by
  intro c s hv hs _ _
  obtain ⟨b, hb⟩ := h c s
  exact ⟨b, s, hb, .refl hs, .refl⟩

theorem Probes.pure {b : Bool} : Probes v n pre r (pure b) := Reads.pure.probes

theorem Probes.ite {b : Prop} [Decidable b] {p₁ p₂ : Parser Bool} (yes : Probes v n pre r p₁)
    (no : Probes v n pre r p₂) : Probes v n pre r (if b then p₁ else p₂) := by
  split
  · exact yes
  · exact no

theorem Probes.andAlso {b : Bool} {p : Parser Bool} (h : Probes v n pre r p) :
    Probes v n pre r (andAlso b p) := by
  unfold Parse.andAlso
  exact .ite h .pure

theorem probes_lookahead {p : Parser Unit} (h : Moves v n m pre 0 r p fun _ => True) :
    Probes v n pre r (lookahead p) := by
  intro c s hv hs hn hp
  have hends := h { c with speculating := true } s hv hs hn hp
  unfold lookahead
  cases hrun : p { c with speculating := true } s with
  | ok a s' =>
    rw [hrun] at hends
    exact ⟨true, _, rfl, hends.1.toGoes.fails.traceless hs⟩
  | error e s' =>
    rw [hrun] at hends
    obtain ⟨rfl, hfails, -⟩ := hends
    exact ⟨false, _, rfl, hfails.traceless hs⟩

theorem Probes.looks {p : Parser Bool} (h : Probes v n pre r p) :
    Looks v n pre r p fun _ => True := by
  intro c s hv hs hn hp
  obtain ⟨b, s', hrun, hstays, -⟩ := h c s hv hs hn hp
  exact ⟨b, s', hrun, hstays, trivial⟩

/-- What is done in another setting with the same drafts open. -/
theorem Ends.widen {w : Setting} {c : Context} {s : State} {x : EStateM.Result Failure State α}
    (hw : v.Within w) (hopened : w.opened = v.opened) (h : Ends w m c s δ P x) :
    Ends v m c s δ P x := by
  cases x with
  | ok a s' => exact ⟨⟨h.1.toGoes.widen hw hopened, h.1.taken⟩, h.2⟩
  | error e s' => exact ⟨h.1, h.2.1.widen hw, h.2.2⟩

/-- Two contexts in which the same is reported. -/
theorem Ends.inContext {c c' : Context} {s : State} {x : EStateM.Result Failure State α}
    (h : Ends v m c' s δ P x) (hspec : c'.speculating = c.speculating) (hfile : c'.file = c.file) :
    Ends v m c s δ P x := by
  have hgoes : ∀ {w s'}, s.Goes w c' s' → s.Goes w c s' :=
    fun h => ⟨h.fits, h.recorded, h.missing, fun hc => hfile ▸ h.quiet (hspec.trans hc)⟩
  cases x with
  | ok a s' => exact ⟨⟨hgoes h.1.toGoes, h.1.taken⟩, h.2⟩
  | error e s' =>
    obtain ⟨he, ⟨w, hw, hgo⟩, hallows⟩ := h
    refine ⟨he, ⟨w, hw, hgoes hgo⟩, ?_⟩
    cases m with
    | sure => exact hallows
    | strict => exact fun hc => hallows (hspec.trans hc)

theorem Moves.inSwitch {b : Bool} (h : Moves v n m pre δ r p P) :
    Moves v n m pre δ r (inContext (fun c => { c with inSwitch := b }) p) P := by
  intro c s hv hs hn hp
  have hends := h { c with inSwitch := b } s hv hs hn hp
  exact hends.inContext rfl rfl

/-- Where no drafts are kept, what follows is in the setting without further ones. -/
theorem Moves.untracked (h :
    Moves v.off n m pre δ r p P) : Moves v n m pre δ r (untracked p) P := by
  intro c s _ hs hn hp
  have hkeeps : v.off.Suits { c with inExpression := true } := by
    simp [Setting.Suits, Context.keeps]
  have hfits : s.Fits v.off := hs.widen Setting.off_within rfl
  have hends := (h _ s hkeeps hfits hn hp).widen Setting.within_off rfl
  exact hends.inContext rfl rfl

/-! ## Angle brackets -/

/-- A closing angle bracket may be the first character of a token that stays. -/
theorem moves_expectGreater :
    Moves v n .strict pre 0 r expectGreater fun _ => True := by
  refine .here fun x _ => ?_
  unfold expectGreater
  refine .peek (.ite (fun h => ?_) fun _ => ?_)
  · rw [beq_iff_eq] at h
    exact .advance (by rw [h]; decide) (.pure trivial)
  · cases hafter : afterGreater? x.kind with
    | none => exact moves_fail (.inl rfl)
    | some k =>
      obtain ⟨hx, -⟩ := afterGreater?_ne_eof hafter
      intro c s hv hs _ hcurrent
      refine ⟨⟨⟨⟨hs.tokens, hs.pos, hs.behind, ?_, hs.ids, hs.noted, hs.starts, hs.opened⟩, id, id,
        fun _ => .silent rfl rfl rfl rfl rfl⟩, Nat.le_refl _⟩, trivial⟩
      have hleft : s.left ≠ 0 := by
        rw [Ne, ← hs.current_eof, hcurrent]
        exact hx
      intro i t ht
      rw [Std.TreeMap.get?_eq_getElem?, Std.TreeMap.getElem?_insert] at ht
      split at ht
      next hi =>
        rw [Std.compare_eq_iff_eq] at hi
        cases ht
        simp only [State.left, hs.tokens] at hleft
        exact ⟨⟨_, hafter⟩, by omega, hcurrent ▸ hs.least_le.trans (Nat.le_succ _)⟩
      next => exact hs.splits i t (Std.TreeMap.get?_eq_getElem?.trans ht)

/-! ## Repetition -/

theorem moves_exhausted (hn : n < r) : Moves v n m pre δ r (throw .exhausted : Parser α) P :=
  fun c s _ _ hbudget _ => by omega

theorem forall_mem_push {acc : Array α} {a : α} (hacc : ∀ b ∈ acc, P b) (ha : P a) :
    ∀ b ∈ acc.push a, P b := by
  intro b hb
  rcases Array.mem_push.1 hb with hb | rfl
  · exact hacc b hb
  · exact ha

/-- A repetition whose items take a token where the test holds. -/
theorem moves_manyWhile {test : Parser Bool} {here : Token → Prop} (htest : Tells v test here)
    (hi : Moves v n m here 1 r p P) :
    Moves v n m pre 0 r (manyWhile test p) fun as => ∀ a ∈ as, P a := by
  have hloop : ∀ fuel {k pre} {acc : Array α}, k ≤ n → k < 16 * fuel + r → (∀ a ∈ acc, P a) →
      Moves v k m pre 0 r
        (repeated (do if ← test then return some (← p) else return none) acc fuel)
        fun as => ∀ a ∈ as, P a := by
    intro fuel
    induction fuel with
    | zero =>
      intro k pre acc _ hk _
      exact moves_exhausted (by omega)
    | succ fuel ih =>
      intro k pre acc hkn hk hacc
      simp only [repeated, bind_assoc]
      refine .test htest ?_ (.pure (by simpa using hacc))
      simp only [if_true, bind_assoc, pure_bind]
      refine .round (hi.lower hkn) fun j a hj ha => ?_
      exact ih (by omega) (by omega) (forall_mem_push hacc ha)
  unfold manyWhile
  exact .remaining fun fuel k hk hfuel => hloop fuel hk hfuel (by simp)

/-- A repetition whose items each take a token. -/
theorem moves_many {test : Parser Bool} (htest : Reads test) (hi : Moves v n m Any 1 r p P) :
    Moves v n m pre 0 r (manyWhile test p) fun as => ∀ a ∈ as, P a :=
  moves_manyWhile ⟨htest, fun _ _ _ _ => trivial⟩ hi

/-- Tokens that satisfy a test, which is false at the end. -/
theorem moves_skipped {test : Parser Bool} (htest : Tells v test fun t => t.kind ≠ .eof) :
    Moves v n m pre 0 r (manyWhile test Parse.advance) fun as => ∀ a ∈ as, True :=
  moves_manyWhile htest (.here fun _ ht => (moves_advance ht).mono (Nat.le_refl r) (Nat.le_refl 1)
    (fun _ => id) fun _ _ => trivial)

theorem moves_skipWhile {test : Parser Bool} (htest : Tells v test fun t => t.kind ≠ .eof) :
    Moves v n m pre 0 r (skipWhile test) fun _ => True := by
  unfold skipWhile
  exact .go (moves_skipped htest) fun _ _ => .pure trivial

/-- Each further item stands behind a separator. -/
theorem moves_moreSeparated {k : Token.Kind} (hk : k ≠ .eof) (hi : Moves v n m Any 0 r p P) :
    Moves v n m pre 0 r (moreSeparated k p) fun as => ∀ a ∈ as, P a := by
  have hloop : ∀ fuel {j pre} {acc : Array α}, j ≤ n → j < 16 * fuel + r → (∀ a ∈ acc, P a) →
      Moves v j m pre 0 r
        (repeated (do if ← accept k then return some (← p) else return none) acc fuel)
        fun as => ∀ a ∈ as, P a := by
    intro fuel
    induction fuel with
    | zero =>
      intro j pre acc _ hj _
      exact moves_exhausted (by omega)
    | succ fuel ih =>
      intro j pre acc hjn hj hacc
      simp only [repeated, bind_assoc]
      refine .acceptRound hk (fun i hi' => ?_) (.pure (by simpa using hacc))
      simp only [if_true, bind_assoc, pure_bind]
      refine .go (hi.lower (by omega)) fun a ha => ?_
      exact ih (by omega) (by omega) (forall_mem_push hacc ha)
  unfold moreSeparated manyWhile
  exact .remaining fun fuel k hk hfuel => hloop fuel hk hfuel (by simp)

/-- The first of the items may stand where fewer steps are left than behind it. -/
theorem moves_commaSeparated (hfirst : Moves v n m pre 1 r p P)
    (hmore : Moves v n m Any 0 16 p P) :
    Moves v n m pre 1 r (commaSeparated p) fun as => ∀ a ∈ as, P a := by
  unfold commaSeparated
  refine .take hfirst fun a ha => .go (moves_moreSeparated (by decide) hmore) fun as has => ?_
  exact .pure (by simpa using ⟨ha, has⟩)

theorem moves_parenthesized (hi : Moves v n .strict Any 1 16 p P) :
    Moves v n .strict pre 1 r (parenthesized p) fun as => ∀ a ∈ as, P a := by
  unfold parenthesized
  refine .expect (by decide) (.read (reads_check _) fun b => .ite (fun _ => ?_) fun _ => ?_)
  · exact .expect (by decide) (.pure (by simp))
  · refine .go (moves_commaSeparated hi hi.weak).weak fun as has => ?_
    exact .expect (by decide) (.pure has)

/-! ## Drafts and doc comments -/

theorem isInnermost_iff {s : State} {d : Draft} (hs : s.Fits v) : s.isInnermost d = true ↔
    ∃ x ∈ v.opened.head?, x.id = d.info.id := by
  rw [← hs.opened]
  unfold State.isInnermost
  cases s.drafts <;> simp [Draft.slot]

/-- A state with other drafts. -/
theorem State.Fits.withDrafts {w : Setting} {s : State} {ds : List OpenDraft} (hs : s.Fits v)
    (htokens : w.tokens = v.tokens) (hleast : w.least = v.least) (hbase : w.base ≤ v.base)
    (hstarts : ∀ d ∈ ds, d.childStart < v.tokens.size)
    (hopened : ds.map (fun d => d.draft.slot) = w.opened) : { s with drafts := ds }.Fits w where
  tokens := hs.tokens.trans htokens.symm
  pos := htokens ▸ hs.pos
  behind := htokens ▸ hleast ▸ hs.behind
  splits := htokens ▸ hleast ▸ hs.splits
  ids := hbase.trans hs.ids
  noted := hs.noted
  starts := htokens ▸ hstarts
  opened := hopened

/-- The innermost draft may be replaced by one with the same number and kind. -/
theorem looks_noteChild {d : Draft} (hd : v.Knows d.slot) :
    Looks v n pre r (noteChild d) fun _ => True := by
  intro c s _ hs _ _
  refine ⟨(), _, rfl, ?_, trivial⟩
  show s.Stays v c (if s.isInnermost d then { s with drafts := ⟨d, s.pos⟩ :: s.drafts.tail } else s)
  split
  next htop =>
    obtain ⟨x, hx, hid⟩ := (isInnermost_iff hs).1 htop
    obtain rfl := hd x hx hid
    have hopened :
        (OpenDraft.mk d s.pos :: s.drafts.tail).map (fun d => d.draft.slot) = v.opened := by
      rw [← List.cons_head?_tail hx, ← hs.opened, ← List.map_tail, List.map_cons]
    refine ⟨⟨hs.withDrafts rfl rfl (Nat.le_refl _) ?_ hopened, id, id,
      fun _ => .silent rfl rfl rfl rfl rfl⟩, rfl, rfl⟩
    exact List.forall_mem_cons.2 ⟨hs.pos, fun d hd => hs.starts d (List.mem_of_mem_tail hd)⟩
  next => exact .refl hs

/-- What follows a new number may use it for a draft. -/
theorem Moves.freshId {f : Nat → Parser β}
    (hf : ∀ id, (v.after id).Fresh id → Moves (v.after id) n m pre δ r (f id) Q) :
    Moves v n m pre δ r (freshId >>= f) Q := by
  intro c s hv hs hn hp
  obtain ⟨id, s', hrun, hstays, hid, hnext⟩ := freshId_run (c := c) hs
  have hleft := hstays.left_eq hs
  have hfits : s'.Fits (v.after id) :=
    ⟨hstays.fits.tokens, hstays.fits.pos, hstays.fits.behind, hstays.fits.splits,
      Nat.max_le.2 ⟨hstays.fits.ids, hnext⟩, hstays.fits.noted, hstays.fits.starts,
      hstays.fits.opened⟩
  rw [bind_ok hrun]
  have hrest := hf id (Setting.fresh_after hid) c s' hv hfits (by omega) (hstays.current hs ▸ hp)
  exact (hstays.leads hs).ends (hrest.widen Setting.within_after rfl)

theorem Moves.newInfo {span : Span} {f : Info → Parser β}
    (hf : ∀ i, i.flags = {} → (v.after i.id).Fresh i.id →
      Moves (v.after i.id) n m pre δ r (f i) Q) : Moves v n m pre δ r (newInfo span >>= f) Q := by
  unfold Parse.newInfo
  rw [bind_assoc]
  exact .freshId fun id hid => hf { id, span } rfl hid

theorem openDraft_run {c : Context} {s : State} (d : Draft) : openDraft d c s =
    .ok () (if c.keeps then { s with drafts := ⟨d, s.pos⟩ :: s.drafts } else s) := by
  unfold openDraft Context.keeps
  rw [bind_read]
  cases c.recovering || c.inExpression <;> rfl

theorem closeDraft_run {c : Context} {s : State} (d : Draft) : closeDraft d c s =
    .ok () (if s.isInnermost d then { s with drafts := s.drafts.tail } else s) := rfl

/-- Drafts do not matter for what was reported. -/
theorem State.Goes.of_drafts {c : Context} {s s' : State} {ds : List OpenDraft}
    (h : State.Goes v c { s with drafts := ds } s') : s.Goes v c s' := by
  refine ⟨h.fits, h.recorded, h.missing, fun hc => ?_⟩
  obtain ⟨hlexer, hlast, hend, hreports⟩ := h.quiet hc
  exact ⟨hlexer, hlast, hend, hreports⟩

theorem State.Goes.withDrafts {w : Setting} {c : Context} {s s' : State} {ds : List OpenDraft}
    (h : s.Goes w c s') (htokens : w.tokens = v.tokens)
    (hfits : { s' with drafts := ds }.Fits v) : s.Goes v c { s' with drafts := ds } := by
  refine ⟨hfits, h.recorded, h.missing, fun hc => ?_⟩
  obtain ⟨hlexer, hlast, hend, hreports⟩ := (h.quiet hc).within htokens.symm
  exact ⟨hlexer, hlast, hend, hreports⟩

/-- A draft is open while its body is parsed, or not at all. When the body fails the draft stays
open, in the place where it belongs. -/
theorem moves_tracked {d : Draft} {close : α → Draft} (hid : v.Fresh d.info.id)
    (hd : v.Admits d.kind) (hp : ∀ w : Setting, w.Inside d.slot → Moves w n m pre δ r p P)
    (hclose : ∀ a, P a → (close a).info.id = d.info.id) :
    Moves v n m pre δ r (do openDraft d; let a ← p; closeDraft (close a); return a) P := by
  intro c s hv hs hn hpre
  rw [bind_ok (openDraft_run d)]
  by_cases hkeeps : c.keeps = true
  · -- the draft is kept: closing it leads back to the drafts of this setting
    rw [if_pos hkeeps]
    let w := v.push d.slot hid.2 (hd (hv hkeeps))
    let s₁ : State := { s with drafts := ⟨d, s.pos⟩ :: s.drafts }
    have hs₁ : s₁.Fits w := hs.withDrafts rfl rfl (Nat.le_refl _)
      (List.forall_mem_cons.2 ⟨hs.pos, hs.starts⟩) (congrArg (d.slot :: ·) hs.opened)
    have hbody := hp w Setting.inside_push c s₁ hv hs₁ hn hpre
    cases hrun : p c s₁ with
    | error e s' =>
      rw [hrun] at hbody
      obtain ⟨he, ⟨u, hu, hgoes⟩, hallows⟩ := hbody
      rw [bind_error hrun]
      exact ⟨he, ⟨u, Setting.within_push.trans hu, hgoes.of_drafts⟩, hallows⟩
    | ok a s' =>
      rw [hrun] at hbody
      obtain ⟨hlead, ha⟩ := hbody
      have hinnermost : s'.isInnermost (close a) = true :=
        (isInnermost_iff hlead.fits).2 ⟨d.slot, rfl, (hclose a ha).symm⟩
      have hopened : s'.drafts.tail.map (fun d => d.draft.slot) = v.opened := by
        rw [List.map_tail, hlead.fits.opened]
        rfl
      rw [bind_ok hrun, bind_ok (closeDraft_run _), if_pos hinnermost]
      refine ⟨⟨hlead.toGoes.of_drafts.withDrafts rfl ?_, hlead.taken⟩, ha⟩
      exact hlead.fits.withDrafts rfl rfl (Nat.le_refl _)
        (fun d hd => hlead.fits.starts d (List.mem_of_mem_tail hd)) hopened
  · -- the draft is not kept, so there is nothing to close
    rw [if_neg hkeeps]
    have hsuits : v.off.Suits c := fun h => absurd h hkeeps
    have hbody := hp v.off hid.inside_off c s hsuits (hs.widen Setting.off_within rfl) hn hpre
    cases hrun : p c s with
    | error e s' =>
      rw [hrun] at hbody
      rw [bind_error hrun]
      exact hbody.widen Setting.within_off rfl
    | ok a s' =>
      rw [hrun] at hbody
      obtain ⟨hlead, ha⟩ := hbody.widen (v := v) Setting.within_off rfl
      have hother : ¬ s'.isInnermost (close a) = true := by
        rw [isInnermost_iff hlead.fits]
        rintro ⟨x, hx, heq⟩
        have hearlier := hid.1 x (List.mem_of_mem_head? hx)
        rw [hclose a ha] at heq
        omega
      rw [bind_ok hrun, bind_ok (closeDraft_run _), if_neg hother]
      exact ⟨hlead, ha⟩

theorem Moves.tracked {d : Draft} {close : α → Draft} (hid : v.Fresh d.info.id)
    (hd : v.Admits d.kind) (hp : ∀ w : Setting, w.Inside d.slot → Moves w n m pre 0 r p P)
    (hclose : ∀ a, P a → (close a).info.id = d.info.id)
    (hf : ∀ a, P a → Moves v n m Any δ r (f a) Q) :
    Moves v n m pre δ r (do openDraft d; let a ← p; closeDraft (close a); f a) Q := by
  have hall := Moves.go (moves_tracked hid hd hp hclose) hf
  simpa only [bind_assoc, pure_bind] using hall

theorem looks_docBefore (offset : Nat) :
    Looks v n pre r (docBefore offset) fun _ => True := by
  unfold docBefore
  intro c s hv hs _ _
  rw [bind_read]
  by_cases hspec : c.speculating = true
  · rw [if_pos hspec]
    exact ⟨none, s, rfl, .refl hs, trivial⟩
  · rw [if_neg hspec]
    exact ⟨_, _, rfl, hs.stays rfl rfl rfl (Nat.le_refl _) rfl id id hs.noted
      fun h => absurd h hspec, trivial⟩

end

end Javelin.Parse
