import Javelin.Parse.Recovery
import Javelin.Proofs.Parse.DeclarationRules

/-!
# The rules that recovery uses

Skipping, broken headers and array initializers of which some elements fail: what these rules do to
the state. Skipping never fails; it goes on where it stands in front of a token that does not end
it.

Recovery parses whole declarations and statements too. One of them starts at the token where its
rule began, and its doc comment is the one that was asked for there, so nothing that is parsed from
some token on starts before it.
-/

namespace Javelin.Parse

section

variable {v : Setting} {n : Nat} {m : Mode} {pre : Token → Prop} {δ r : Nat} {g : Grammar}

/-! ## Going back -/

/-- A parser that is tried gives a result at a later state, or goes back to where it started. -/
theorem attempt_run {α : Type} {p : Parser α} {P : α → Prop} (h : Moves v n m pre δ r p P)
    {c : Context} {s : State} (hv : v.Suits c) (hs : s.Fits v) (hn : 16 * s.left + r ≤ n)
    (hp : pre s.current) :
    (∃ a s', attempt p c s = .ok (some a) s' ∧ s.Leads v c s' δ ∧ P a) ∨
      ∃ s', attempt p c s = .ok none s' ∧ s.Stays v c s' ∧ s.Traceless v c.file s' := by
  have hends := h { c with speculating := true } s hv hs hn hp
  unfold attempt
  cases hrun : p { c with speculating := true } s with
  | ok a s' =>
    rw [hrun] at hends
    exact .inl ⟨a, s', rfl, ⟨hends.1.toGoes.outside, hends.1.taken⟩, hends.2⟩
  | error e s' =>
    rw [hrun] at hends
    obtain ⟨rfl, hfails, -⟩ := hends
    exact .inr ⟨_, rfl, hfails.traceless hs⟩

/-- A parser that is tried with its reports leaves one when it goes back. -/
theorem orRewind_run {α : Type} {p : Parser α} {P : α → Prop}
    (h : Moves v n .strict pre δ r p P) {c : Context} {s : State} (hv : v.Suits c) (hs : s.Fits v)
    (hn : 16 * s.left + r ≤ n) (hp : pre s.current) :
    (∃ a s', orRewind p c s = .ok (some a) s' ∧ s.Leads v c s' δ ∧ P a) ∨
      ∃ s', orRewind p c s = .ok none s' ∧ s.Stays v c s' := by
  have hends := h c s hv hs hn hp
  unfold orRewind
  cases hrun : p c s with
  | ok a s' =>
    rw [hrun] at hends
    exact .inl ⟨a, s', rfl, hends⟩
  | error e s' =>
    rw [hrun] at hends
    obtain ⟨rfl, hfails, -⟩ := hends
    exact .inr ⟨_, rfl, hfails.rewound hs⟩

/-! ## Skipping -/

theorem tells_notAny {ks : List Token.Kind} (hks : .eof ∈ ks) :
    Tells v (do return !(← checkAny ks)) fun t => t.kind ≠ .eof where
  reads := (reads_checkAny _).bind fun _ => .pure
  holds c s _ h heof := by
    have hnot : (!ks.contains s.current.kind) = true := by injection h
    simp [heof, hks] at hnot

theorem moves_skipTo (ks : List Token.Kind) : Moves v n m pre 0 r (skipTo ks) fun _ => True := by
  unfold skipTo
  exact moves_skipWhile (tells_notAny List.mem_cons_self)

theorem tells_notTopLevel {ks : List Token.Kind} (hks : .eof ∈ ks) :
    Tells v (do return !(← startsTopLevel ks)) fun t => t.kind ≠ .eof where
  reads := by
    unfold startsTopLevel
    simp only [bind_assoc, pure_bind]
    refine reads_isModifierStart.bind fun _ => reads_isTypeKeywordHere.bind fun _ => ?_
    exact (reads_checkAny _).bind fun _ => .pure
  holds c s _ h heof := by
    obtain ⟨b, hb⟩ := reads_isModifierStart c s
    obtain ⟨b', hb'⟩ := reads_isTypeKeywordHere c s
    unfold startsTopLevel at h
    simp only [bind_assoc, pure_bind] at h
    rw [bind_ok hb, bind_ok hb'] at h
    have hnot : (!(b || b' || ks.contains s.current.kind)) = true := by injection h
    simp [heof, hks] at hnot

theorem moves_skipUnitStatement (ht : ∀ t, pre t → t.kind ≠ .eof) :
    Moves v n m pre 1 r skipUnitStatement fun _ => True := by
  unfold skipUnitStatement
  refine .here fun t hpre => .take (moves_discard (moves_advance (ht t hpre))) fun _ _ => ?_
  refine .go (moves_skipWhile (tells_notTopLevel (by decide))) fun _ _ => ?_
  exact moves_discard (moves_accept (by decide))

theorem moves_skipToTypeStart (ht : ∀ t, pre t → t.kind ≠ .eof) :
    Moves v n m pre 1 r skipToTypeStart fun _ => True := by
  unfold skipToTypeStart
  refine .here fun t hpre => .take (moves_discard (moves_advance (ht t hpre))) fun _ _ => ?_
  exact moves_skipWhile (tells_notTopLevel (by decide))

/-- A step over one token, and rounds of their own behind it. -/
theorem Moves.skip {t : Token} {q : Parser Unit} (ht : t.kind ≠ .eof) (hδ : δ ≤ 1)
    (hq : ∀ k, k + 16 ≤ n → Moves v k m Any 0 r q fun _ => True) :
    Moves v n m (· = t) δ r (do discard Parse.advance; q) fun _ => True :=
  (Moves.round (δ := 1) (moves_discard (moves_advance ht)) fun k _ hk _ => hq k hk).mono
    (Nat.le_refl r) hδ (fun _ => id) fun _ => id

/-- Skipping may end at once where it need not take a token. -/
theorem Moves.stop {t : Token} {ks : List Token.Kind} (hδ : δ = 0 ∨ t.kind ∉ ks)
    (ht : t.kind ∈ ks) :
    Moves v n m (· = t) δ r (Pure.pure ()) fun _ => True := by
  obtain rfl := hδ.resolve_right (not_not_intro ht)
  exact .pure trivial

theorem moves_skipCaseLabel (fuel : Nat) : ∀ {k δ pre depth}, k < 16 * fuel + r → δ ≤ 1 →
    (∀ t, pre t → δ = 0 ∨ t.kind ∉ [.eof, .semicolon, .lbrace, .rbrace]) →
    Moves v k m pre δ r (skipCaseLabel depth fuel) fun _ => True := by
  induction fuel with
  | zero =>
    intro k δ pre depth hk _ _
    exact moves_exhausted (by omega)
  | succ fuel ih =>
    intro k δ pre depth hk hδ hpre
    unfold skipCaseLabel
    refine .here fun t ht => .peek ?_
    have hmore : ∀ depth j, j + 16 ≤ k →
        Moves v j m Any 0 r (skipCaseLabel depth fuel) fun _ => True :=
      fun _ _ hj => ih (by omega) (Nat.zero_le 1) fun _ _ => .inl rfl
    split
    case h_5 h | h_6 h => exact .skip (by rw [h]; decide) hδ (hmore _)
    case h_7 h | h_8 h =>
      exact .skip (by rw [h]; decide) hδ fun j hj => .ite (fun _ => hmore _ j hj) fun _ =>
        .pure trivial
    case h_9 h _ _ _ _ _ _ _ => exact .skip h hδ (hmore _)
    all_goals exact .stop (hpre t ht) (by simp [*])

theorem moves_skipStatement (fuel : Nat) : ∀ {k δ pre depth}, k < 16 * fuel + r → δ ≤ 1 →
    (∀ t, pre t → δ = 0 ∨ t.kind ∉ [.eof, .lbrace, .rbrace]) →
    Moves v k m pre δ r (skipStatement depth fuel) fun _ => True := by
  induction fuel with
  | zero =>
    intro k δ pre depth hk _ _
    exact moves_exhausted (by omega)
  | succ fuel ih =>
    intro k δ pre depth hk hδ hpre
    unfold skipStatement
    refine .here fun t ht => .peek ?_
    have hmore : ∀ depth j, j + 16 ≤ k →
        Moves v j m Any 0 r (skipStatement depth fuel) fun _ => True :=
      fun _ _ hj => ih (by omega) (Nat.zero_le 1) fun _ _ => .inl rfl
    split
    case h_4 h | h_5 h => exact .skip (by rw [h]; decide) hδ (hmore _)
    case h_6 h =>
      exact .skip (by rw [h]; decide) hδ fun j hj => .ite (fun _ => hmore _ j hj) fun _ =>
        .pure trivial
    case h_7 h _ _ _ _ _ => exact .skip h hδ (hmore _)
    all_goals exact .stop (hpre t ht) (by simp [*])

theorem moves_skipBalanced {stop : List Token.Kind} (fuel : Nat) : ∀ {k pre depth},
    k < 16 * fuel + r → Moves v k m pre 0 r (skipBalanced stop depth fuel) fun _ => True := by
  induction fuel with
  | zero =>
    intro k pre depth hk
    exact moves_exhausted (by omega)
  | succ fuel ih =>
    intro k pre depth hk
    unfold skipBalanced
    refine .here fun t _ => .peek (.ite (fun _ => .pure trivial) fun h => ?_)
    have ht : t.kind ≠ .eof := by
      rintro heof
      simp [heof] at h
    refine .skip ht (Nat.zero_le 1) fun j hj => ?_
    split <;> exact ih (by omega)

theorem moves_skipParens (fuel : Nat) : ∀ {k pre depth}, k < 16 * fuel + r →
    Moves v k .strict pre 0 r (skipParens depth fuel) fun _ => True := by
  induction fuel with
  | zero =>
    intro k pre depth hk
    exact moves_exhausted (by omega)
  | succ fuel ih =>
    intro k pre depth hk
    unfold skipParens
    refine .here fun t _ => .check (.ite (fun _ => .fail (.inl rfl)) fun h => ?_)
    have ht : t.kind ≠ .eof := fun heof => h (beq_iff_eq.2 heof)
    refine .round (moves_advance ht) fun j x hj _ => ?_
    split
    · exact ih (by omega)
    · exact .ite (fun _ => .pure trivial) fun _ => ih (by omega)
    · exact ih (by omega)

/-! ## Broken headers -/

theorem moves_typeStart (hg : Serves n g) (start : Position) :
    Moves v n .strict pre 1 16 (typeStart g start) fun d => (Node.typeDecl d).Unmarked := by
  unfold typeStart
  refine .go (moves_modifiers hg (by decide)) fun mods hmods => ?_
  refine .read reads_isTypeKeywordHere fun _ => .ite (fun _ => .fail (.inl rfl)) fun _ => ?_
  refine .look (looks_newInfo _) fun i hi => .take moves_typeKindAndName fun x hx => ?_
  exact .pure (newType_header hi hmods hx).1

/-- What follows the type parameters in the header of a method. -/
def methodNamed (g : Grammar) (ownerName : Text) (mods : Modifiers) (ps : List TypeParam) :
    Parser MethodDecl := do
  let d := { (default : MethodDecl) with
    info := ← newInfo {}, modifiers := some mods, typeParams := ps }
  let d ← if (← check .identifier) && (← checkAt 1 .lparen) then
      let name ← ident
      pure { d with name, isConstructor := name.name == ownerName }
    else
      let type ← resultType g
      let name ← ident
      pure { d with result := some type, name }
  if !(← check .lparen) then fail "("
  return d

theorem moves_methodNamed (hg : Serves n g) (owner : Text) {mods : Modifiers}
    {ps : List TypeParam} (hmods : (Node.modifiers mods).Unmarked)
    (hps : ∀ p ∈ ps, (Node.typeParam p).Unmarked) :
    Moves v n .strict pre 1 16 (methodNamed g owner mods ps)
      fun d => (Node.method d).Unmarked := by
  have hend : ∀ d, (Node.method d).Unmarked → Moves v n .strict Any 0 16
      (do if !(← check .lparen) then fail "("
          return d) fun d => (Node.method d).Unmarked := fun d hd =>
    .read (reads_check _) fun _ => .ite (fun _ => .fail (.inl rfl)) fun _ => .pure hd
  unfold methodNamed
  simp only [pure_bind]
  refine .look (looks_newInfo _) fun i hi => .read (reads_check _) fun _ => ?_
  refine .read (reads_checkAt _ _) fun _ => .ite (fun _ => ?_) fun _ => ?_
  · refine .take moves_ident fun name hname => hend _ ?_
    exact (newMethod_header hi hmods hps (o := none) (by simp) hname).1
  · refine .take (moves_resultType hg (by decide)) fun t ht => .go moves_ident.weak
      fun name hname => ?_
    exact hend _ (newMethod_header hi hmods hps (by simpa using ht) hname).1

theorem moves_methodStart (hg : Serves n g) (owner : Text) :
    Moves v n .strict pre 1 16 (methodStart g owner)
      fun d => (Node.method d).Unmarked := by
  unfold methodStart
  simp only [pure_bind]
  refine .go (moves_modifiers hg (by decide)) fun mods hmods => .read (reads_check _) fun _ => ?_
  refine .ite (fun _ => ?_) fun _ => moves_methodNamed hg owner hmods (by simp)
  exact .go (moves_typeParams hg).weak fun ps hps => moves_methodNamed hg owner hmods hps

theorem moves_bareDeclarator : Moves v n .strict pre 1 r bareDeclarator fun _ => True := by
  unfold bareDeclarator
  refine .take moves_ident fun name _ => .go moves_dimCount fun dims _ => ?_
  exact .look (looks_infoFrom _) fun i _ => .pure trivial

/-- What recovery tries for a field: its header up to the first initializer. -/
def fieldHeader (g : Grammar) (start : Position) : Parser VarDecl := do
  let mods ← modifiers g
  let type ← g.type
  let w ← bareDeclarator
  return ⟨← infoFrom start, some mods, type, [w], none⟩

theorem moves_fieldHeader (hg : Serves n g) (start : Position) :
    Moves v n .strict pre 1 16 (fieldHeader g start) fun _ => True := by
  refine .go (moves_modifiers hg (by decide)) fun mods _ => .take (hg.type (by decide))
    fun t _ => ?_
  refine .go moves_bareDeclarator.weak fun w _ => .look (looks_infoFrom start) fun i _ => ?_
  exact .pure trivial

/-- What recovery tries for local variables, with the token that must follow. -/
def localHeader (g : Grammar) (start : Position) : Parser VarDecl := do
  let mods ← modifiers g
  let type ← localType (← g.type)
  let w ← bareDeclarator
  if !(← checkAny [.assign, .comma, .semicolon]) then fail "="
  return ⟨← infoFrom start, some mods, type, [w], none⟩

theorem moves_localHeader (hg : Serves n g) (start : Position) :
    Moves v n .strict pre 1 16 (localHeader g start) fun _ => True := by
  unfold localHeader
  refine .go (moves_modifiers hg (by decide)) fun mods _ => .take (hg.type (by decide))
    fun t ht => ?_
  refine .look (looks_localType ht) fun t _ => .go moves_bareDeclarator.weak fun w _ => ?_
  refine .read (reads_checkAny _) fun _ => .ite (fun _ => .fail (.inl rfl)) fun _ => ?_
  exact .look (looks_infoFrom start) fun i _ => .pure trivial

theorem probes_isMemberHeader (hg : Serves n g) : Probes v n pre 16 (isMemberHeader g) := by
  have hend : ∀ {pre : Token → Prop}, Moves v n .strict pre 0 16
      (do discard (resultType g)
          discard ident
          expect_ .lparen
          skipParens 1 (← remaining)
          if !(← checkAny [.lbrace, .kwThrows]) then fail "\x7b" : Parser Unit)
      fun _ => True := by
    refine .go (moves_discard (moves_resultType hg (by decide))).weak fun _ _ => ?_
    refine .go (moves_discard moves_ident).weak fun _ _ => .expect (by decide) ?_
    refine .loop (fun fuel k _ hfuel => moves_skipParens fuel hfuel) fun _ _ => ?_
    refine .read (reads_checkAny _) fun _ => .ite (fun _ => ?_) fun _ => .pure trivial
    exact moves_fail (.inl rfl)
  unfold isMemberHeader
  refine .read (reads_checkAny _) fun _ => .ite .pure (probes_lookahead (m := .strict) ?_)
  refine .go (moves_discard (moves_modifiers hg (by decide))) fun _ _ => ?_
  refine .read (reads_check _) fun _ => .ite (fun _ => ?_) fun _ => hend
  exact .go (moves_discard (moves_typeParams hg)).weak fun _ _ => hend

/-! ## Array initializers -/

/-- One element, behind which the initializer goes on or ends. -/
theorem moves_elementHere (hg : Serves n g) : Moves v n .strict pre 1 16
    (do let x ← g.initializer
        if !(← checkAny [.comma, .rbrace]) then fail "\x7d"
        return x : Parser Expr) fun _ => True := by
  refine .take (hg.initializer (by decide)) fun x _ => .read (reads_checkAny _) fun _ => ?_
  exact .ite (fun _ => .fail (.inl rfl)) fun _ => .pure trivial

/-- Trying with a report: what follows a result, and what follows when nothing was taken. -/
theorem Moves.orRewind {α β : Type} {p : Parser α} {P : α → Prop} {f : Option α → Parser β}
    {Q : β → Prop} (hp : Moves v n .strict pre 0 r p P)
    (yes : ∀ a, P a → Moves v n m Any δ r (f (some a)) Q) (no : Moves v n m pre δ r (f none) Q) :
    Moves v n m pre δ r (Parse.orRewind p >>= f) Q := by
  intro c s hv hs hn hcurrent
  obtain ⟨a, s', hrun, hlead, ha⟩ | ⟨s', hrun, hstays⟩ := orRewind_run hp hv hs hn hcurrent
  · have htaken := hlead.taken
    rw [bind_ok hrun]
    exact hlead.ends (yes a ha c s' hv hlead.fits (by omega) trivial)
  · have hleft := hstays.left_eq hs
    rw [bind_ok hrun]
    exact (hstays.leads hs).ends (no c s' hv hstays.fits (by omega) (hstays.current hs ▸ hcurrent))

theorem moves_recoverElements (hg : Serves n g) (fuel : Nat) : ∀ {k pre acc bad}, k ≤ n →
    k < 16 * fuel + 16 → Moves v k m pre 0 16 (recoverElements g acc bad fuel) fun _ => True := by
  induction fuel with
  | zero =>
    intro k pre acc bad _ hk
    exact moves_exhausted (by omega)
  | succ fuel ih =>
    intro k pre acc bad hkn hk
    have hend : ∀ {pre : Token → Prop} acc bad, Moves v k m pre 0 16
        (do if ← accept .comma then recoverElements g acc bad fuel
            else return (acc.toList, bad)) fun _ => True :=
      fun acc bad => .acceptRound (by decide) (fun j hj => ih (by omega) (by omega)) (.pure trivial)
    unfold recoverElements
    refine .read (reads_checkAny _) fun _ => .ite (fun _ => .pure trivial) fun _ => ?_
    refine .read reads_startPos fun start => ?_
    refine .orRewind ((moves_elementHere (hg.lower hkn)).weak) (fun x _ => ?_) ?_
    · exact hend _ _
    · refine .loop (fun fuel j hj hfuel => moves_skipBalanced fuel hfuel) fun _ _ => ?_
      exact .look (looks_infoFrom start) fun i _ => hend _ _

/-- A broken array initializer, from its brace on. -/
theorem moves_recoverArrayInit (hg : Serves n g) (hpre : ∀ t, pre t → t.kind ≠ .eof) :
    Moves v n m pre 1 r (recoverArrayInit g) fun _ => True := by
  unfold recoverArrayInit
  refine .read reads_startPos fun start => .here fun t ht => ?_
  refine .take (moves_discard (moves_advance (hpre t ht))) fun _ _ => ?_
  refine .loop (fun fuel k hk hfuel => moves_recoverElements hg fuel hk hfuel) fun x _ => ?_
  refine .go (moves_accept (by decide)) fun closed _ => ?_
  exact .look (looks_infoFrom start) fun i _ => .pure trivial

end

/-! ## What a parser gives back -/

/-- What holds of all that a parser gives back. -/
def Returns {α : Type} (p : Parser α) (Q : α → Prop) : Prop :=
  ∀ c s a s', p c s = .ok a s' → Q a

/-- What holds of all that a parser gives back and the start of the token where the parser began. -/
def Begins {α : Type} (p : Parser α) (R : Position → α → Prop) : Prop :=
  ∀ c s a s', p c s = .ok a s' → R s.current.span.start a

section

variable {α β : Type} {p : Parser α} {f : α → Parser β} {P : α → Prop} {Q : β → Prop}
  {R : Position → β → Prop}

theorem bind_inv {c : Context} {s s'' : State} {b : β} (h : (p >>= f) c s = .ok b s'') :
    ∃ a s', p c s = .ok a s' ∧ f a c s' = .ok b s'' := by
  cases hp : p c s with
  | ok a s' => exact ⟨a, s', rfl, by rwa [bind_ok hp] at h⟩
  | error e s' =>
    rw [bind_error hp] at h
    cases h

theorem Returns.after (hp : Returns p P) (hf : ∀ a, P a → Returns (f a) Q) :
    Returns (p >>= f) Q := by
  intro c s b s'' h
  obtain ⟨a, s', hrun, hrest⟩ := bind_inv h
  exact hf a (hp c s a s' hrun) c s' b s'' hrest

theorem Returns.bind (hf : ∀ a, Returns (f a) Q) : Returns (p >>= f) Q :=
  Returns.after (P := fun _ => True) (fun _ _ _ _ _ => trivial) fun a _ => hf a

theorem Returns.pure {b : β} (h : Q b) : Returns (pure b) Q := by
  rintro c s a s' ⟨⟩
  exact h

theorem Returns.throw {e : Failure} : Returns (throw e : Parser β) Q := by
  intro c s b s' h
  cases h

theorem returns_fail {t : Text} : Returns (fail t : Parser β) Q :=
  .bind fun _ => .bind fun _ => .throw

theorem Returns.ite {b : Prop} [Decidable b] {p₁ p₂ : Parser β} (yes : Returns p₁ Q)
    (no : Returns p₂ Q) : Returns (if b then p₁ else p₂) Q := by
  split
  · exact yes
  · exact no

/-- A step that may be left out. -/
theorem Returns.opt {b : Prop} [Decidable b] {p : Parser Unit} {f : Unit → Parser β}
    (hf : ∀ a, Returns (f a) Q) : Returns (if b then p >>= f else f ()) Q := .ite (.bind hf) (hf ())

/-- One of two steps. -/
theorem Returns.branch {b : Prop} [Decidable b] {p' : Parser α} (hf : ∀ a, Returns (f a) Q) :
    Returns (if b then p >>= f else p' >>= f) Q := .ite (.bind hf) (.bind hf)

/-- One of two steps, of which one is made of two. -/
theorem Returns.choice {γ : Type} {b : Prop} [Decidable b] {p₀ : Parser γ} {h : γ → Parser α}
    {p' : Parser α} (hf : ∀ a, Returns (f a) Q) :
    Returns (if b then p₀ >>= fun x => h x >>= f else p' >>= f) Q :=
  .ite (.bind fun _ => .bind hf) (.bind hf)

theorem Returns.unless {γ : Type} {b : Prop} [Decidable b] {p₀ : Parser γ} {h : γ → Parser α}
    {p' : Parser α} (hf : ∀ a, Returns (f a) Q) :
    Returns (if b then p' >>= f else p₀ >>= fun x => h x >>= f) Q :=
  .ite (.bind hf) (.bind fun _ => .bind hf)

theorem Returns.mono {Q' : β → Prop} {p : Parser β} (h : Returns p Q) (himp : ∀ b, Q b → Q' b) :
    Returns p Q' := fun c s b s' hrun => himp b (h c s b s' hrun)

theorem returns_spanFrom (i : Position) : Returns (spanFrom i) fun x => x.start = i := by
  rintro c s a s' ⟨⟩
  rfl

theorem returns_newInfo (x : Span) : Returns (newInfo x) fun i => i.span = x := by
  rintro c s a s' ⟨⟩
  rfl

theorem returns_infoFrom (i : Position) : Returns (infoFrom i) fun x => x.span.start = i :=
  .after (returns_spanFrom i) fun x hx => (returns_newInfo x).mono fun _ h => h ▸ hx

/-- What ends with the information of a node. -/
theorem Returns.infoFrom {i : Position} {f : Info → β}
    (hf : ∀ x : Info, x.span.start = i → Q (f x)) : Returns (do return f (← infoFrom i)) Q :=
  .after (returns_infoFrom i) fun x hx => .pure (hf x hx)

theorem Begins.startPos {f : Position → Parser β} (hf : ∀ i, Returns (f i) (R i)) :
    Begins (startPos >>= f) R := fun c s b s' h => hf _ c s b s' h

/-- What follows may begin at the same token. -/
theorem Begins.again {f : Position → Parser β}
    (hf : ∀ i, Begins (f i) fun j b => j = i → R i b) : Begins (Parse.startPos >>= f) R :=
  fun c s b s' h => hf _ c s b s' h rfl

theorem Returns.begins {p : Parser β} (h : Returns p Q) (himp : ∀ i b, Q b → R i b) :
    Begins p R := fun c s b s' hrun => himp _ b (h c s b s' hrun)

/-- A parser that reads first. -/
theorem Begins.read (hp : Reads p) (hf : ∀ a, Begins (f a) R) : Begins (p >>= f) R := by
  intro c s b s' h
  obtain ⟨a, ha⟩ := hp c s
  rw [bind_ok ha] at h
  exact hf a c s b s' h

theorem Begins.ite {b : Prop} [Decidable b] {p₁ p₂ : Parser β} (yes : Begins p₁ R)
    (no : Begins p₂ R) : Begins (if b then p₁ else p₂) R := by
  split
  · exact yes
  · exact no

end

/-! ## Where declarations and statements start -/

/-- What the rules of a grammar start with. -/
structure Opens (g : Grammar) : Prop where
  block : ∀ track, Begins (g.block track) fun i b => b.info.span.start = i
  typeBody : ∀ track d, Returns (g.typeBody track d) fun d' => d'.doc = d.doc
  typeRest : ∀ i mods doc, Returns (g.typeRest i mods doc) fun d =>
    d.info.span.start = i ∧ d.doc = doc

section

variable {g : Grammar}

theorem returns_blockStatements {wrap : Block → Draft} (fuel : Nat) : ∀ b : Block,
    Returns (blockStatements g wrap b fuel) fun b' => b'.info = b.info := by
  induction fuel with
  | zero => exact fun _ => .throw
  | succ fuel ih =>
    intro b
    unfold blockStatements
    exact .bind fun _ => .ite (.pure rfl) (.bind fun st => .bind fun _ =>
      (ih { b with stmts := b.stmts ++ [st] }).mono fun _ h => h)

theorem returns_finishBlock (b : Block) :
    Returns (finishBlock b) fun b' => b'.info.span.start = b.info.span.start :=
  .after (returns_spanFrom _) fun _ h => .pure h

theorem begins_emptyBlock : Begins emptyBlock fun i b => b.info.span.start = i :=
  .startPos fun i => .after (returns_newInfo _) fun _ h => .pure (by rw [h])

theorem begins_blockRule (track : Bool) :
    Begins (blockRule g track) fun i b => b.info.span.start = i := by
  intro c s b s'' h
  obtain ⟨b₀, s', hempty, h⟩ := bind_inv h
  rw [← begins_emptyBlock c s b₀ s' hempty]
  refine Returns.bind (Q := fun b => b.info.span.start = b₀.info.span.start) (fun _ => .opt fun _ =>
    .bind fun fuel => .after (returns_blockStatements fuel b₀) fun b hb => .bind fun _ =>
      .opt fun _ => ?_) c s' b s'' h
  exact (returns_finishBlock b).mono fun _ h => h.trans (congrArg (·.span.start) hb)

/-! ### Types and members -/

theorem returns_typeClauses (fuel : Nat) : ∀ d : TypeDecl,
    Returns (typeClauses g d fuel) fun d' => d'.doc = d.doc := by
  induction fuel with
  | zero => exact fun _ => .throw
  | succ fuel ih =>
    intro d
    have more {d' : TypeDecl} (h : d'.doc = d.doc) :
        Returns (typeClauses g d' fuel) fun x => x.doc = d.doc :=
      (ih d').mono fun _ hx => hx.trans h
    unfold typeClauses
    refine .bind fun _ => .ite ?_ (.bind fun _ => .ite (.bind fun _ => more rfl)
      (.bind fun _ => .ite (.bind fun _ => .bind fun _ => more rfl) (.pure rfl)))
    exact .ite (.bind fun _ => more rfl) (.bind fun _ => more rfl)

theorem returns_typeHeaderRest (d : TypeDecl) :
    Returns (typeHeaderRest g d) fun d' => d'.doc = d.doc :=
  .bind fun _ => .branch fun _ => .branch fun _ => .bind fun fuel => returns_typeClauses fuel _

theorem returns_membersFrom (fuel : Nat) : ∀ d : TypeDecl,
    Returns (membersFrom g d fuel) fun d' => d'.doc = d.doc := by
  induction fuel with
  | zero => exact fun _ => .throw
  | succ fuel ih =>
    intro d
    have more {d' : TypeDecl} (h : d'.doc = d.doc) :
        Returns (do noteChild (.type d'); membersFrom g d' fuel) fun x => x.doc = d.doc :=
      .bind fun _ => (ih d').mono fun _ hx => hx.trans h
    unfold membersFrom
    refine .bind fun _ => .ite (.pure rfl) (.bind fun m => ?_)
    cases m <;> exact more rfl

theorem returns_typeBodyRule (track : Bool) (d : TypeDecl) :
    Returns (typeBodyRule g track d) fun d' => d'.doc = d.doc := by
  have rest {p : Parser TypeDecl} (hp : Returns p fun x => x.doc = d.doc) : Returns (do
      let d ← p
      let d ← membersFrom g d (← remaining)
      expect_ .rbrace
      if track then closeDraft (.type d)
      return d) fun x => x.doc = d.doc :=
    .after hp fun d' hd => .bind fun fuel => .after (returns_membersFrom fuel d') fun x hx =>
      .bind fun _ => .opt fun _ => .pure (hx.trans hd)
  refine .bind fun i => .bind fun _ => .opt fun _ => .ite ?_ (rest (.pure rfl))
  exact .bind fun _ => .bind fun _ => .bind fun _ => rest (.pure rfl)

theorem returns_typeRestRule (hg : Opens g) (i : Position) (mods : Modifiers)
    (doc : Option Comment) : Returns (typeRestRule g i mods doc) fun d =>
      d.info.span.start = i ∧ d.doc = doc := by
  refine .bind fun _ => .bind fun x => ?_
  refine .after (returns_typeHeaderRest _) fun d hd => .after (hg.typeBody true d) fun d' hd' => ?_
  exact .after (returns_spanFrom i) fun _ h => .pure ⟨h, hd'.trans hd⟩

theorem begins_importDecl : Begins importDecl fun i d => d.info.span.start = i :=
  .startPos fun i => .bind fun _ => .bind fun _ => .after (returns_spanFrom i) fun _ h => .pure h

theorem begins_importHeader : Begins importHeader fun i d => d.info.span.start = i := by
  refine .startPos fun i => .bind fun _ => .bind fun _ => .bind fun _ => .bind fun _ =>
    .bind fun _ => .bind fun x => .bind fun _ => ?_
  exact .infoFrom fun x h => h

/-- A type declaration from behind its doc comment. -/
theorem returns_typeDecl (hg : Opens g) (i : Position) (doc : Option Comment) : Returns (do
    let mods ← modifiers g
    if !(← isTypeKeywordHere) then fail "class, interface, enum or record"
    g.typeRest i mods doc) fun d => d.info.span.start = i ∧ d.doc = doc :=
  .bind fun mods => .bind fun _ => .opt fun _ => hg.typeRest i mods doc

theorem begins_typeDecl (hg : Opens g) : Begins (typeDecl g) fun i d => d.info.span.start = i :=
  .startPos fun i => .bind fun doc => (returns_typeDecl hg i doc).mono fun _ h => h.1

/-- An enum constant from behind its doc comment. -/
theorem returns_enumConstant (i : Position) (doc : Option Comment) : Returns (do
    let annots ← annotsHere g
    let name ← ident
    let args ← if ← check .lparen then arguments g else pure []
    let body ← untracked (anonymousBody g)
    return ⟨← infoFrom i, annots, name, args, body, doc⟩) fun k : EnumConstant =>
      k.info.span.start = i ∧ k.doc = doc :=
  .bind fun _ => .bind fun _ => .bind fun _ => .branch fun _ => .bind fun _ =>
    .infoFrom fun _ h => ⟨h, rfl⟩

theorem returns_fieldHeader (i : Position) :
    Returns (fieldHeader g i) fun d => d.info.span.start = i :=
  .bind fun _ => .bind fun _ => .bind fun _ => .infoFrom fun _ h => h

theorem returns_localHeader (i : Position) :
    Returns (localHeader g i) fun d => d.info.span.start = i :=
  .bind fun _ => .bind fun _ => .bind fun _ => .bind fun _ => .bind fun _ => .opt fun _ =>
    .infoFrom fun _ h => h

theorem begins_enumConstant : Begins (enumConstant g) fun i k => k.info.span.start = i :=
  .startPos fun i => .bind fun doc => (returns_enumConstant i doc).mono fun _ h => h.1

/-- The doc comment of a member. -/
def memberDoc : Member → Option Comment
  | .field d => d.doc
  | .method d => d.doc
  | .initializer .. => none
  | .type d => d.doc

theorem returns_methodRest (d : MethodDecl) :
    Returns (methodRest g d) fun d' => d'.doc = d.doc :=
  .bind fun _ => .bind fun _ => .bind fun _ => .branch fun _ => .pure rfl

theorem returns_methodBody (d : MethodDecl) :
    Returns (methodBody g d) fun d' => d'.doc = d.doc := by
  refine .bind fun _ => .ite (.pure rfl) (.bind fun _ => .bind fun _ => .bind fun _ => ?_)
  exact .bind fun _ => .bind fun _ => .bind fun _ => .bind fun _ => .bind fun _ => .pure rfl

/-- The body of a method and its final span. -/
theorem returns_finishMethod {i : Position} {d : MethodDecl} {doc : Option Comment}
    (h : d.doc = doc) : Returns (do finishMethod i (← methodBody g d)) fun m =>
      m.info.span.start = i ∧ memberDoc m = doc :=
  .after (returns_methodBody d) fun _ hd => .after (returns_spanFrom i) fun _ hx =>
    .pure ⟨hx, hd.trans h⟩

theorem returns_constructorMember (owner : Text) (i : Position) (d : MethodDecl) :
    Returns (constructorMember g owner i d) fun m =>
      m.info.span.start = i ∧ memberDoc m = d.doc := by
  refine .bind fun name => .bind fun _ => .ite ?_ ?_
  · exact .after (P := fun x => x.doc = d.doc) (.pure rfl) fun _ h => returns_finishMethod h
  · exact .after (returns_methodRest _) fun _ h => returns_finishMethod h

theorem returns_methodMember (i : Position) (d : MethodDecl) :
    Returns (methodMember g i d) fun m => m.info.span.start = i ∧ memberDoc m = d.doc :=
  .after (returns_methodRest d) fun _ hd => .bind fun _ => .choice fun _ => returns_finishMethod hd

theorem begins_initializerBlock : Begins (initializerBlock g) fun i m =>
    m.info.span.start = i ∧ ∃ info isStatic b, m = .initializer info isStatic b := by
  refine .startPos fun i => .bind fun _ => .bind fun _ => .bind fun _ => .bind fun _ =>
    .bind fun _ => .bind fun _ => .bind fun _ => .bind fun _ => .bind fun _ => .bind fun _ => ?_
  exact .after (returns_spanFrom i) fun _ h => .pure ⟨h, _, _, _, rfl⟩

/-- A member from behind its doc comment. -/
def memberFrom (g : Grammar) (kind : TypeKind) (owner : Text) (start : Position)
    (doc : Option Comment) : Parser (Option Member) := do
  let mods ← modifiers g
  if ← isTypeKeywordHere then return some (.type (← g.typeRest start mods doc))
  let info ← newInfo ⟨start, start⟩
  let ps ← if ← check .less then typeParams g else pure []
  let d := { (default : MethodDecl) with info, modifiers := some mods, typeParams := ps, doc }
  if ← isConstructorHere kind owner then
    return some (← constructorMember g owner start d)
  let type ← resultType g
  let name ← ident
  if ← check .lparen then
    return some (← methodMember g start { d with result := some type, name })
  if !ps.isEmpty then fail "("
  let vars ← declaratorsFrom g name
  expect_ .semicolon
  return some (.field ⟨← infoFrom start, some mods, type, vars, doc⟩)

theorem returns_memberFrom (hg : Opens g) (kind : TypeKind) (owner : Text) (i : Position)
    (doc : Option Comment) : Returns (memberFrom g kind owner i doc) fun o =>
      ∀ m ∈ o, m.info.span.start = i ∧ memberDoc m = doc := by
  have some {p : Parser Member} (h : Returns p fun m => m.info.span.start = i ∧ memberDoc m = doc) :
      Returns (do return some (← p)) fun o =>
        ∀ m ∈ o, m.info.span.start = i ∧ memberDoc m = doc :=
    .after h fun m hm => .pure fun _ h => Option.some.inj h ▸ hm
  refine .bind fun mods => .bind fun _ => .ite ?_ (.bind fun info => .bind fun _ => .branch ?_)
  · exact .after (hg.typeRest i mods doc) fun d hd => .pure fun _ h => Option.some.inj h ▸ hd
  intro ps
  refine .bind fun _ => .ite (some (returns_constructorMember owner i _)) ?_
  refine .bind fun type => .bind fun name => .bind fun _ =>
    .ite (some (returns_methodMember i _)) (.opt fun _ => .bind fun vars => .bind fun _ => ?_)
  exact .infoFrom fun x hx m hm => Option.some.inj hm ▸ ⟨hx, rfl⟩

theorem accept_false {k : Token.Kind} {c : Context} {s s' : State}
    (h : accept k c s = .ok false s') : s' = s := by
  by_cases hk : s.current.kind = k
  · unfold accept at h
    rw [bind_ok (p := check k) (a := s.current.kind == k) rfl, if_pos (beq_iff_eq.2 hk)] at h
    obtain ⟨_, _, _, ⟨⟩⟩ := bind_inv h
  · rw [accept_no hk] at h
    cases h
    rfl

theorem begins_member (hg : Opens g) (kind : TypeKind) (owner : Text) :
    Begins (member g kind owner) fun i o => ∀ m ∈ o, m.info.span.start = i := by
  have rest : Begins (do
      let start ← startPos
      if (← check .lbrace) || ((← check .kwStatic) && (← checkAt 1 .lbrace)) then
        return some (← initializerBlock g)
      let doc ← docBefore start.offset
      memberFrom g kind owner start doc) fun i o => ∀ m ∈ o, m.info.span.start = i := by
    refine .again fun i => .read (reads_check _) fun _ => .read (reads_check _) fun _ =>
      .read (reads_checkAt _ _) fun _ => .ite ?_ ?_
    · intro c s o s' h
      obtain ⟨m, s₁, hm, ⟨⟩⟩ := bind_inv h
      rintro rfl _ ⟨⟩
      exact (begins_initializerBlock c s m _ hm).1
    · refine Returns.begins (Q := fun o => ∀ m ∈ o, m.info.span.start = i)
        (.bind fun doc => (returns_memberFrom hg kind owner i doc).mono ?_) fun _ _ h hi => hi ▸ h
      exact fun _ h m hm => (h m hm).1
  intro c s o s'' h
  obtain ⟨b, s', haccept, hrest⟩ := bind_inv h
  cases b with
  | true =>
    cases hrest
    exact nofun
  | false =>
    obtain rfl := accept_false haccept
    exact rest c s' o s'' hrest

/-! ### Statements -/

/-- A statement that ends with its information. -/
theorem Returns.stmt {i : Position} {f : Info → Stmt} (hf : ∀ x, (f x).info = x) :
    Returns (do return f (← Parse.infoFrom i)) fun st => st.info.span.start = i :=
  .infoFrom fun x hx => by rw [hf, hx]

theorem returns_forStatement (i : Position) :
    Returns (forStatement g i) fun st => st.info.span.start = i := by
  refine .bind fun _ => .bind fun _ => .ite ?_ ?_
  · exact .bind fun _ => .bind fun _ => .bind fun _ => .bind fun _ => .bind fun _ =>
      .stmt fun _ => rfl
  · exact .bind fun _ => .bind fun _ => .bind fun _ => .unless fun _ => .bind fun _ =>
      .bind fun _ => .branch fun _ => .bind fun _ => .bind fun _ => .stmt fun _ => rfl

theorem returns_tryStatement (i : Position) (t : Token) :
    Returns (tryStatement g i t) fun st => st.info.span.start = i := by
  have last {p : Parser (List Stmt)} : Returns (do
      let rs ← p
      let body ← g.block true
      let catches ← manyWhile (check .kwCatch) (catchClause g)
      let final ← if ← accept .kwFinally then pure (some (← g.block true)) else pure none
      if catches.isEmpty && final.isNone && rs.isEmpty then
        reportSoft t .syntaxErrorInsertToComplete ["Finally", "TryStatement"]
      return Stmt.try (← infoFrom i) rs body catches final) fun st => st.info.span.start = i :=
    .bind fun _ => .bind fun _ => .bind fun _ => .bind fun _ => .choice fun _ => .opt fun _ =>
      .stmt fun _ => rfl
  exact .bind fun _ => .ite (.bind fun _ => .bind fun _ => .bind fun _ => last) last

theorem returns_jumpStatement {make : Info → Option Ident → Stmt}
    (hmake : ∀ x l, (make x l).info = x) (i : Position) :
    Returns (jumpStatement make i) fun st => st.info.span.start = i :=
  .bind fun l => .bind fun _ => .stmt fun x => hmake x l

theorem returns_keywordStatement (t : Token) (i : Position) :
    Returns (keywordStatement g t i) fun st => st.info.span.start = i := by
  refine .bind fun _ => ?_
  split
  · exact .stmt fun _ => rfl
  · exact .bind fun _ => .bind fun _ => .bind fun _ => .choice fun _ => .stmt fun _ => rfl
  · exact .bind fun _ => .bind fun _ => .stmt fun _ => rfl
  · exact .bind fun _ => .bind fun _ => .bind fun _ => .bind fun _ => .stmt fun _ => rfl
  · exact returns_forStatement i
  · exact returns_tryStatement i t
  · exact .bind fun _ => .bind fun _ => .stmt fun _ => rfl
  · exact .bind fun _ => .unless fun _ => .bind fun _ => .stmt fun _ => rfl
  · exact returns_jumpStatement (fun _ _ => rfl) i
  · exact returns_jumpStatement (fun _ _ => rfl) i
  · exact .bind fun _ => .bind fun _ => .stmt fun _ => rfl
  · exact .bind fun _ => .bind fun _ => .stmt fun _ => rfl
  · exact .bind fun _ => .bind fun _ => .choice fun _ => .bind fun _ => .stmt fun _ => rfl

theorem begins_exprStatement : Begins (exprStatement g) fun i st => st.info.span.start = i :=
  .startPos fun _ => .bind fun _ => .bind fun _ => .opt fun _ => .bind fun _ => .stmt fun _ => rfl

theorem begins_constructorCall :
    Begins (constructorCall g) fun i st => st.info.span.start = i := by
  refine .startPos fun i => .bind fun _ => ?_
  have rest {p : Parser (Option Expr)} : Returns (do
      let q ← p
      let targs ← if ← check .less then pure (← typeArgs g false).1 else pure []
      let isSuper ← accept .kwSuper
      if !isSuper then expect_ .kwThis
      let args ← arguments g
      expect_ .semicolon
      return Stmt.constructorCall (← infoFrom i) isSuper q targs args)
      fun st => st.info.span.start = i :=
    .bind fun _ => .bind fun _ => .choice fun _ => .bind fun _ => .opt fun _ => .bind fun _ =>
      .bind fun _ => .stmt fun _ => rfl
  exact .ite (.bind fun _ => .bind fun _ => .bind fun _ => .bind fun _ => rest) rest

end

/-! ### Looking ahead

The rules of statements look ahead, which is known to end at the same token in a state that fits. -/

/-- What a parser gives back starts at a position if the token there does. -/
def Starts {α : Type} (v : Setting) (n r : Nat) (i : Position) (p : Parser α) (info : α → Info) :
    Prop :=
  ∀ c s a s', v.Suits c → s.Fits v → 16 * s.left + r ≤ n → s.current.span.start = i →
    p c s = .ok a s' → (info a).span.start = i

section

variable {α β : Type} {v : Setting} {n r : Nat} {p : Parser α} {f : α → Parser β} {P : α → Prop}
  {info : β → Info} {g : Grammar} {i : Position}

theorem Begins.starts {p : Parser β} (h : Begins p fun i b => (info b).span.start = i) :
    Starts v n r i p info :=
  fun c s a s' _ _ _ hi hrun => (h c s a s' hrun).trans hi

theorem Returns.starts {p : Parser β} (h : Returns p fun b => (info b).span.start = i) :
    Starts v n r i p info :=
  fun c s a s' _ _ _ _ hrun => h c s a s' hrun

theorem Starts.startPos {f : Position → Parser β} (hf : Starts v n r i (f i) info) :
    Starts v n r i (startPos >>= f) info := by
  rintro c s b s' hv hs hn rfl hrun
  exact hf c s b s' hv hs hn rfl hrun

/-- A parser that looks ahead first. -/
theorem Starts.look (hp : Looks v n Any r p P) (hf : ∀ a, Starts v n r i (f a) info) :
    Starts v n r i (p >>= f) info := by
  intro c s b s'' hv hs hn hi hrun
  obtain ⟨a, s', ha, hstays, -⟩ := hp c s hv hs hn trivial
  have hleft := hstays.left_eq hs
  rw [bind_ok ha] at hrun
  exact hf a c s' b s'' hv hstays.fits (by omega) (hstays.current hs ▸ hi) hrun

theorem Starts.read (hp : Reads p) (hf : ∀ a, Starts v n r i (f a) info) :
    Starts v n r i (p >>= f) info := .look hp.looks hf

theorem Starts.ite {b : Prop} [Decidable b] {p₁ p₂ : Parser β} (yes : Starts v n r i p₁ info)
    (no : Starts v n r i p₂ info) : Starts v n r i (if b then p₁ else p₂) info := by
  split
  · exact yes
  · exact no

theorem Starts.mono {p : Parser β} {r' : Nat} (h : Starts v n r i p info) (hr : r ≤ r') :
    Starts v n r' i p info :=
  fun c s a s' hv hs hn => h c s a s' hv hs (by omega)

/-- A rule that is entered has a step less. -/
theorem Starts.step {p : Parser β} (h : Starts v n r i p info) :
    Starts v (n + 1) (r + 1) i p info :=
  fun c s a s' hv hs hn => h c s a s' hv hs (by omega)

theorem starts_statementRule (hg : Serves n g) (ho : Opens g) :
    Starts v n r i (statementRule g) Stmt.info := by
  refine .startPos (.read reads_peek fun t => .ite (Begins.starts ?_) (.ite ?_ ?_))
  · intro c s st s' hrun
    obtain ⟨b, _, hb, ⟨⟩⟩ := bind_inv hrun
    exact ho.block true c s b _ hb
  · exact (returns_keywordStatement t i).starts
  refine .read (reads_peekAt _) fun _ => .ite ?_ (.read reads_isYieldStatement fun _ => .ite ?_ ?_)
  · exact Returns.starts (.bind fun _ => .bind fun _ => .bind fun _ => .stmt fun _ => rfl)
  · exact Returns.starts (.bind fun _ => .bind fun _ => .bind fun _ => .stmt fun _ => rfl)
  have rest : Starts v n r i
      (do if ← isConstructorCall g then constructorCall g else exprStatement g) Stmt.info :=
    .look (probes_isConstructorCall hg).looks fun _ => .ite begins_constructorCall.starts
      begins_exprStatement.starts
  refine .ite (Returns.starts ?_) rest
  exact .after (P := fun _ => False) returns_fail fun _ h => h.elim

theorem starts_blockStatementRule (hg : Serves n g) (ho : Opens g) (hr : 2 ≤ r)
    (hst : Starts v n r i g.statement Stmt.info) :
    Starts v n r i (blockStatementRule g) Stmt.info := by
  refine .startPos (.look (probes_isLocalType hg (by omega)).looks fun _ => .ite ?_ ?_)
  · refine Returns.starts (.bind fun doc => .bind fun mods => .after (ho.typeRest i mods doc) ?_)
    exact fun d hd => .after (returns_newInfo _) fun x hx => .pure (hx ▸ hd.1)
  refine .look (probes_isLocalVar hg (by omega)).looks fun _ => .ite (Returns.starts ?_) hst
  exact .bind fun d => .bind fun _ => .after (returns_spanFrom i) fun _ h => .pure h

theorem opens_grammar (n : Nat) : Opens (grammar n) := by
  induction n with
  | zero => constructor <;> intros <;> exact fun _ _ _ _ h => nomatch h
  | succ n ih =>
    exact {
      block := begins_blockRule
      typeBody := returns_typeBodyRule
      typeRest := returns_typeRestRule ih }

theorem starts_statement (n : Nat) : Starts v n 8 i (grammar n).statement Stmt.info := by
  cases n with
  | zero => exact fun _ _ _ _ _ _ _ _ h => nomatch h
  | succ n => exact (starts_statementRule (r := 7) (serves_grammar n) (opens_grammar n)).step

theorem starts_blockStatement (n : Nat) :
    Starts v n 9 i (grammar n).blockStatement Stmt.info := by
  cases n with
  | zero => exact fun _ _ _ _ _ _ _ _ h => nomatch h
  | succ n =>
    exact (starts_blockStatementRule (r := 8) (serves_grammar n) (opens_grammar n) (by omega)
      (starts_statement n)).step

/-- What is moved over does not start before the least offset. -/
theorem Moves.behind {m : Mode} {pre : Token → Prop} {δ : Nat} {p : Parser β} {Q : β → Prop}
    (h : Moves v n m pre δ r p Q) (hb : ∀ i, Starts v n r i p info) :
    Moves v n m pre δ r p fun b => Q b ∧ v.least ≤ (info b).span.start.offset := by
  intro c s hv hs hn hp
  have hends := h c s hv hs hn hp
  cases hrun : p c s with
  | ok b s' =>
    rw [hrun] at hends
    exact ⟨hends.1, hends.2, hb _ c s b s' hv hs hn rfl hrun ▸ hs.least_le⟩
  | error e s' =>
    rw [hrun] at hends
    exact hends

theorem Moves.begins {m : Mode} {pre : Token → Prop} {δ : Nat} {p : Parser β} {P : β → Prop}
    {R : Position → β → Prop} (h : Moves v n m pre δ r p P) (hr : Begins p R) :
    Moves v n m pre δ r p fun b => P b ∧ ∃ i, v.least ≤ i.offset ∧ R i b := by
  intro c s hv hs hn hp
  have hends := h c s hv hs hn hp
  cases hrun : p c s with
  | ok b s' =>
    rw [hrun] at hends
    exact ⟨hends.1, hends.2, _, hs.least_le, hr c s b s' hrun⟩
  | error e s' =>
    rw [hrun] at hends
    exact hends

/-- What is known of all that a parser gives back. -/
theorem Moves.returns {m : Mode} {pre : Token → Prop} {δ : Nat} {p : Parser β} {P Q : β → Prop}
    (h : Moves v n m pre δ r p P) (hq : Returns p Q) :
    Moves v n m pre δ r p fun b => P b ∧ Q b := by
  intro c s hv hs hn hp
  have hends := h c s hv hs hn hp
  cases hrun : p c s with
  | ok b s' =>
    rw [hrun] at hends
    exact ⟨hends.1, hends.2, hq c s b s' hrun⟩
  | error e s' =>
    rw [hrun] at hends
    exact hends

theorem Looks.returns {pre : Token → Prop} {p : Parser β} {P Q : β → Prop}
    (h : Looks v n pre r p P) (hq : Returns p Q) : Looks v n pre r p fun b => P b ∧ Q b := by
  intro c s hv hs hn hp
  obtain ⟨b, s', hrun, hstays, hb⟩ := h c s hv hs hn hp
  exact ⟨b, s', hrun, hstays, hb, hq c s b s' hrun⟩

end

end Javelin.Parse
