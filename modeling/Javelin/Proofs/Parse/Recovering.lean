import Javelin.Proofs.Parse.Elements
import Javelin.Proofs.Parse.RecoveryRules

/-!
# The rounds of recovery

Recovery never fails, ends at the end of the source and closes every element but the source file.
Each round takes a token or closes an element more than it opens, since an element is opened only
behind a token of its own: twice the number of tokens left and the number of open elements, taken
together, fall (`After`). A round that changes nothing drops a token.

1. Runs of recovery and how they compose.
2. What changes the stack.
3. Braces, headers and the tokens inside each kind of element.
4. The loop, and the end of the source.
-/

namespace Javelin.Parse

/-! ## Runs -/

/-- A run of recovery returns, and what holds then. -/
def Does {α : Type} (p : Recover α) (c : Context) (s : State) (r : Recovery)
    (Q : α → State → Recovery → Prop) : Prop :=
  ∃ a s' r', p r c s = .ok (a, r') s' ∧ Q a s' r'

/-- The innermost element. -/
def Recovery.top (r : Recovery) : Element := r.stack.head?.getD default

section

variable {α β : Type} {c : Context} {s s' : State} {r r' : Recovery} {p : Recover α}
  {f : α → Recover β} {Q Q' : α → State → Recovery → Prop} {P : β → State → Recovery → Prop}

theorem Does.bind (h : Does p c s r fun a s' r' => Does (f a) c s' r' P) :
    Does (p >>= f) c s r P := by
  obtain ⟨a, s', r', hp, b, s'', r'', hf, hP⟩ := h
  refine ⟨b, s'', r'', ?_, hP⟩
  show ((p r : Parser _) >>= fun x => f x.1 x.2) c s = _
  rw [bind_ok hp]
  exact hf

theorem Does.mono (h : Does p c s r Q) (himp : ∀ a s' r', Q a s' r' → Q' a s' r') :
    Does p c s r Q' := by
  obtain ⟨a, s', r', hp, hQ⟩ := h
  exact ⟨a, s', r', hp, himp a s' r' hQ⟩

theorem Does.pure {a : α} (h : Q a s r) : Does (pure a) c s r Q := ⟨a, s, r, rfl, h⟩

theorem Does.lift {p : Parser α} {a : α} (hp : p c s = .ok a s') (h : Q a s' r) :
    Does (liftM p) c s r Q := by
  refine ⟨a, s', r, ?_, h⟩
  show ((p >>= fun a => Pure.pure (a, r) : Parser _)) c s = _
  rw [bind_ok hp]
  rfl

theorem Does.top {Q : Element → State → Recovery → Prop} (h : Q r.top s r) :
    Does Parse.top c s r Q := ⟨r.top, s, r, rfl, h⟩

theorem Does.get {Q : Recovery → State → Recovery → Prop} (h : Q r s r) :
    Does (MonadState.get : Recover Recovery) c s r Q := ⟨r, s, r, rfl, h⟩

theorem Does.getState {Q : State → State → Recovery → Prop} (h : Q s s r) :
    Does (getThe State : Recover State) c s r Q := ⟨s, s, r, rfl, h⟩

theorem Does.modify {u : Recovery → Recovery} {Q : Unit → State → Recovery → Prop}
    (h : Q () s (u r)) : Does (modify u : Recover Unit) c s r Q := ⟨(), s, u r, rfl, h⟩

theorem Does.prevEnd {Q : Position → State → Recovery → Prop} (h : Q s.prevEnd s r) :
    Does Parse.prevEnd c s r Q := ⟨s.prevEnd, s, r, rfl, h⟩

theorem Does.setTop {e : Element} {Q : Unit → State → Recovery → Prop}
    (h : Q () s { r with stack := e :: r.stack.tail }) : Does (setTop e) c s r Q :=
  ⟨(), s, _, rfl, h⟩

theorem Does.setDraft {d : Draft} {Q : Unit → State → Recovery → Prop}
    (h : Q () s { r with stack := { r.top with draft := d } :: r.stack.tail }) :
    Does (setDraft d) c s r Q :=
  .bind (.top (.setTop h))

theorem Does.ite {b : Prop} [Decidable b] {p₁ p₂ : Recover α} (yes : b → Does p₁ c s r Q)
    (no : ¬b → Does p₂ c s r Q) : Does (if b then p₁ else p₂) c s r Q := by
  split
  · exact yes ‹_›
  · exact no ‹_›

end

/-! ## The stack -/

/-- The outermost element, and no other one, is the source file. -/
def Recovery.Rooted (r : Recovery) : Prop :=
  ∃ inner e, r.stack = inner ++ [e] ∧ e.draft.isUnit = true ∧
    ∀ x ∈ inner, x.draft.isUnit = false

/-- How far recovery is from its end. -/
def distance (s : State) (r : Recovery) : Nat := 2 * s.left + r.stack.length

/-- A later point of recovery, nearer to the end by `k` at least. -/
structure After (v : Setting) (c : Context) (k : Nat) (s : State) (r : Recovery) (s' : State)
    (r' : Recovery) : Prop where
  idle : v.keeps = false ∧ c.keeps = false
  goes : s.Goes v c s'
  rooted : r'.Rooted
  tracks : ∀ ds, Tracks v.least ds r.stack → Tracks v.least ds r'.stack
  falls : distance s' r' + k ≤ distance s r

section

variable {v : Setting} {c : Context} {k n : Nat} {s₀ s s' : State} {r₀ r : Recovery} {g : Grammar}

theorem Recovery.Rooted.cons_tail (h : r.Rooted) : r.stack = r.top :: r.stack.tail := by
  obtain ⟨inner, e, hstack, -⟩ := h
  rw [Recovery.top, hstack]
  cases inner <;> rfl

theorem Recovery.Rooted.setTop {e : Element} (h : r.Rooted) (he : e.draft.kind = r.top.draft.kind) :
    Recovery.Rooted { r with stack := e :: r.stack.tail } := by
  have hunit_eq := Draft.isUnit_eq_of_kind he
  have hcons := h.cons_tail
  obtain ⟨inner, x, hstack, hunit, hinner⟩ := h
  cases inner with
  | nil =>
    obtain ⟨htop, htail⟩ := List.cons.inj (hcons.symm.trans hstack)
    exact ⟨[], e, by rw [htail]; rfl, by rw [hunit_eq, htop, hunit], by simp⟩
  | cons y inner =>
    obtain ⟨htop, htail⟩ := List.cons.inj (hcons.symm.trans hstack)
    obtain ⟨hy, hinner⟩ := List.forall_mem_cons.1 hinner
    refine ⟨e :: inner, x, by rw [htail]; rfl, hunit, List.forall_mem_cons.2 ⟨?_, hinner⟩⟩
    rw [hunit_eq, htop, hy]

/-- With more than one element open the innermost is not the source file. -/
theorem Recovery.Rooted.top_inner (h : r.Rooted) (hmore : 1 < r.stack.length) :
    r.top.draft.isUnit = false := by
  obtain ⟨inner, x, hstack, -, hinner⟩ := h
  cases inner with
  | nil => simp [hstack] at hmore
  | cons y inner =>
    rw [Recovery.top, hstack]
    exact hinner y List.mem_cons_self

/-- Around an element that is not the source file there is another one. -/
theorem Recovery.Rooted.tail (h : r.Rooted) (htop : r.top.draft.isUnit = false) :
    Recovery.Rooted { r with stack := r.stack.tail } := by
  have hcons := h.cons_tail
  obtain ⟨inner, x, hstack, hunit, hinner⟩ := h
  cases inner with
  | nil =>
    obtain ⟨heq, -⟩ := List.cons.inj (hcons.symm.trans hstack)
    rw [heq, hunit] at htop
    cases htop
  | cons y inner =>
    obtain ⟨-, htail⟩ := List.cons.inj (hcons.symm.trans hstack)
    exact ⟨inner, x, htail, hunit, (List.forall_mem_cons.1 hinner).2⟩

theorem After.refl (hidle : v.keeps = false ∧ c.keeps = false) (hs : s.Fits v) (hr : r.Rooted) :
    After v c 0 s r s r :=
  ⟨hidle, .refl hs, hr, fun _ => id, Nat.le_refl _⟩

theorem After.suits (h : After v c k s₀ r₀ s r) : v.Suits c :=
  fun hkeeps => absurd (h.idle.2.symm.trans hkeeps) Bool.false_ne_true

/-- Recovery keeps no drafts, so all places admit them. -/
theorem After.admits {kind : Draft.Kind} (h : After v c k s₀ r₀ s r) : v.Admits kind :=
  Setting.admits_of_keeps h.idle.1

theorem After.mono {j : Nat} (h : After v c k s₀ r₀ s r) (hle : j ≤ k) : After v c j s₀ r₀ s r :=
  ⟨h.idle, h.goes, h.rooted, h.tracks, by have := h.falls; omega⟩

theorem After.trans {j : Nat} {s' : State} {r' : Recovery} (h : After v c k s₀ r₀ s r)
    (h' : After v c j s r s' r') : After v c (k + j) s₀ r₀ s' r' :=
  ⟨h.idle, h.goes.trans h'.goes, h'.rooted, fun ds => h'.tracks ds ∘ h.tracks ds, by
    have := h.falls
    have := h'.falls
    omega⟩

theorem After.leads {δ : Nat} (h : After v c k s₀ r₀ s r) (hs : s.Leads v c s' δ) :
    After v c (k + 2 * δ) s₀ r₀ s' r := by
  refine ⟨h.idle, h.goes.trans hs.toGoes, h.rooted, h.tracks, ?_⟩
  have hfalls := h.falls
  have htaken := hs.taken
  unfold distance at hfalls ⊢
  omega

theorem After.stays (h : After v c k s₀ r₀ s r) (hs : s.Stays v c s') :
    After v c k s₀ r₀ s' r :=
  h.leads (hs.leads h.goes.fits)

/-- The innermost element grows. -/
theorem After.setTop {e : Element} (h : After v c k s₀ r₀ s r)
    (he : r.top.draft.Grows v.least e.draft) (hspan : e.openedSpan = r.top.openedSpan) :
    After v c k s₀ r₀ s { r with stack := e :: r.stack.tail } := by
  have hcons := h.rooted.cons_tail
  refine ⟨h.idle, h.goes, h.rooted.setTop he.kind_eq, fun ds hds => ?_, ?_⟩
  · have hkept := h.tracks ds hds
    rw [hcons] at hkept
    exact hkept.setTop he hspan
  · have hfalls := h.falls
    have hlength := congrArg List.length hcons
    simp only [distance, List.length_cons] at hfalls hlength ⊢
    omega

/-- Opening an element makes the way longer by one. -/
theorem After.push {e : Element} {opened : Nat} (h : After v c (k + 1) s₀ r₀ s r)
    (he : e.Behind v.least) (hunit : e.draft.isUnit = false) :
    After v c k s₀ r₀ s ⟨e :: r.stack, opened⟩ := by
  refine ⟨h.idle, h.goes, ?_, fun ds hds => (h.tracks ds hds).cons he hunit, ?_⟩
  · obtain ⟨inner, x, hstack, hroot, hinner⟩ := h.rooted
    exact ⟨e :: inner, x, by rw [hstack]; rfl, hroot, List.forall_mem_cons.2 ⟨hunit, hinner⟩⟩
  · have hfalls := h.falls
    simp only [distance, List.length_cons] at hfalls ⊢
    omega

theorem After.flagged (h : After v c k s₀ r₀ s r) : After v c k s₀ r₀ s r.flagged := by
  refine ⟨h.idle, h.goes, ?_, fun ds hds => (h.tracks ds hds).flagged _, ?_⟩
  · obtain ⟨inner, x, hstack, hunit, hinner⟩ := h.rooted
    refine ⟨inner.map _, _, by rw [Recovery.flagged, hstack, List.map_append]; rfl, ?_, ?_⟩
    · rw [(Draft.same_flagged (k := 0) _ _).1.isUnit_eq, hunit]
    · intro y hy
      obtain ⟨z, hz, rfl⟩ := List.mem_map.1 hy
      rw [(Draft.same_flagged (k := 0) _ _).1.isUnit_eq]
      exact hinner z hz
  · have hfalls := h.falls
    simp only [distance, Recovery.flagged, List.length_map] at hfalls ⊢
    omega

/-! ## Children -/

/-- A child that starts at an offset or later; a module declaration is no child. -/
def Child.Behind (k : Nat) : Child → Prop
  | .import d => k ≤ d.info.span.start.offset
  | .module _ => True
  | .type d span => k ≤ d.info.span.start.offset ∧ k ≤ span.start.offset
  | .member m => k ≤ m.info.span.start.offset
  | .stmt s => k ≤ s.info.span.start.offset

/-- What a child is among statements. -/
def Child.IsStatement : Child → Option Stmt → Prop
  | .stmt s, o => o = some s
  | .type d span, o => ∃ i, i.span = span ∧ o = some (.localClass i { d with isLocal := true })
  | _, o => o = none

theorem looks_statement? (x : Child) : Looks v n Any 16 x.statement? x.IsStatement := by
  cases x with
  | type d span =>
    exact .bind ((looks_newInfo span).returns (returns_newInfo span)) fun i hi =>
      .pure ⟨i, hi.2, rfl⟩
  | _ => exact .pure rfl

theorem Child.Behind.statement {x : Child} {st : Stmt} {l : Nat} (h : x.Behind l)
    (hst : x.IsStatement (some st)) : l ≤ st.info.span.start.offset := by
  cases x with
  | stmt s =>
    cases hst
    exact h
  | type d span =>
    obtain ⟨i, rfl, ⟨⟩⟩ := hst
    exact h.2
  | _ => cases hst

/-- A child joins a body as a statement. -/
theorem joined_body {d : Draft} {e : Element} {x : Child} {o : Option Stmt}
    (hd : d.isUnit = false ∧ ∀ t, d ≠ .type t) (ho : x.IsStatement o) (he : e.child? = some x)
    (hhosts : d.hosts e.draft = true) :
    ∃ i st, o = some st ∧ d.joined i e.draft = d.withStmt st := by
  obtain ⟨serial, draft, balance, initDone, constantsDone, span⟩ := e
  cases d with
  | unit u => exact absurd hd.1 (by simp [Draft.isUnit])
  | type t => exact absurd rfl (hd.2 t)
  | field | locals => cases draft <;> cases hhosts
  | _ =>
    cases draft with
    | type d =>
      cases he
      obtain ⟨i, -, rfl⟩ := ho
      exact ⟨i, _, rfl, rfl⟩
    | block b =>
      cases he
      cases ho
      exact ⟨{}, _, rfl, rfl⟩
    | _ => cases hhosts

/-- What a draft becomes that a child joins: it grows if the child is behind an offset, and gets the
child if it can hold it. -/
structure Draft.Attached (d : Draft) (x : Child) (d' : Draft) : Prop where
  kind : d'.kind = d.kind
  grows : ∀ l, x.Behind l → d.Grows l d'
  joined : ∀ e : Element, e.child? = some x → d.hosts e.draft = true →
    ∃ i, d' = d.joined i e.draft

theorem looks_attach (d : Draft) (x : Child) : Looks v n Any 16 (d.attach x) (d.Attached x) := by
  unfold Draft.attach
  cases d with
  | method | initializer | block =>
    refine .bind (looks_statement? x) fun o ho => ?_
    cases o with
    | none =>
      refine .pure ⟨rfl, fun _ _ => .refl _, fun e he hhosts => ?_⟩
      obtain ⟨i, st, hst, -⟩ := joined_body ⟨rfl, by simp⟩ ho he hhosts
      cases hst
    | some st =>
      refine .pure ⟨rfl, fun _ hx => Draft.grows_withStmt _ (hx.statement ho), fun e he hhosts => ?_⟩
      obtain ⟨i, st', hst, hjoined⟩ := joined_body ⟨rfl, by simp⟩ ho he hhosts
      cases hst
      exact ⟨i, hjoined.symm⟩
  | _ =>
    cases x
    all_goals
      refine .pure ⟨rfl, fun l hx => ?_, fun e he hhosts => ?_⟩
      · first
          | exact .refl _
          | exact ⟨rfl, .one hx, .refl _⟩
          | exact ⟨rfl, .refl _, .one hx.1⟩
          | exact ⟨rfl, .refl _, .refl _⟩
          | exact ⟨.refl _, rfl, .refl _, .one hx⟩
          | exact ⟨.refl _, rfl, .refl _, .one hx.1⟩
      · obtain ⟨serial, draft, balance, initDone, constantsDone, span⟩ := e
        cases draft <;> cases he <;> first | exact ⟨{}, rfl⟩ | cases hhosts

theorem Member.start_recovered (m : Member) :
    (Member.recovered m).info.span.start = m.info.span.start := by
  cases m <;> rfl

theorem Stmt.start_recovered (st : Stmt) :
    (Stmt.recovered st).info.span.start = st.info.span.start := by
  cases st <;> rfl

/-- There are sixteen steps for every token, and more for none. -/
theorem State.Fits.budget (hs : s.Fits v) (hn : 16 * v.tokens.size ≤ n) :
    16 * s.left + 16 ≤ n := by
  have hpos := hs.pos
  simp only [State.left, hs.tokens]
  omega

theorem does_add {x : Child} (h : After v c k s₀ r₀ s r) (hx : x.Behind v.least) :
    Does (add x) c s r fun _ s' r' => After v c k s₀ r₀ s' r' := by
  obtain ⟨d, s', hrun, hstays, hattached⟩ := looks_attach r.top.draft x c s h.suits h.goes.fits
    (h.goes.fits.budget (Nat.le_refl _)) trivial
  have hset := (h.stays hstays).setTop (e := { r.top with draft := d })
    (hattached.grows _ hx) rfl
  exact .bind (.top (.bind (.lift hrun (.setDraft hset))))

theorem child?_isSome {e : Element} (he : e.draft.isUnit = false) : ∃ x, e.child? = some x := by
  obtain ⟨serial, draft, balance, initDone, constantsDone, span⟩ := e
  cases draft <;> first | exact ⟨_, rfl⟩ | cases he

theorem Element.Behind.child {e : Element} {x : Child} {l : Nat} (h : e.Behind l)
    (hx : e.child? = some x) : x.Behind l := by
  obtain ⟨serial, draft, balance, initDone, constantsDone, span⟩ := e
  cases draft with
  | unit u => cases hx
  | type d =>
    cases hx
    exact h
  | _ =>
    cases hx
    exact h.1

/-- An element as it is when it is closed. -/
def Element.closed (e : Element) (stop : Position) (malformed : Bool) : Element :=
  let d := e.draft.ended stop
  { e with draft := if malformed then d.flagged .malformed else d }

theorem Element.grows_closed {l : Nat} (e : Element) (stop : Position) (malformed : Bool) :
    e.draft.Grows l (e.closed stop malformed).draft := by
  unfold closed
  dsimp only
  split
  · exact (Draft.grows_ended _ _).trans (Draft.same_flagged _ _).1
  · exact Draft.grows_ended _ _

/-- Closing an element makes the way shorter by one. -/
theorem does_closeTop {stop : Position} {malformed : Bool} (h : After v c k s₀ r₀ s r)
    (htop : r.top.draft.isUnit = false) :
    Does (closeTop stop malformed) c s r fun _ s' r' => s.Stays v c s' ∧
      After v c (k + 1) s₀ r₀ s' r' ∧ r'.stack.length + 1 = r.stack.length := by
  let outer : Recovery := { r with stack := r.stack.tail }
  have houter : outer.Rooted := h.rooted.tail htop
  have hstack : r.stack = r.top :: outer.top :: outer.stack.tail :=
    h.rooted.cons_tail.trans (congrArg _ houter.cons_tail)
  have hgrows := r.top.grows_closed (l := v.least) stop malformed
  obtain ⟨x, hx⟩ := child?_isSome (hgrows.isUnit_eq.trans htop)
  obtain ⟨d, s', hrun, hstays, hattached⟩ := looks_attach outer.top.draft x c s
    h.suits h.goes.fits (h.goes.fits.budget (Nat.le_refl _)) trivial
  refine .bind (.top (.bind (.modify ?_)))
  generalize hchild : Element.child? _ = o
  obtain rfl : o = some x := hchild.symm.trans hx
  show Does (add x) c s outer _
  have hlength := congrArg List.length hstack
  simp only [List.length_cons] at hlength
  refine .bind (.top (.bind (.lift hrun (.setDraft ⟨hstays, ?_, ?_⟩))))
  · refine ⟨h.idle, h.goes.trans hstays.toGoes, houter.setTop hattached.kind, fun ds hds => ?_, ?_⟩
    · have hkept := h.tracks ds hds
      rw [hstack] at hkept
      refine hkept.close hgrows (fun hbehind => hattached.grows _ ?_) rfl (hattached.joined _ hx)
      have hclosed : (r.top.closed stop malformed).Behind v.least := hbehind.grows htop hgrows rfl
      exact hclosed.child hx
    · have hfalls := h.falls
      have hleft := hstays.left_eq h.goes.fits
      simp only [distance, List.length_cons] at hfalls ⊢
      omega
  · simp only [List.length_cons]
    omega

theorem does_push {d : Draft} {balance : Nat} {constantsDone : Bool}
    (h : After v c (k + 1) s₀ r₀ s r) (hd : d.isUnit = false) (hstart : v.least ≤ d.start) :
    Does (push d balance constantsDone) c s r fun _ s' r' => After v c k s₀ r₀ s' r' := by
  have hgrows := (Draft.same_flagged (k := v.least) .recovered d).1
  have hopened : v.least ≤ (d.flagged .recovered).start := (hgrows.start_eq hd).symm ▸ hstart
  exact .modify (h.push ⟨hopened, hopened⟩ (hgrows.isUnit_eq.trans hd))

theorem does_pushBraced {d : Draft} (h : After v c (k + 1) s₀ r₀ s r) (hd : d.isUnit = false)
    (hstart : v.least ≤ d.start) :
    Does (pushBraced d) c s r fun _ s' r' => After v c k s₀ r₀ s' r' :=
  does_push h hd hstart

/-! ## Parsers in recovery -/

variable {α : Type} {p : Parser α} {P : α → Prop} {δ j : Nat} {m : Mode}

theorem Does.discard {p : Recover α} {Q : Unit → State → Recovery → Prop}
    (h : Does p c s r fun _ => Q ()) : Does (discard p) c s r Q := by
  obtain ⟨a, s', r', hp, hQ⟩ := h
  refine ⟨(), s', r', ?_, hQ⟩
  show ((p r : Parser _) >>= fun x => Pure.pure ((), x.2)) c s = _
  rw [bind_ok hp]
  rfl

theorem Does.looks {Q : α → State → Recovery → Prop} (hp : Looks v n (· = s.current) 16 p P)
    (hv : v.Suits c) (hs : s.Fits v) (hn : 16 * v.tokens.size ≤ n)
    (h : ∀ a s', s.Stays v c s' → P a → Q a s' r) :
    Does (liftM p) c s r Q := by
  obtain ⟨a, s', hrun, hstays, ha⟩ := hp c s hv hs (hs.budget hn) rfl
  exact .lift hrun (h a s' hstays ha)

theorem Does.reads {Q : α → State → Recovery → Prop} (hp : Reads p) (h : ∀ a, Q a s r) :
    Does (liftM p) c s r Q := by
  obtain ⟨a, hrun⟩ := hp c s
  exact .lift hrun (h a)

/-- The token here does not start before the least offset. -/
theorem Does.startPos {Q : Position → State → Recovery → Prop} (hs : s.Fits v)
    (h : ∀ i : Position, v.least ≤ i.offset → Q i s r) : Does (liftM Parse.startPos) c s r Q :=
  .lift (p := Parse.startPos) rfl (h _ hs.least_le)

theorem Does.spanFrom {i : Position} {Q : Span → State → Recovery → Prop}
    (h : ∀ span, span.start = i → Q span s r) : Does (liftM (Parse.spanFrom i)) c s r Q :=
  .lift (p := Parse.spanFrom i) rfl (h _ rfl)

theorem Does.within {Q : α → State → Recovery → Prop} (hp : Moves v n .sure (· = s.current) δ j p P)
    (hv : v.Suits c) (hs : s.Fits v) (hn : 16 * s.left + j ≤ n)
    (h : ∀ a s', s.Leads v c s' δ → P a → Q a s' r) :
    Does (liftM p) c s r Q := by
  have hends := hp c s hv hs hn rfl
  cases hrun : p c s with
  | ok a s' =>
    rw [hrun] at hends
    exact .lift hrun (h a s' hends.1 hends.2)
  | error e s' =>
    rw [hrun] at hends
    exact hends.2.2.elim

theorem Does.sure {Q : α → State → Recovery → Prop} (hp : Moves v n .sure (· = s.current) δ 16 p P)
    (hv : v.Suits c) (hs : s.Fits v) (hn : 16 * v.tokens.size ≤ n)
    (h : ∀ a s', s.Leads v c s' δ → P a → Q a s' r) :
    Does (liftM p) c s r Q :=
  .within hp hv hs (hs.budget hn) h

/-- There are as many rounds as tokens left, and more. -/
theorem State.rounds_enough (s : State) : 16 * s.left < 16 * (s.tokens.size - s.pos + 1) + 0 := by
  simp only [State.left]
  omega

theorem Does.attempt {Q : Option α → State → Recovery → Prop}
    (hp : Moves v n m (· = s.current) δ 16 p P) (hv : v.Suits c) (hs : s.Fits v)
    (hn : 16 * v.tokens.size ≤ n)
    (yes : ∀ a s', s.Leads v c s' δ → P a → Q (some a) s' r)
    (no : ∀ s', s.Stays v c s' → Q none s' r) : Does (liftM (attempt p)) c s r Q := by
  obtain ⟨a, s', hrun, hlead, ha⟩ | ⟨s', hrun, hstays, -⟩ :=
    attempt_run hp hv hs (hs.budget hn) rfl
  · exact .lift hrun (yes a s' hlead ha)
  · exact .lift hrun (no s' hstays)

theorem Does.orRewind {Q : Option α → State → Recovery → Prop}
    (hp : Moves v n .strict (· = s.current) δ 16 p P) (hv : v.Suits c) (hs : s.Fits v)
    (hn : 16 * v.tokens.size ≤ n)
    (yes : ∀ a s', s.Leads v c s' δ → P a → Q (some a) s' r)
    (no : ∀ s', s.Stays v c s' → Q none s' r) : Does (liftM (orRewind p)) c s r Q := by
  obtain ⟨a, s', hrun, hlead, ha⟩ | ⟨s', hrun, hstays⟩ :=
    orRewind_run hp hv hs (hs.budget hn) rfl
  · exact .lift hrun (yes a s' hlead ha)
  · exact .lift hrun (no s' hstays)

/-- Before the end a token is taken. -/
theorem Does.advance {Q : Token → State → Recovery → Prop} (hs : s.Fits v) (hleft : s.left ≠ 0)
    (h : ∀ s', s.Leads v c s' 1 → Q s.current s' r) : Does (liftM advance) c s r Q := by
  obtain ⟨s', hrun, hlead, -⟩ := leads_advance (c := c) hs
  exact .lift hrun (h s' (hlead.mono (by omega)))

/-- Before the end a syntax error is reported and its token is dropped. -/
theorem drop_run (h : After v c k s₀ r₀ s r) (hleft : s.left ≠ 0) (expected : Text) :
    ∃ s₁ s₂, reportSyntax s.current expected c s = .ok () s₁ ∧
      Parse.advance c s₁ = .ok s₁.current s₂ ∧ After v c (k + 2) s₀ r₀ s₂ r := by
  have hkind : s.current.kind ≠ .eof := mt h.goes.fits.current_eof.1 hleft
  obtain ⟨s₁, hreport, hstays, -⟩ := reportSyntax_run (c := c) h.goes.fits s.current expected
    (.inr hkind)
  obtain ⟨s₂, hadvance, hlead, -⟩ := leads_advance (c := c) hstays.fits
  have hleft₁ := hstays.left_eq h.goes.fits
  exact ⟨s₁, s₂, hreport, hadvance, (h.stays hstays).leads (δ := 1) (hlead.mono (by omega))⟩

theorem does_dropToken (h : After v c k s₀ r₀ s r) (hleft : s.left ≠ 0) {expected : Text} :
    Does (do
      reportSyntax (← peek) expected
      discard advance) c s r fun _ s' r' => After v c (k + 2) s₀ r₀ s' r' := by
  obtain ⟨s₁, s₂, hreport, hadvance, h⟩ := drop_run h hleft expected
  exact .bind (.lift (p := peek) rfl (.bind (.lift hreport (.discard (.lift hadvance h)))))

/-! ## Braces -/

theorem looks_initializerDraft {pre : Token → Prop} (start bodyStart : Position) (isStatic : Bool) :
    Looks v n pre j (initializerDraft start bodyStart isStatic)
      fun d => d.isUnit = false ∧ d.start = start.offset := by
  unfold initializerDraft
  refine .bind (looks_newInfo _) fun _ _ => ?_
  refine .bind ((looks_newInfo _).returns (returns_newInfo _)) fun i hi => .pure ⟨rfl, ?_⟩
  exact congrArg (·.start.offset) hi.2

theorem does_openingBrace (h : After v c k s₀ r₀ s r) (hleft : s.left ≠ 0) :
    Does openingBrace c s r fun _ s' r' => After v c (k + 1) s₀ r₀ s' r' := by
  unfold openingBrace
  refine .bind (.top ?_)
  extract_lets rest
  have hrest : ∀ {s r}, After v c k s₀ r₀ s r → s.left ≠ 0 →
      Does (rest ()) c s r fun _ s' r' => After v c (k + 1) s₀ r₀ s' r' := by
    intro s r h hleft
    have hadvance : ∀ {f : Unit → Recover Unit} {P : Unit → State → Recovery → Prop},
        (∀ s', After v c (k + 2) s₀ r₀ s' r → Does (f ()) c s' r P) →
        Does (discard (liftM Parse.advance) >>= f) c s r P := fun hf =>
      .bind (.discard (.advance h.goes.fits hleft fun s' hlead => hf s' (h.leads hlead)))
    refine .bind (.startPos h.goes.fits fun start hstart => .bind (.top ?_))
    split
    · refine hadvance fun s' h => .bind (.looks (looks_initializerDraft _ _ _) h.suits h.goes.fits
        (Nat.le_refl _) fun d s'' hstays hd => ?_)
      exact does_pushBraced (h.stays hstays) hd.1 (hd.2 ▸ hstart)
    · exact (does_dropToken h hleft).mono fun _ _ _ h => h.mono (by omega)
    · refine hadvance fun s' h => .bind (.looks ((looks_newInfo _).returns (returns_newInfo _))
        h.suits h.goes.fits (Nat.le_refl _) fun i s'' hstays hi => ?_)
      have hbehind := hstart.trans_eq (congrArg (·.start.offset) hi.2.symm)
      exact does_pushBraced (h.stays hstays) rfl hbehind
  refine .ite (fun hvariable => ?_) fun _ => hrest h hleft
  have htop : r.top.draft.isUnit = false := by
    cases hd : r.top.draft <;> first | rfl | simp [hd, Draft.isVariable] at hvariable
  refine .bind (.prevEnd (.bind ((does_closeTop h htop).mono fun _ s' r' hclosed => ?_)))
  obtain ⟨hstays, h', -⟩ := hclosed
  exact hrest (h'.mono (by omega)) (hstays.left_eq h.goes.fits ▸ hleft)

theorem does_closingBrace (h : After v c k s₀ r₀ s r) (hleft : s.left ≠ 0) :
    Does closingBrace c s r fun _ s' r' => After v c (k + 1) s₀ r₀ s' r' := by
  unfold closingBrace
  refine .bind (.top ?_)
  split
  · exact (does_dropToken h hleft).mono fun _ _ _ h => h.mono (by omega)
  next hunit =>
    have htop : r.top.draft.isUnit = false := by
      cases hd : r.top.draft <;> first | rfl | exact absurd hd (hunit _)
    refine .ite (fun _ => ?_) fun _ => ?_
    · exact .bind (.prevEnd ((does_closeTop h htop).mono fun _ _ _ h => h.2.1))
    · refine .bind (.advance h.goes.fits hleft fun s' hlead => .bind (.setTop ?_))
      have hset := (h.leads hlead).setTop (e := { r.top with balance := r.top.balance - 1 })
        (.refl _) rfl
      refine .ite (fun _ => ?_) fun _ => .pure (hset.mono (by omega))
      exact (does_closeTop hset htop).mono fun _ _ _ h => h.2.1.mono (by omega)

/-! ## Broken headers -/

/-- A header that was read takes a token at least; else nothing has changed. -/
def HeaderAfter (v : Setting) (c : Context) (k : Nat) (s₀ : State) (r₀ : Recovery) (s : State)
    (r : Recovery) (found : Bool) (s' : State) (r' : Recovery) : Prop :=
  if found then After v c (k + 1) s₀ r₀ s' r' else s.Stays v c s' ∧ r' = r

/-- The last part of a type's header: its body is opened, or it has none. -/
def openType (start : Position) (d : TypeDecl) : Recover Bool := do
  if ← check .lbrace then
    let bodyStart ← startPos
    discard advance
    let span ← spanFrom start
    pushBraced (.type { d with info := d.info.withSpan span, bodyStart })
  else
    let span ← spanFrom start
    let info := ((d.info.withSpan span).withFlags .malformed).withFlags .recovered
    add (.type { d with info } span)
  return true

/-- A test for a token, and what it tells where it holds. -/
theorem Does.check {k : Token.Kind} {Q : Bool → State → Recovery → Prop} (hs : s.Fits v)
    (hk : k ≠ .eof) (yes : s.left ≠ 0 → s.current.kind = k → Q true s r) (no : Q false s r) :
    Does (liftM (Parse.check k)) c s r Q := by
  refine .lift (p := Parse.check k) (a := s.current.kind == k) rfl ?_
  cases h : s.current.kind == k with
  | false => exact no
  | true =>
    have hkind := beq_iff_eq.1 h
    refine yes ?_ hkind
    rw [Ne, ← hs.current_eof, hkind]
    exact hk

theorem does_openType {start : Position} {d : TypeDecl} (h : After v c (k + 2) s₀ r₀ s' r)
    (hstart : v.least ≤ start.offset) :
    Does (openType start d) c s' r (HeaderAfter v c k s₀ r₀ s r) := by
  refine .bind (.check h.goes.fits (by decide) (fun hleft _ => ?_) ?_)
  · refine .bind (.reads reads_startPos fun bodyStart => .bind (.discard ?_))
    refine .advance h.goes.fits hleft fun s'' hlead =>
      .bind (.spanFrom fun span hspan => ?_)
    subst hspan
    refine .bind (.mono (does_pushBraced (h.leads hlead) rfl hstart) fun _ s' r' h => .pure ?_)
    exact h.mono (by omega)
  · refine .bind (.spanFrom fun span hspan => ?_)
    subst hspan
    refine .bind (.mono (does_add h ⟨hstart, hstart⟩) ?_)
    exact fun _ s' r' hadded => .pure (hadded.mono (by omega))

/-- The last part of a method's header. -/
def openMethod (start : Position) (d : MethodDecl) : Recover Bool := do
  let span ← spanFrom start
  let d := { d with info := d.info.withSpan span }
  if ← check .lbrace then
    let body ← emptyBlock
    discard advance
    pushBraced (.method { d with body := some body })
  else
    let flags ← if ← accept .semicolon then pure NodeFlags.recovered
      else pure (NodeFlags.recovered.union .malformed)
    let span ← spanFrom start
    add (.member (.method { d with info := (d.info.withSpan span).withFlags flags }))
  return true

theorem does_openMethod {start : Position} {d : MethodDecl} (h : After v c (k + 2) s₀ r₀ s' r)
    (hstart : v.least ≤ start.offset) :
    Does (openMethod start d) c s' r (HeaderAfter v c k s₀ r₀ s r) := by
  refine .bind (.spanFrom fun span hspan => .bind ?_)
  subst hspan
  refine .check h.goes.fits (by decide) (fun hleft _ => ?_) ?_
  · refine .bind (.looks looks_emptyBlock h.suits h.goes.fits (Nat.le_refl _)
      fun b s'' hstays _ => .bind (.discard ?_))
    refine .advance hstays.fits (hstays.left_eq h.goes.fits ▸ hleft) fun s'' hlead => ?_
    refine .bind (.mono (does_pushBraced ((h.stays hstays).leads hlead) rfl hstart)
      fun _ s' r' h => .pure ?_)
    exact h.mono (by omega)
  · have hend : ∀ {s'} flags, After v c (k + 2) s₀ r₀ s' r → Does (do
        let last ← spanFrom span.start
        let i := ((d.info.withSpan span).withSpan last).withFlags flags
        add (.member (.method { d with info := i }))
        return true) c s' r (HeaderAfter v c k s₀ r₀ s r) := by
      intro s' flags h
      refine .bind (.spanFrom fun last hlast => .bind (.mono (does_add h ?_) ?_))
      · exact hstart.trans_eq (congrArg (·.offset) hlast.symm)
      exact fun _ s' r' hadded => .pure (hadded.mono (by omega))
    refine .bind (.sure (moves_accept (by decide)) h.suits h.goes.fits (Nat.le_refl _)
      fun b s'' hlead _ => ?_)
    have h := h.leads hlead
    exact .ite (fun _ => .bind (.pure (hend _ h))) fun _ => .bind (.pure (hend _ h))

variable (hg : Serves n g) (ho : Opens g)
  (hb : ∀ i, Starts v n 16 i g.blockStatement Stmt.info) (hn : 16 * v.tokens.size ≤ n)

include hg hn

theorem does_recoverTypeHeader (h : After v c k s₀ r₀ s r) :
    Does (recoverTypeHeader g) c s r (HeaderAfter v c k s₀ r₀ s r) := by
  unfold recoverTypeHeader
  refine .bind (.startPos h.goes.fits fun start hstart => .bind ?_)
  refine .attempt (moves_typeStart hg start) h.suits h.goes.fits hn (fun d s' hlead hd => ?_)
    fun s' hstays => .pure ⟨hstays, rfl⟩
  have h := h.leads hlead
  refine .bind (.attempt (moves_typeHeaderRest hg ⟨hd, rfl⟩) h.suits h.goes.fits hn
    (fun d s' hlead _ => ?_) fun s' hstays => ?_)
  · exact .bind (.pure (does_openType (h.leads hlead) hstart))
  · have h := h.stays hstays
    refine .bind (.sure (moves_skipTo _) h.suits h.goes.fits hn fun _ s' hlead _ =>
      .bind (.pure ?_))
    exact does_openType (h.leads hlead) hstart

theorem does_recoverMethodHeader {owner : Text} (h : After v c k s₀ r₀ s r) :
    Does (recoverMethodHeader g owner) c s r (HeaderAfter v c k s₀ r₀ s r) := by
  unfold recoverMethodHeader
  refine .bind (.startPos h.goes.fits fun start hstart => .bind ?_)
  refine .attempt (moves_methodStart hg owner) h.suits h.goes.fits hn (fun d s' hlead hd => ?_)
    fun s' hstays => .pure ⟨hstays, rfl⟩
  have h := h.leads hlead
  refine .bind (.attempt (moves_methodRest hg ⟨hd, rfl⟩) h.suits h.goes.fits hn
    (fun d s' hlead _ => ?_) fun s' hstays => ?_)
  · exact .bind (.pure (does_openMethod ((h.leads hlead).mono (by omega)) hstart))
  · have h := h.stays hstays
    refine .bind (.sure (moves_skipTo _) h.suits h.goes.fits hn fun _ s' hlead _ =>
      .bind (.pure ?_))
    exact does_openMethod (h.leads hlead) hstart

theorem does_recoverFieldHeader (h : After v c k s₀ r₀ s r) :
    Does (recoverFieldHeader g) c s r (HeaderAfter v c k s₀ r₀ s r) := by
  unfold recoverFieldHeader
  refine .bind (.startPos h.goes.fits fun start hstart => .bind ?_)
  refine .attempt ((moves_fieldHeader hg start).returns (returns_fieldHeader start)) h.suits
    h.goes.fits hn (fun d s' hlead hd => ?_) fun s' hstays => .pure ⟨hstays, rfl⟩
  have hbehind := hstart.trans_eq (congrArg (·.offset) hd.2.symm)
  exact .bind (.mono (does_push (h.leads hlead) rfl hbehind) fun _ s' r' h => .pure h)

theorem does_recoverLocalHeader (h : After v c k s₀ r₀ s r) :
    Does (recoverLocalHeader g) c s r (HeaderAfter v c k s₀ r₀ s r) := by
  unfold recoverLocalHeader
  refine .bind (.startPos h.goes.fits fun start hstart => .bind ?_)
  refine .attempt ((moves_localHeader hg start).returns (returns_localHeader start)) h.suits
    h.goes.fits hn (fun d s' hlead hd => ?_) fun s' hstays => .pure ⟨hstays, rfl⟩
  have hbehind := hstart.trans_eq (congrArg (·.offset) hd.2.symm)
  exact .bind (.mono (does_push (h.leads hlead) rfl hbehind) fun _ s' r' h => .pure h)

/-! ## Tokens inside each kind of element -/

omit hg in
theorem does_skipUnitStatement (h : After v c k s₀ r₀ s r) (hleft : s.left ≠ 0) :
    Does (liftM skipUnitStatement) c s r fun _ s' r' => After v c (k + 1) s₀ r₀ s' r' :=
  .sure (moves_skipUnitStatement fun _ ht => ht ▸ mt h.goes.fits.current_eof.1 hleft)
    h.suits h.goes.fits hn
    fun _ _ hlead _ => (h.leads hlead).mono (by omega)

omit hg in
theorem does_skipToTypeStart (h : After v c k s₀ r₀ s r) (hleft : s.left ≠ 0) :
    Does (liftM skipToTypeStart) c s r fun _ s' r' => After v c (k + 1) s₀ r₀ s' r' :=
  .sure (moves_skipToTypeStart fun _ ht => ht ▸ mt h.goes.fits.current_eof.1 hleft)
    h.suits h.goes.fits hn
    fun _ _ hlead _ => (h.leads hlead).mono (by omega)

theorem does_recoverPackage (h : After v c k s₀ r₀ s r) (hleft : s.left ≠ 0) :
    Does (recoverPackage g) c s r fun _ s' r' => After v c (k + 1) s₀ r₀ s' r' := by
  unfold recoverPackage
  refine .bind (.orRewind (moves_packageDecl hg) h.suits h.goes.fits hn (fun d s' hlead _ =>
    .bind (.top ?_)) fun s' hstays => .bind (.modify ?_))
  · have h := h.leads hlead
    split
    next u hu =>
      refine .setDraft (.mono (h.setTop ?_ rfl) (by omega))
      rw [hu]
      exact ⟨rfl, .refl _, .refl _⟩
    next => exact .pure (h.mono (by omega))
  · exact does_skipUnitStatement hn (h.stays hstays).flagged (hstays.left_eq h.goes.fits ▸ hleft)

omit hg in
theorem does_recoverImport (h : After v c k s₀ r₀ s r) (hleft : s.left ≠ 0) :
    Does recoverImport c s r fun _ s' r' => After v c (k + 1) s₀ r₀ s' r' := by
  unfold recoverImport
  refine .bind (.orRewind (moves_importDecl.behind fun _ => begins_importDecl.starts) h.suits
    h.goes.fits hn (fun d s' hlead hd => ?_) fun s' hstays => .bind (.modify ?_))
  · exact .mono (does_add (h.leads hlead) hd.2) fun _ _ _ h => h.mono (by omega)
  have hleft := hstays.left_eq h.goes.fits ▸ hleft
  have h := (h.stays hstays).flagged
  refine .bind (.attempt (moves_importHeader.behind fun _ => begins_importHeader.starts) h.suits
    h.goes.fits hn (fun d s' hlead hd => ?_) fun s' hstays => ?_)
  · refine .bind (.mono (does_add (h.leads hlead) hd.2) fun _ s' r' h => .discard ?_)
    exact .sure (moves_accept (by decide)) h.suits h.goes.fits hn fun _ _ hlead _ =>
      (h.leads hlead).mono (by omega)
  · exact does_skipUnitStatement hn (h.stays hstays) (hstays.left_eq h.goes.fits ▸ hleft)

theorem does_recoverModule (h : After v c k s₀ r₀ s r) (hleft : s.left ≠ 0) :
    Does (recoverModule g) c s r fun _ s' r' => After v c (k + 1) s₀ r₀ s' r' := by
  unfold recoverModule
  refine .bind (.orRewind (moves_moduleDecl hg) h.suits h.goes.fits hn (fun d s' hlead _ => ?_)
    fun s' hstays => .bind (.modify ?_))
  · exact .mono (does_add (h.leads hlead) trivial) fun _ _ _ h => h.mono (by omega)
  · exact does_skipToTypeStart hn (h.stays hstays).flagged (hstays.left_eq h.goes.fits ▸ hleft)

include ho in
theorem does_recoverTopLevelType (h : After v c k s₀ r₀ s r) (hleft : s.left ≠ 0) :
    Does (recoverTopLevelType g) c s r fun _ s' r' => After v c (k + 1) s₀ r₀ s' r' := by
  unfold recoverTopLevelType
  refine .bind (.orRewind ((moves_typeDecl hg h.admits).behind fun _ => (begins_typeDecl ho).starts)
    h.suits h.goes.fits hn (fun d s' hlead hd => ?_) fun s' hstays => .bind (.modify ?_))
  · exact .mono (does_add (h.leads hlead) ⟨hd.2, hd.2⟩) fun _ _ _ h => h.mono (by omega)
  have hleft := hstays.left_eq h.goes.fits ▸ hleft
  have h := (h.stays hstays).flagged
  refine .bind ((does_recoverTypeHeader hg hn h).mono fun found s' r' hfound => ?_)
  cases found with
  | true => exact .pure hfound
  | false =>
    obtain ⟨hstays, rfl⟩ := hfound
    exact does_skipToTypeStart hn (h.stays hstays) (hstays.left_eq h.goes.fits ▸ hleft)

include ho in
theorem does_recoverInUnit (h : After v c k s₀ r₀ s r) (hleft : s.left ≠ 0) :
    Does (recoverInUnit g) c s r fun _ s' r' => After v c (k + 1) s₀ r₀ s' r' := by
  unfold recoverInUnit
  refine .bind (.lift (p := peek) rfl ?_)
  split
  · exact .discard (.advance h.goes.fits hleft fun s' hlead => (h.leads hlead).mono (by omega))
  · exact does_closingBrace h hleft
  · exact does_openingBrace h hleft
  · have hrest : ∀ {s} isPackage, After v c k s₀ r₀ s r → s.left ≠ 0 → ∀ isImport : Bool,
        Does (if isPackage = true then recoverPackage g
          else if isImport = true then recoverImport
          else do if ← isModule g then recoverModule g else recoverTopLevelType g) c s r
          fun _ s' r' => After v c (k + 1) s₀ r₀ s' r' := by
      intro s isPackage h hleft isImport
      refine .ite (fun _ => does_recoverPackage hg hn h hleft) fun _ => ?_
      refine .ite (fun _ => does_recoverImport hn h hleft) fun _ => ?_
      refine .bind (.looks (probes_isModule hg (by decide)).looks h.suits h.goes.fits hn
        fun b s' hstays _ => ?_)
      have hleft := hstays.left_eq h.goes.fits ▸ hleft
      have h := h.stays hstays
      exact .ite (fun _ => does_recoverModule hg hn h hleft)
        fun _ => does_recoverTopLevelType hg ho hn h hleft
    refine .ite (fun _ => .bind (.pure (hrest true h hleft _))) fun _ => .bind ?_
    refine .looks (probes_isAnnotatedPackage hg (by decide)).looks h.suits h.goes.fits hn
      fun b s' hstays _ => ?_
    exact hrest b (h.stays hstays) (hstays.left_eq h.goes.fits ▸ hleft) _

omit hg hn in
/-- The same elements, perhaps with other drafts. -/
def Kin (r r' : Recovery) : Prop :=
  r'.opened = r.opened ∧ r'.stack.map Element.serial = r.stack.map Element.serial

omit hg hn in
theorem Kin.trans {r r' r'' : Recovery} (h : Kin r r') (h' : Kin r' r'') : Kin r r'' :=
  ⟨h'.1.trans h.1, h'.2.trans h.2⟩

omit hg hn in
theorem kin_flagged : Kin r r.flagged := ⟨rfl, by simp [Recovery.flagged]⟩

omit hg hn in
theorem kin_setTop {e : Element} (hr : r.Rooted) (he : e.serial = r.top.serial) :
    Kin r { r with stack := e :: r.stack.tail } := by
  refine ⟨rfl, ?_⟩
  rw [List.map_cons, he, ← List.map_cons, ← hr.cons_tail]

omit hg hn in
theorem Kin.top_serial {r r' : Recovery} (h : Kin r r') : r'.top.serial = r.top.serial := by
  have hserial : ∀ r : Recovery, r.top.serial =
      ((r.stack.map Element.serial).head?).getD (default : Element).serial := by
    intro r
    unfold Recovery.top
    cases r.stack <;> rfl
  rw [hserial, hserial, h.2]

omit hg hn in
theorem Kin.length_eq {r r' : Recovery} (h : Kin r r') : r'.stack.length = r.stack.length := by
  simpa using congrArg List.length h.2

/-- The constants of an enum. What goes on behind a comma has fewer tokens left. -/
theorem does_recoverConstants (fuel : Nat) : ∀ {k s r}, After v c k s₀ r₀ s r → s.left < fuel →
    Does (recoverConstants g fuel) c s r fun _ s' r' =>
      After v c k s₀ r₀ s' r' ∧ s'.left ≤ s.left ∧ Kin r r' := by
  induction fuel with
  | zero =>
    intro k s r _ hleft
    exact absurd hleft (Nat.not_lt_zero _)
  | succ fuel ih =>
    intro k s r h hleft
    have hend : ∀ {s' r'}, After v c k s₀ r₀ s' r' → s'.left ≤ s.left → Kin r r' →
        Does (do if ← accept .comma then recoverConstants g fuel
                 else discard (accept .semicolon)) c s' r' fun _ s' r' =>
          After v c k s₀ r₀ s' r' ∧ s'.left ≤ s.left ∧ Kin r r' := by
      intro s' r' h hle hkin
      by_cases hcomma : s'.current.kind = .comma
      · obtain ⟨s'', hrun, hlead⟩ := accept_yes (c := c) h.goes.fits hcomma (by decide)
        have htaken := hlead.taken
        refine .bind (.lift hrun
          ((ih (k := k) ((h.leads hlead).mono (by omega)) (by omega)).mono ?_))
        rintro _ s' r' ⟨h, hle', hkin'⟩
        exact ⟨h, by omega, hkin.trans hkin'⟩
      · refine .bind (.lift (accept_no hcomma) (.discard ?_))
        refine .sure (moves_accept (by decide)) h.suits h.goes.fits hn
          fun _ s'' hlead _ => ?_
        have htaken := hlead.taken
        exact ⟨h.leads hlead, by omega, hkin⟩
    unfold recoverConstants
    refine .bind (.reads (reads_checkAny _) fun _ =>
      .ite (fun _ => .pure ⟨h, Nat.le_refl _, rfl, rfl⟩)
      fun _ => .bind ?_)
    refine .sure (moves_accept (by decide)) h.suits h.goes.fits hn
      fun _ s' hlead _ => ?_
    have htaken := hlead.taken
    have h := h.leads hlead
    refine .ite (fun _ => .pure ⟨h, by omega, rfl, rfl⟩) fun _ => .bind ?_
    refine .orRewind ((moves_enumConstant hg).behind fun _ => begins_enumConstant.starts) h.suits
      h.goes.fits hn (fun d s' hlead hd => .bind (.top ?_)) fun s' hstays => .bind (.modify ?_)
    · have htaken := hlead.taken
      have h := h.leads hlead
      split
      next t ht =>
        refine .bind (.setDraft (hend (.mono (h.setTop ?_ rfl) (by omega)) (by omega)
          (kin_setTop h.rooted rfl)))
        rw [ht]
        exact ⟨.refl _, rfl, .one hd.2, .refl _⟩
      next => exact hend (h.mono (by omega)) (by omega) ⟨rfl, rfl⟩
    · have hleft' := hstays.left_eq h.goes.fits
      have h := (h.stays hstays).flagged
      refine .bind (.sure (moves_skipTo _) h.suits h.goes.fits hn fun _ s' hlead _ => ?_)
      have htaken := hlead.taken
      exact hend (h.leads hlead) (by omega) kin_flagged

include ho in
theorem does_recoverMember {d : TypeDecl} (h : After v c k s₀ r₀ s r) (hleft : s.left ≠ 0) :
    Does (recoverMember g d) c s r fun _ s' r' => After v c (k + 1) s₀ r₀ s' r' := by
  unfold recoverMember
  refine .bind (.orRewind ((moves_member hg h.admits).begins (begins_member ho _ _)) h.suits
    h.goes.fits hn (fun o s' hlead hmember => ?_) fun s' hstays => .bind (.modify ?_))
  · have h := h.leads hlead
    cases o with
    | none => exact .pure (h.mono (by omega))
    | some m =>
      obtain ⟨-, i, hi, hstart⟩ := hmember
      have hbehind : v.least ≤ (Member.recovered m).info.span.start.offset := by
        rw [Member.start_recovered, hstart m rfl]
        exact hi
      dsimp only
      split
      next d hd =>
        rw [hd] at hbehind
        exact .mono (does_add h ⟨hbehind, hbehind⟩) fun _ _ _ h => h.mono (by omega)
      next => exact .mono (does_add h hbehind) fun _ _ _ h => h.mono (by omega)
  have hleft := hstays.left_eq h.goes.fits ▸ hleft
  have h := (h.stays hstays).flagged
  -- one header after the other is tried at the same token
  have htry : ∀ {p : Recover Bool} {q : Recover Unit} {s r}, After v c k s₀ r₀ s r → s.left ≠ 0 →
      Does p c s r (HeaderAfter v c k s₀ r₀ s r) →
      (∀ {s'}, After v c k s₀ r₀ s' r → s'.left ≠ 0 →
        Does q c s' r fun _ s' r' => After v c (k + 1) s₀ r₀ s' r') →
      Does (do if ← p then return
               q) c s r fun _ s' r' => After v c (k + 1) s₀ r₀ s' r' := by
    intro p q s r h hleft hp hq
    refine .bind (hp.mono fun found s' r' hfound => ?_)
    cases found with
    | true => exact .pure hfound
    | false =>
      obtain ⟨hstays, rfl⟩ := hfound
      exact hq (h.stays hstays) (hstays.left_eq h.goes.fits ▸ hleft)
  refine htry h hleft (does_recoverTypeHeader hg hn h) fun h hleft => ?_
  refine htry h hleft (does_recoverMethodHeader hg hn h) fun h hleft => ?_
  refine htry h hleft (does_recoverFieldHeader hg hn h) fun h hleft => ?_
  exact .discard (.advance h.goes.fits hleft fun s' hlead => (h.leads hlead).mono (by omega))

/-- A round takes a token or closes an element, or it changes nothing but drafts and may take
nothing. -/
def RoundAfter (v : Setting) (c : Context) (s : State) (r : Recovery) (s' : State)
    (r' : Recovery) : Prop :=
  After v c 1 s r s' r' ∨ (After v c 0 s r s' r' ∧ s'.left ≤ s.left ∧ Kin r r')

include ho in
theorem does_recoverInType {d : TypeDecl} (hidle : v.keeps = false ∧ c.keeps = false)
    (hs : s.Fits v) (hr : r.Rooted) (hleft : s.left ≠ 0) :
    Does (recoverInType g r.top d) c s r fun _ => RoundAfter v c s r := by
  have h : After v c 0 s r s r := .refl hidle hs hr
  unfold recoverInType
  refine .ite (fun _ => .bind (.setTop ?_)) fun _ => .bind (.lift (p := peek) rfl ?_)
  · have h := h.setTop (e := { r.top with constantsDone := true }) (.refl _) rfl
    have hkin : Kin r _ := kin_setTop (e := { r.top with constantsDone := true }) hr rfl
    refine .bind (.lift (p := remaining) rfl (.bind ((does_recoverConstants hg hn _ h ?_).mono ?_)))
    · simp only [State.left]
      omega
    · rintro _ s' r' ⟨h, hle, hkin'⟩
      exact .pure (.inr ⟨h, hle, hkin.trans hkin'⟩)
  split
  · exact (does_closingBrace h hleft).mono fun _ _ _ h => .inl h
  · exact (does_openingBrace h hleft).mono fun _ _ _ h => .inl h
  · have hmember : ∀ {s}, After v c 0 s r s r → s.left ≠ 0 →
        Does (recoverMember g d) c s r fun _ => RoundAfter v c s r := fun h hleft =>
      (does_recoverMember hg ho hn h hleft).mono fun _ _ _ h => .inl h
    refine .bind (.reads (reads_peekAt _) fun t => .ite (fun _ => ?_) fun _ => hmember h hleft)
    refine .bind (.startPos hs fun start hstart => .bind (.discard ?_))
    refine .advance hs hleft fun s' hlead => .bind (.reads reads_startPos fun bodyStart => ?_)
    have h := h.leads hlead
    refine .bind (.discard (.sure (moves_advance_any) h.suits h.goes.fits hn
      fun _ s'' hlead _ => ?_))
    have h := h.leads hlead
    refine .bind (.looks (looks_initializerDraft _ _ _) h.suits h.goes.fits hn
      fun d s''' hstays hd => ?_)
    exact .mono (does_pushBraced (h.stays hstays) hd.1 (hd.2 ▸ hstart)) fun _ _ _ h => .inl h

omit hg hn in
/-- Bodies are closed up to a type. -/
theorem does_closeBodies (fuel : Nat) : ∀ {k s r}, After v c k s₀ r₀ s r →
    r.stack.length ≤ fuel → Does (closeBodies fuel) c s r fun _ s' r' =>
      After v c k s₀ r₀ s' r' ∧
        (r.top.draft.isUnit = false →
          (∀ d, r.top.draft ≠ .type d) → After v c (k + 1) s₀ r₀ s' r') := by
  induction fuel with
  | zero =>
    intro k s r h hlength
    have := congrArg List.length h.rooted.cons_tail
    simp only [List.length_cons] at this
    omega
  | succ fuel ih =>
    intro k s r h hlength
    unfold closeBodies
    refine .bind (.top ?_)
    split
    next d hd => exact .pure ⟨h, fun _ hnot => absurd hd (hnot d)⟩
    next u hu => exact .pure ⟨h, fun hunit => by simp [hu, Draft.isUnit] at hunit⟩
    next hnot hunit =>
      have htop : r.top.draft.isUnit = false := by
        cases hd : r.top.draft <;> first | rfl | exact absurd hd (hunit _)
      refine .bind (.prevEnd (.bind ((does_closeTop h htop).mono fun _ s' r' hclosed => ?_)))
      obtain ⟨-, h, hless⟩ := hclosed
      refine (ih h (by omega)).mono fun _ _ _ h => ?_
      exact ⟨h.1.mono (by omega), fun _ _ => h.1⟩

omit hg hn in
theorem top_grows_flagged (hr : r.Rooted) : r.top.draft.Grows v.least r.flagged.top.draft := by
  rw [Recovery.top, Recovery.top, Recovery.flagged, hr.cons_tail]
  exact (Draft.same_flagged _ _).1

include hb in
theorem does_recoverInBody (h : After v c k s₀ r₀ s r) (hleft : s.left ≠ 0)
    (hunit : r.top.draft.isUnit = false) (htype : ∀ d, r.top.draft ≠ .type d) :
    Does (recoverInBody g) c s r fun _ s' r' => After v c (k + 1) s₀ r₀ s' r' := by
  have hlabel : s.current.kind ∉ [.eof, .semicolon, .lbrace, .rbrace] →
      Does (do skipCaseLabel 0 (← remaining)) c s r
        fun _ s' r' => After v c (k + 1) s₀ r₀ s' r' := by
    intro hkind
    refine .bind (.lift (p := remaining) rfl (.within (moves_skipCaseLabel _
      s.rounds_enough (Nat.le_refl 1) ?_) h.suits h.goes.fits (Nat.le_refl _)
        fun a s' hlead _ => ?_))
    · exact fun t ht => .inr (ht ▸ hkind)
    · exact (h.leads hlead).mono (by omega)
  unfold recoverInBody
  refine .bind (.lift (p := peek) rfl ?_)
  split
  · exact does_closingBrace h hleft
  · exact does_openingBrace h hleft
  next hk => exact hlabel (by rw [hk]; decide)
  next hk => exact hlabel (by rw [hk]; decide)
  next hrbrace hlbrace _ _ =>
    refine .bind (.orRewind ((hg.blockStatement h.admits (r := 16) (by decide)).behind hb) h.suits
      h.goes.fits hn (fun st s' hlead hst => ?_) fun s' hstays => .bind (.modify ?_))
    · have hbehind := hst.2.trans_eq (congrArg Position.offset (Stmt.start_recovered st).symm)
      exact .mono (does_add (h.leads hlead) hbehind) fun _ _ _ h => h.mono (by omega)
    have hkind : s.current.kind ≠ .eof := mt h.goes.fits.current_eof.1 hleft
    have hcurrent := hstays.current h.goes.fits
    have hflagged := top_grows_flagged (v := v) h.rooted
    have h := (h.stays hstays).flagged
    refine .bind (.looks (probes_isMemberHeader hg).looks h.suits h.goes.fits hn
      fun b s'' hstays _ => .ite (fun _ => ?_) fun _ => .bind ?_)
    · refine .bind (.get ((does_closeBodies _ (h.stays hstays) (Nat.le_refl _)).mono
        fun _ s' r' h => h.2 ?_ ?_))
      · rw [hflagged.isUnit_eq, hunit]
      · intro d hd
        obtain ⟨d', hd'⟩ := (hd ▸ hflagged).of_type
        exact htype d' hd'
    have hcurrent := (hstays.current h.goes.fits).trans hcurrent
    have h := h.stays hstays
    refine (does_recoverLocalHeader hg hn h).mono fun found s' r' hfound => ?_
    cases found with
    | true => exact .pure hfound
    | false =>
      obtain ⟨hstays, rfl⟩ := hfound
      have hcurrent := (hstays.current h.goes.fits).trans hcurrent
      have h := h.stays hstays
      refine .bind (.lift (p := remaining) rfl (.within (moves_skipStatement
        _ s'.rounds_enough (Nat.le_refl 1) ?_) h.suits h.goes.fits (Nat.le_refl _)
        fun a s' hlead _ => ?_))
      · rintro t rfl
        refine .inr ?_
        rw [hcurrent]
        simp only [List.mem_cons, List.not_mem_nil, or_false, not_or]
        exact ⟨hkind, hlbrace, hrbrace⟩
      · exact (h.leads hlead).mono (by omega)

/-! ## Variables -/

omit hg hn in
theorem Draft.grows_withVars {l : Nat} {f : List VarDeclarator → List VarDeclarator} (d : Draft) :
    d.Grows l (d.withVars f) := by
  cases d with
  | field d | locals d => exact Renews.refl _
  | _ => exact .refl _

omit hg hn in
theorem Draft.grows_withPending {l : Nat} {f : VarDeclarator → VarDeclarator} (d : Draft) :
    d.Grows l (d.withPending f) :=
  grows_withVars d

omit hg hn in
theorem does_extendPending {e : Element} (h : After v c k s₀ r₀ s r)
    (he : r.top.draft.Grows v.least e.draft) (hspan : e.openedSpan = r.top.openedSpan) :
    Does (extendPending e) c s r fun _ s' r' => After v c k s₀ r₀ s' r' := by
  unfold extendPending
  refine .bind (.prevEnd (.setTop (h.setTop ?_ hspan)))
  exact he.trans (Draft.grows_withPending _)

theorem does_recoverInVariable (h : After v c k s₀ r₀ s r) (hleft : s.left ≠ 0)
    (hunit : r.top.draft.isUnit = false) :
    Does (recoverInVariable g r.top) c s r fun _ s' r' => After v c (k + 1) s₀ r₀ s' r' := by
  unfold recoverInVariable
  refine .bind (.lift (p := peek) rfl ?_)
  split
  · refine .bind (.discard (.advance h.goes.fits hleft fun s' hlead => ?_))
    have h := (h.leads hlead).mono (j := k + 1) (by omega)
    refine .bind (.reads (reads_check _) fun _ => .ite (fun _ => .pure h) fun _ => .bind ?_)
    refine .attempt (hg.expression (by decide)) h.suits h.goes.fits hn
      (fun x s' hlead _ => ?_) fun s' hstays => ?_
    · exact does_extendPending ((h.leads hlead).mono (by omega)) (Draft.grows_withPending _) rfl
    · have h := h.stays hstays
      refine .bind (.lift (p := remaining) rfl (.bind (.within (moves_skipBalanced _
        s'.rounds_enough) h.suits h.goes.fits (Nat.le_refl _) fun a s' hlead _ => ?_)))
      exact does_extendPending (h.leads hlead) (Draft.same_flagged _ _).1 rfl
  next hk =>
    refine .bind (.reads reads_previous fun _ => .ite (fun _ => does_openingBrace h hleft)
      fun _ => ?_)
    have hnot : ∀ t, t = s.current → t.kind ≠ .eof := fun t ht => by
      rw [ht, hk]
      decide
    refine .bind (.sure (moves_recoverArrayInit hg hnot) h.suits h.goes.fits hn
      fun x s' hlead _ => ?_)
    exact does_extendPending ((h.leads hlead).mono (by omega)) (Draft.grows_withPending _) rfl
  · refine .bind (.discard (.advance h.goes.fits hleft fun s' hlead => .bind ?_))
    have h := h.leads hlead
    refine .attempt moves_bareDeclarator h.suits h.goes.fits hn (fun w s' hlead _ => .setTop ?_)
      fun s' hstays => .bind (.prevEnd ?_)
    · refine .mono ((h.leads hlead).setTop ?_ rfl) (by omega)
      exact Draft.grows_withVars (f := (· ++ [w])) r.top.draft
    · exact (does_closeTop (h.stays hstays) hunit).mono fun _ _ _ h => h.2.1.mono (by omega)
  · refine .bind (.discard (.advance h.goes.fits hleft fun s' hlead => .bind (.prevEnd ?_)))
    exact (does_closeTop (h.leads hlead) hunit).mono fun _ _ _ h => h.2.1.mono (by omega)
  · exact does_closingBrace h hleft
  · obtain ⟨s', hrun, hstays, -⟩ := reportSyntax_run (c := c) h.goes.fits s.current ";"
      (.inl rfl)
    refine .bind (.lift (p := peek) rfl (.bind (.lift hrun (.bind (.prevEnd ?_)))))
    exact (does_closeTop (h.stays hstays) hunit).mono fun _ _ _ h => h.2.1

/-! ## The loop -/

include ho hb in
theorem does_recoverStep (hidle : v.keeps = false ∧ c.keeps = false) (hs : s.Fits v)
    (hr : r.Rooted) (hleft : s.left ≠ 0) :
    Does (recoverStep g) c s r fun _ => RoundAfter v c s r := by
  have h : After v c 0 s r s r := .refl hidle hs hr
  unfold recoverStep
  refine .bind (.top ?_)
  split
  case h_1 => exact (does_recoverInUnit hg ho hn h hleft).mono fun _ _ _ h => .inl h
  case h_2 => exact does_recoverInType hg ho hn hidle hs hr hleft
  case h_3 hd | h_4 hd | h_5 hd =>
    exact (does_recoverInBody hg hb hn h hleft (by rw [hd]; rfl) (by rw [hd]; nofun)).mono
      fun _ _ _ h => .inl h
  case h_6 hd | h_7 hd =>
    exact (does_recoverInVariable hg hn h hleft (by rw [hd]; rfl)).mono fun _ _ _ h => .inl h

include ho hb in
/-- The loop ends at the end of the source. -/
theorem does_recoverLoop (fuel : Nat) : ∀ {k s r}, After v c k s₀ r₀ s r → distance s r < fuel →
    Does (recoverLoop g fuel) c s r fun _ s' r' => After v c k s₀ r₀ s' r' ∧ s'.left = 0 := by
  induction fuel with
  | zero =>
    intro k s r _ hfuel
    exact absurd hfuel (Nat.not_lt_zero _)
  | succ fuel ih =>
    intro k s r h hfuel
    have hs := h.goes.fits
    unfold recoverLoop
    refine .bind (.lift (p := check .eof) (a := s.current.kind == .eof) rfl (.ite (fun heof => ?_)
      fun hnot => ?_))
    · exact .pure ⟨h, hs.current_eof.1 (beq_iff_eq.1 heof)⟩
    have hleft : s.left ≠ 0 := fun h => hnot (beq_iff_eq.2 (hs.current_eof.2 h))
    have hnext : ∀ {s' r'}, After v c 1 s r s' r' → Does (recoverLoop g fuel) c s' r'
        fun _ s' r' => After v c k s₀ r₀ s' r' ∧ s'.left = 0 := fun h' =>
      ih ((h.trans h').mono (by omega)) (by have := h'.falls; omega)
    refine .bind (.getState (.bind (.top (.bind (.get (.bind ?_))))))
    refine (does_recoverStep hg ho hb hn h.idle hs h.rooted hleft).mono fun _ s' r' hround => ?_
    refine .bind (.getState
      (.bind (.top (.bind (.get (.ite (fun hsame => ?_) fun hchange => ?_))))))
    · have hpos : s'.pos = s.pos := by
        simp only [Bool.and_eq_true, beq_iff_eq] at hsame
        exact hsame.1.1
      have h' : After v c 0 s r s' r' := hround.elim (·.mono (Nat.zero_le 1)) (·.1)
      have hleft' : s'.left ≠ 0 := by
        rw [State.left, h'.goes.fits.tokens, hpos, ← hs.tokens]
        exact hleft
      obtain ⟨s₁, s₂, hreport, hadvance, h'⟩ := drop_run h' hleft' {}
      refine .bind (.lift (p := peek) rfl (.bind (.lift hreport (.bind (.discard ?_)))))
      exact .lift hadvance (hnext (h'.mono (by omega)))
    · rcases hround with h' | ⟨h', hle, hkin⟩
      · exact hnext h'
      · have hpos : s'.pos ≠ s.pos := by
          intro hpos
          simp [hpos, hkin.top_serial, hkin.1] at hchange
        have hlt := h'.goes.fits.pos
        have hlength := hkin.length_eq
        refine hnext ⟨h'.idle, h'.goes, h'.rooted, h'.tracks, ?_⟩
        simp only [distance, State.left, h'.goes.fits.tokens, hs.tokens] at hle ⊢
        have hpos' := hs.pos
        omega

/-! ## The end of the source -/

omit hg hn in
theorem reportMissing_run (h : After v c k s₀ r₀ s r) (hc : c.speculating = false) (t : Token)
    (args : List Text) : ∃ s', report t .syntaxErrorInsertToComplete args c s = .ok () s' ∧
      After v c k s₀ r₀ s' r ∧ s'.Recorded := by
  have hrecorded : (s.reporting (.new .syntaxErrorInsertToComplete (.ofSpan c.file t.span)
    args)).Recorded := State.recorded_reporting rfl
  refine ⟨_, rfl, h.stays (h.goes.fits.stays rfl rfl rfl (Nat.le_refl _) rfl (fun _ => hrecorded) id
    (fun _ => .inl hrecorded) fun h => ?_), hrecorded⟩
  rw [hc] at h
  cases h

omit hg hn in
/-- After a report, or when something is missing at the end, an error is on record. -/
theorem does_reportEnd (h : After v c k s₀ r₀ s r) (hc : c.speculating = false)
    (hreported : s.Reported) :
    Does reportEnd c s r fun _ s' r' => After v c k s₀ r₀ s' r' ∧ r' = r ∧ s'.Recorded := by
  unfold reportEnd
  refine .bind (.getState (.bind (.get ?_)))
  dsimp only
  split
  · obtain ⟨s', hrun, h', hrecorded⟩ := reportMissing_run h hc _ _
    exact .lift hrun ⟨h', rfl, hrecorded⟩
  · refine .ite (fun _ => .bind (.top ?_)) fun hmissing => .pure ⟨h, rfl, ?_⟩
    · obtain ⟨s', hrun, h', hrecorded⟩ := reportMissing_run h hc _ _
      exact .lift hrun ⟨h', rfl, hrecorded⟩
    · exact hreported.resolve_right (by simpa using hmissing)

omit hg hn in
/-- In the end only the source file is open. -/
theorem does_closeAll {stop : Position} (fuel : Nat) : ∀ {k s r}, After v c k s₀ r₀ s r →
    r.stack.length ≤ fuel → s.Recorded →
    Does (closeAll stop fuel) c s r fun _ s' r' =>
      After v c k s₀ r₀ s' r' ∧ s'.Recorded ∧ r'.stack.length ≤ 1 := by
  induction fuel with
  | zero =>
    intro k s r h hlength _
    have := congrArg List.length h.rooted.cons_tail
    simp only [List.length_cons] at this
    omega
  | succ fuel ih =>
    intro k s r h hlength hrecorded
    unfold closeAll
    refine .bind (.get (.ite (fun hone => .pure ⟨h, hrecorded, hone⟩) fun hmore => .bind (.top ?_)))
    have hclose : ∀ {r malformed}, After v c k s₀ r₀ s r → 1 < r.stack.length →
        r.stack.length ≤ fuel + 1 → Does (do closeTop stop malformed; closeAll stop fuel) c s r
          fun _ s' r' => After v c k s₀ r₀ s' r' ∧ s'.Recorded ∧ r'.stack.length ≤ 1 := by
      intro r malformed h hmore hlength
      refine .bind ((does_closeTop h (h.rooted.top_inner hmore)).mono fun _ s' r' hclosed => ?_)
      obtain ⟨hstays, h, hless⟩ := hclosed
      exact ih (h.mono (by omega)) (by omega) (hstays.recorded hrecorded)
    have hcons := congrArg List.length h.rooted.cons_tail
    refine .ite (fun _ => .bind (.setTop ?_)) fun _ => ?_
    · refine hclose (h.setTop (Draft.same_flagged _ _).1 rfl) ?_ ?_
      · simp only [List.length_cons] at hcons ⊢
        omega
      · simp only [List.length_cons] at hcons ⊢
        omega
    · exact hclose h (by omega) hlength

omit hg hn in
/-- The end of recovery leaves the source file alone and an error on record. -/
theorem does_finishRecovery (h : After v c k s₀ r₀ s r) (hc : c.speculating = false)
    (hreported : s.Reported) :
    Does finishRecovery c s r fun _ s' r' =>
      After v c k s₀ r₀ s' r' ∧ s'.Recorded ∧ r'.stack.length ≤ 1 := by
  unfold finishRecovery
  refine .bind ((does_reportEnd h hc hreported).mono fun _ s' r' hend => ?_)
  obtain ⟨h, -, hrecorded⟩ := hend
  exact .bind (.prevEnd (.bind (.get (does_closeAll _ h (Nat.le_refl _) hrecorded))))

end

end Javelin.Parse
