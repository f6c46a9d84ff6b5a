import Javelin.Parse.Recovery
import Javelin.Proofs.Parse.Recovering
import Javelin.Proofs.Token.CommentTable
import Javelin.Proofs.Parse.RecoveryRules

/-!
# Every text is parsed, and no error is lost

A strict parse of a text ends with a tree or with bad syntax, never for want of steps. After bad
syntax in a source file recovery goes on to the end of the text and closes all it has open. An error
is on record whenever the strict parse fails, so a text without errors has the tree of the strict
parse, and that has no marks.

1. The state at the start of a text fits the setting of its tokens.
2. The strict parse.
3. Recovery from where the strict parse failed.
4. The result.
-/

namespace Javelin

/-- The end token comes last and only there. -/
def EndsOnce (ts : List Token) : Prop :=
  ∃ before stop, ts = before ++ [stop] ∧ stop.kind = .eof ∧ ∀ t ∈ before, t.kind ≠ .eof

theorem Lexer.Yields.endsOnce {l : Lexer} {ts : List Token} (h : l.Yields ts) : EndsOnce ts := by
  induction h with
  | done hk => exact ⟨[], _, rfl, hk, by simp⟩
  | more hk _ ih =>
    obtain ⟨before, stop, rfl, hstop, hbefore⟩ := ih
    exact ⟨_ :: before, stop, rfl, hstop, List.forall_mem_cons.2 ⟨hk, hbefore⟩⟩

theorem EndsOnce.kind_iff {ts : List Token} (h : EndsOnce ts) {i : Nat} (hi : i < ts.length) :
    (ts.getD i default).kind = .eof ↔ i + 1 = ts.length := by
  obtain ⟨before, stop, rfl, hstop, hbefore⟩ := h
  rw [List.length_append, List.length_singleton] at hi ⊢
  by_cases hlt : i < before.length
  · rw [List.getD_eq_getElem?_getD, List.getElem?_append_left hlt, List.getElem?_eq_getElem hlt]
    exact iff_of_false (hbefore _ (List.getElem_mem hlt)) (by omega)
  · have heq : i = before.length := by omega
    subst heq
    simp [hstop]

theorem Lexer.Yields.sorted {l : Lexer} {ts : List Token} (h : l.Yields ts) (hl : l.Kept) :
    (∀ t ∈ ts, l.sourceOffset l.cursor.offset ≤ t.span.start.offset) ∧
      ts.Pairwise fun a b => a.span.start.offset ≤ b.span.start.offset := by
  induction h with
  | @done l _ =>
    exact ⟨List.forall_mem_singleton.2 (start_next l).ge, List.pairwise_singleton ..⟩
  | @more l ts _ _ ih =>
    obtain ⟨hle, hsorted⟩ := ih hl.next
    have hlater : ∀ t ∈ ts, l.sourceOffset l.cursor.offset ≤ t.span.start.offset := fun t ht =>
      (sourceOffset_le hl.input (offset_le_next l) hl.inside.next).trans (hle t ht)
    refine ⟨List.forall_mem_cons.2 ⟨(start_next l).ge, hlater⟩, .cons (fun t ht => ?_) hsorted⟩
    rw [start_next]
    exact hlater t ht

namespace Parse

/-! ## The start -/

/-- No token starts before one in front of it. -/
def Rising (ts : Array Token) : Prop :=
  ∀ i j, i ≤ j → j < ts.size →
    (ts.getD i default).span.start.offset ≤ (ts.getD j default).span.start.offset

theorem rising_of_pairwise {ts : Array Token}
    (h : ts.toList.Pairwise fun a b => a.span.start.offset ≤ b.span.start.offset) : Rising ts := by
  intro i j hij hj
  rcases Nat.eq_or_lt_of_le hij with rfl | hlt
  · exact Nat.le_refl _
  · have hi : i < ts.size := hlt.trans hj
    have hle := List.pairwise_iff_getElem.1 h i j (by simpa) (by simpa) hlt
    simpa [Array.getD, hi, hj] using hle

/-- A state in which nothing has been parsed yet. -/
structure State.Unused (s : State) : Prop where
  ends : EndsOnce s.tokens.toList
  pos : s.pos = 0
  splits : s.splits = {}
  drafts : s.drafts = []
  lastError : s.lastError = none
  rising : Rising s.tokens

theorem tokens_start (source : Text) (o : Options) : (start source o).tokens =
    (Lexer.new source o.file o.level).run.1.filter isSignificant := by
  unfold start
  generalize (Lexer.new source o.file o.level).run = r
  rfl

theorem unused_start (source : Text) (o : Options) : (start source o).Unused := by
  have hyields : (Lexer.new source o.file o.level).Yields
      (Lexer.new source o.file o.level).run.1.toList := Lexer.run_yields (Nat.zero_le _)
  obtain ⟨before, stop, heq, hstop, hbefore⟩ := hyields.endsOnce
  have htokens : (start source o).tokens.toList = (before ++ [stop]).filter isSignificant := by
    rw [tokens_start, Array.toList_filter, heq]
  have hkept : isSignificant stop = true := by
    rw [isSignificant, hstop]
  have hsorted := (hyields.sorted (Lexer.kept_new _ _ _)).2.filter isSignificant
  refine ⟨⟨before.filter isSignificant, stop, ?_, hstop, ?_⟩, rfl, rfl, rfl, rfl, ?_⟩
  · rw [htokens, List.filter_append, List.filter_cons_of_pos hkept, List.filter_nil]
  · exact fun t ht => hbefore t (List.mem_of_mem_filter ht)
  · refine rising_of_pairwise ?_
    rw [tokens_start, Array.toList_filter]
    exact hsorted

/-- The setting at the start of a parse of some tokens. -/
def settingOf (ts : Array Token) (h : EndsOnce ts.toList) (base : Nat) : Setting where
  tokens := ts
  least := 0
  base
  opened := []
  keeps := true
  nonempty := by
    obtain ⟨before, stop, heq, -⟩ := h
    rw [← Array.length_toList, heq]
    simp
  closed i hi := by
    have hkind := h.kind_iff (i := i) (by simpa using hi)
    rwa [Array.length_toList, List.getD_eq_getElem?_getD, Array.getElem?_toList,
      ← Array.getD_eq_getD_getElem?] at hkind
  earlier := by simp
  nested := .nil

theorem State.Unused.fits {s : State} (h : s.Unused) {base : Nat} (hids : base ≤ s.nextId) :
    s.Fits (settingOf s.tokens h.ends base) where
  tokens := rfl
  pos := by
    rw [h.pos]
    exact (settingOf s.tokens h.ends base).nonempty
  behind _ _ _ := Nat.zero_le _
  splits i t ht := by
    rw [h.splits, Std.TreeMap.get?_eq_getElem?, Std.TreeMap.getElem?_emptyc] at ht
    cases ht
  ids := hids
  noted hlast := by
    rw [h.lastError] at hlast
    cases hlast
  starts d hd := by
    rw [h.drafts] at hd
    cases hd
  opened := by
    rw [h.drafts]
    rfl

/-! ## The strict parse -/

/-- How the strict parse of a text ends: with an unmarked tree, or with an error on record or
something missing at the end. -/
inductive Tried {α : Type} (v : Setting) (node : α → Node) : EStateM.Result Failure State α → Prop
  | ok {a : α} {s : State} : (node a).Unmarked → Tried v node (.ok a s)
  | error {w : Setting} {s : State} : v.Within w → s.Fits w → s.Reported →
    Tried v node (.error .badSyntax s)

theorem Ends.tried {α : Type} {v : Setting} {c : Context} {s : State} {δ : Nat} {Q : α → Prop}
    {node : α → Node} {x : EStateM.Result Failure State α} (h : Ends v .strict c s δ Q x)
    (hc : c.speculating = false) (hQ : ∀ a, Q a → (node a).Unmarked) : Tried v node x := by
  cases x with
  | ok a s' => exact .ok (hQ a h.2)
  | error e s' =>
    obtain ⟨rfl, ⟨w, hw, hgoes⟩, hallows⟩ := h
    exact .error hw hgoes.fits (hallows hc)

/-- There are steps enough for a state that fits. -/
theorem State.Fits.steps {v : Setting} {s : State} (hs : s.Fits v) :
    16 * s.left + 16 ≤ stepsFor s.tokens.size := by
  have hpos := hs.pos
  simp only [State.left, stepsFor, hs.tokens]
  omega

/-- The draft of a source file is open when the parse of its parts fails. -/
theorem tried_unit {v : Setting} {n : Nat} {g : Grammar} (hg : Serves n g) {num : Nat}
    {u : CompilationUnit} (hu : NewUnit num u) (hnum : v.Fresh num) (hkeeps : v.keeps = true)
    (hopened : v.opened = []) {c : Context} (hc : c.speculating = false ∧ c.keeps = true)
    {s : State}
    (hs : s.Fits v) (hrising : Rising v.tokens) (hn : 16 * s.left + 16 ≤ n) :
    ∃ w : Setting, w.opened = [⟨num, .unit⟩] ∧ Rising w.tokens ∧
      Tried w Node.unit (unit g u c s) := by
  let w := v.push ⟨num, .unit⟩ hnum.2 (by simp [hopened])
  let s₁ : State := { s with drafts := ⟨.unit u, s.pos⟩ :: s.drafts }
  have hs₁ : s₁.Fits w := by
    refine hs.withDrafts rfl rfl (Nat.le_refl _) (List.forall_mem_cons.2 ⟨hs.pos, hs.starts⟩) ?_
    rw [List.map_cons, hs.opened, hu.slot]
    rfl
  have hinside : w.Inside ⟨num, .unit⟩ := Setting.inside_push
  have hmoves : Moves w n .strict Any 0 16 (unitParts g u) (NewUnit num) :=
    moves_unitParts hg (hinside.admits rfl) hinside.knows hu
  have hparts := hmoves c s₁ (fun _ => hkeeps) hs₁ hn trivial
  refine ⟨w, congrArg _ hopened, hrising, ?_⟩
  unfold unit
  rw [bind_ok (openDraft_run (.unit u)), if_pos hc.2]
  cases hrun : unitParts g u c s₁ with
  | error e s' =>
    rw [hrun] at hparts
    obtain ⟨rfl, ⟨w', hw', hgoes⟩, hallows⟩ := hparts
    rw [bind_error hrun]
    exact .error hw' hgoes.fits (hallows hc.1)
  | ok u' s' =>
    rw [hrun] at hparts
    obtain ⟨-, hu', -⟩ := hparts
    rw [bind_ok hrun]
    obtain ⟨hflags, hrest⟩ := Node.unmarked_unit.1 hu'
    exact .ok (Node.unmarked_unit.2 ⟨hflags, hrest⟩)

/-- A source file gets the first number, so what is parsed after it has later ones. -/
theorem tried_strictUnit (source : Text) (o : Options) : ∃ v : Setting,
    v.opened = [⟨o.firstId, .unit⟩] ∧ Rising v.tokens ∧
      Tried v Node.unit (strictUnit source o) := by
  have hs := unused_start source o
  unfold strictUnit
  generalize start source o = s at hs
  have hunused : State.Unused { s with nextId := o.firstId + 1 } :=
    ⟨hs.ends, hs.pos, hs.splits, hs.drafts, hs.lastError, hs.rising⟩
  have hfits := hunused.fits (Nat.le_refl _)
  have hu : NewUnit o.firstId (emptyUnit o) :=
    ⟨Node.unmarked_unit.2 ⟨rfl, by simp [emptyUnit]⟩, rfl⟩
  exact tried_unit (serves_grammar _) hu ⟨by simp [settingOf], Nat.lt_succ_self _⟩ rfl rfl
    ⟨rfl, rfl⟩ hfits hs.rising hfits.steps

theorem tried_strictPhrase {α : Type} {rule : Grammar → Parser α} {node : α → Node}
    (hrule : ∀ {v : Setting} {n g}, Serves n g → v.opened = [] →
      Moves v n .strict Any 0 16 (rule g)
        fun a => (node a).Unmarked) (source : Text) (o : Options) :
    ∃ v, Tried v node (strictPhrase rule source o) := by
  have hs := unused_start source o
  unfold strictPhrase
  generalize start source o = s at hs
  have hfits := hs.fits (Nat.le_refl _)
  have hmoves : Moves (settingOf s.tokens hs.ends s.nextId) (stepsFor s.tokens.size) .strict Any
      0 16 (do
        let a ← rule (grammarFor s)
        expect_ .eof
        return a) fun a => (node a).Unmarked :=
    .go (hrule (serves_grammar _) rfl) fun a ha => .go moves_expectEnd fun _ _ => .pure ha
  exact ⟨_, (hmoves (contextOf o) s (fun _ => rfl) hfits hfits.steps trivial).tried rfl fun _ => id⟩

/-! ## Recovery -/

/-- The offset where recovery goes on. -/
def State.resumeOffset (s : State) : Nat := s.resumed.current.span.start.offset

/-- The setting of recovery, which has no drafts and goes on at an offset. -/
def Setting.cleared (v : Setting) (least : Nat) : Setting :=
  { v with least, opened := [], keeps := false, earlier := by simp, nested := .nil }

theorem State.Fits.pos_resumed {v : Setting} {s : State} (hs : s.Fits v) :
    s.resumed.pos < v.tokens.size := by
  show (s.drafts.head?.map OpenDraft.childStart).getD 0 < v.tokens.size
  cases hdrafts : s.drafts with
  | nil => exact v.nonempty
  | cons d ds => exact hs.starts d (hdrafts ▸ List.mem_cons_self)

theorem State.Fits.resumed {v : Setting} {s : State} (hs : s.Fits v) (hv : Rising v.tokens) :
    s.resumed.Fits (v.cleared s.resumeOffset) where
  tokens := hs.tokens
  pos := hs.pos_resumed
  behind i hpos hi := by
    have hcurrent : s.resumed.current = v.tokens.getD s.resumed.pos default := by
      have hmin : min s.resumed.pos (v.tokens.size - 1) = s.resumed.pos := by
        have := hs.pos_resumed
        omega
      rw [← hmin, ← hs.tokens]
      rfl
    show s.resumed.current.span.start.offset ≤ _
    rw [hcurrent]
    exact hv _ _ hpos hi
  splits i t ht := by
    have hnone : s.resumed.splits.get? i = none := Std.TreeMap.getElem?_emptyc
    cases hnone.symm.trans ht
  ids := hs.ids
  noted := hs.noted
  starts d hd := by cases hd
  opened := rfl

/-- What recovery takes over of an open draft. -/
def OpenDraft.kept (s : State) (d : OpenDraft) : Draft := (elementOf s 0 d).draft

theorem draft_elementOf (s : State) (serial : Nat) (d : OpenDraft) :
    (elementOf s serial d).draft = d.kept s := by
  obtain ⟨d, k⟩ := d
  cases d with
  | type t =>
    simp only [OpenDraft.kept, elementOf]
    split <;> rfl
  | _ => rfl

/-- Nothing is given up but the constants of an enum whose next child starts behind its brace. -/
theorem OpenDraft.kept_cases (s : State) (d : OpenDraft) : d.kept s = d.draft ∨
    ∃ t : TypeDecl, d.draft = .type t ∧ t.kind = .enum ∧
      (s.token (d.childStart - 1)).kind = .lbrace ∧
      d.kept s = .type { t with constants := [] } := by
  obtain ⟨d, k⟩ := d
  cases d with
  | type t =>
    simp only [kept, elementOf]
    split
    next h =>
      simp only [Bool.and_eq_true, beq_iff_eq] at h
      exact .inr ⟨t, rfl, h.1.1, h.2, rfl⟩
    next => exact .inl rfl
  | _ => exact .inl rfl

theorem OpenDraft.kind_kept (s : State) (d : OpenDraft) : (d.kept s).kind = d.draft.kind := by
  obtain h | ⟨t, ht, -, -, h⟩ := d.kept_cases s
  · rw [h]
  · rw [h, ht]
    rfl

/-- The open drafts become elements one by one. -/
theorem drafts_ofState (s : State) :
    (Recovery.ofState s).stack.map Element.draft = s.drafts.map (OpenDraft.kept s) := by
  have hstack : (Recovery.ofState s).stack =
      s.drafts.zipIdx.map fun x => elementOf s (s.drafts.length - 1 - x.2) x.1 := rfl
  have hkept : (Element.draft ∘ fun x : OpenDraft × Nat =>
      elementOf s (s.drafts.length - 1 - x.2) x.1) = OpenDraft.kept s ∘ Prod.fst :=
    funext fun x => draft_elementOf s _ x.1
  rw [hstack, List.map_map, hkept, ← List.map_map, List.zipIdx_map_fst]

/-- Drafts one inside the other, of which the outermost and no other is that of a source file. -/
structure RootedChain (ds : List Draft) : Prop where
  nested : ds.IsChain fun inner outer => outer.hosts inner = true
  rooted : ∃ inner d, ds = inner ++ [d] ∧ d.isUnit = true ∧ ∀ x ∈ inner, x.isUnit = false

/-- No draft hosts that of a source file, so it is only the outermost one. -/
theorem isUnit_of_isChain {inner : List Draft} {d : Draft}
    (h : (inner ++ [d]).IsChain fun inner outer => outer.hosts inner = true) :
    ∀ x ∈ inner, x.isUnit = false := by
  induction inner with
  | nil => simp
  | cons x inner ih =>
    rw [List.cons_append, List.isChain_cons] at h
    refine List.forall_mem_cons.2 ⟨?_, ih h.2⟩
    obtain ⟨y, hy⟩ : ∃ y, y ∈ (inner ++ [d]).head? := by
      cases inner <;> exact ⟨_, rfl⟩
    have hhosts := h.1 y hy
    cases x with
    | unit u => cases y <;> cases hhosts
    | _ => rfl

/-- The drafts that are open when the parse of a source file fails stand in its draft. -/
theorem State.Fits.rootedChain {v w : Setting} {num : Nat} {s : State}
    (hopened : v.opened = [⟨num, .unit⟩]) (hw : v.Within w) (hs : s.Fits w) :
    RootedChain (s.drafts.map (OpenDraft.kept s)) := by
  have hkinds : (s.drafts.map (OpenDraft.kept s)).map Draft.kind = w.opened.map Slot.kind := by
    rw [← hs.opened, List.map_map, List.map_map]
    exact List.map_congr_left fun d _ => d.kind_kept s
  have hnested : ((s.drafts.map (OpenDraft.kept s)).map Draft.kind).IsChain
      fun inner outer => outer.hosts inner = true := by
    rw [hkinds]
    exact (List.isChain_map Slot.kind).2 w.nested
  have hchain : (s.drafts.map (OpenDraft.kept s)).IsChain
      fun inner outer => outer.hosts inner = true := (List.isChain_map Draft.kind).1 hnested
  obtain ⟨outer, houter⟩ := hw.opened
  rw [← houter, hopened, List.map_append] at hkinds
  obtain ⟨inner, last, heq, -, hlast⟩ := List.map_eq_append_iff.1 hkinds
  obtain ⟨d, rfl, hd⟩ := List.map_eq_singleton_iff.1 hlast
  exact ⟨hchain, inner, d, heq, Draft.isUnit_iff_kind.2 hd, isUnit_of_isChain (heq ▸ hchain)⟩

theorem RootedChain.ofState {s : State} (h : RootedChain (s.drafts.map (OpenDraft.kept s))) :
    (Recovery.ofState s).Rooted := by
  obtain ⟨-, inner, d, heq, hd, hinner⟩ := h
  rw [← drafts_ofState] at heq
  obtain ⟨l, last, hstack, hl, hlast⟩ := List.map_eq_append_iff.1 heq
  obtain ⟨e, rfl, he⟩ := List.map_eq_singleton_iff.1 hlast
  exact ⟨l, e, hstack, he ▸ hd, fun x hx => hinner _ (hl ▸ List.mem_map_of_mem hx)⟩

/-- The elements that such drafts become track them. -/
theorem RootedChain.tracks {k : Nat} {s : State}
    (h : RootedChain (s.drafts.map (OpenDraft.kept s))) :
    Tracks k (s.drafts.map (OpenDraft.kept s)) (Recovery.ofState s).stack := by
  have hchain := h.nested
  rw [← drafts_ofState, h.ofState.cons_tail] at hchain ⊢
  exact tracks_self rfl rfl hchain

theorem distance_resumed (s : State) :
    distance s.resumed (Recovery.ofState s).flagged < roundsFor s := by
  have hlength : (Recovery.ofState s).flagged.stack.length = s.drafts.length := by
    simp [Recovery.flagged, Recovery.ofState]
  simp only [distance, hlength, roundsFor, State.left, State.resumed]
  omega

/-- Recovery from a state: the loop ends where all tokens are taken, and then everything is closed
but the source file. -/
def Recovers (g : Grammar) (c : Context) (s : State) (u : CompilationUnit) (s' : State) : Prop :=
  ∃ r s₁ r', recoverLoop g (roundsFor s) (Recovery.ofState s).flagged c s.resumed = .ok ((), r) s₁ ∧
    s₁.pos + 1 = s₁.tokens.size ∧ finishRecovery r c s₁ = .ok ((), r') s' ∧
    ∃ e u₀, r'.stack = [e] ∧ e.draft = .unit u₀ ∧
      u = { u₀ with info := (u₀.info.withSpan ⟨.first,
        (s'.token (s'.tokens.size - 1)).span.stop⟩).withFlags .hasErrors }

theorem recoverUnit_run {w : Setting} {n : Nat} (hn : 16 * w.tokens.size ≤ n)
    (hrising : Rising w.tokens) {u : CompilationUnit} {c : Context}
    (hc : c.speculating = false ∧ c.keeps = false) {s : State} (hs : s.Fits w)
    (hchain : RootedChain (s.drafts.map (OpenDraft.kept s))) (hreported : s.Reported) :
    ∃ u' s', recoverUnit (grammar n) u c s = .ok u' s' ∧ Recovers (grammar n) c s u' s' ∧
      s'.Recorded ∧
      Draft.Holds s.resumeOffset (s.drafts.map (OpenDraft.kept s)).reverse (.unit u') := by
  have hstart : After (w.cleared s.resumeOffset) c 0 s.resumed (Recovery.ofState s) s.resumed
      (Recovery.ofState s).flagged :=
    (After.refl ⟨rfl, hc.2⟩ (hs.resumed hrising) hchain.ofState).flagged
  obtain ⟨⟨⟩, s₁, r, hloop, h, hleft⟩ := does_recoverLoop (v := w.cleared s.resumeOffset)
    (serves_grammar n) (opens_grammar n) (fun _ => (starts_blockStatement n).mono (by decide)) hn _
    hstart (distance_resumed s)
  obtain ⟨⟨⟩, s', r', hfinish, h', hrecorded, hlength⟩ :=
    does_finishRecovery h hc.1 (h.goes.reported hreported)
  obtain ⟨inner, e, hstack, hunit, -⟩ := h'.rooted
  obtain ⟨u₀, hu₀⟩ := Draft.isUnit_iff.1 hunit
  have hone : r'.stack = [e] := by
    have hinner : inner.length = 0 := by
      rw [hstack, List.length_append, List.length_singleton] at hlength
      omega
    rw [hstack, List.eq_nil_of_length_eq_zero hinner, List.nil_append]
  have hend : s₁.pos + 1 = s₁.tokens.size := by
    have hpos := h.goes.fits.pos
    simp only [State.left, h.goes.fits.tokens] at hleft ⊢
    omega
  have htracks : Tracks s.resumeOffset (s.drafts.map (OpenDraft.kept s)) [e] :=
    hone ▸ h'.tracks _ hchain.tracks
  refine ⟨_, s', ?_, ⟨r, s₁, r', hloop, hend, hfinish, e, u₀, hone, hu₀, rfl⟩, hrecorded,
    (hu₀ ▸ htracks.single).grows ⟨rfl, .refl _, .refl _⟩⟩
  have hrun : ((do recoverLoop (grammar n) (roundsFor s); finishRecovery : Recover Unit).run
      (Recovery.ofState s).flagged) c s.resumed = .ok ((), r') s' := by
    show ((recoverLoop (grammar n) (roundsFor s) (Recovery.ofState s).flagged : Parser _) >>=
      fun x => finishRecovery x.2) c s.resumed = _
    rw [bind_ok hloop]
    exact hfinish
  unfold recoverUnit
  rw [bind_get, bind_ok (p := set s.resumed) (a := ⟨⟩) rfl, bind_ok hrun]
  obtain ⟨serial, draft, balance, initDone, constantsDone, span⟩ := e
  obtain ⟨stack, opened⟩ := r'
  cases hu₀
  cases hone
  rfl

/-- After the strict parse of a source file failed. -/
theorem recoveredUnit_run {v w : Setting} {num : Nat} (hopened : v.opened = [⟨num, .unit⟩])
    (hrising : Rising v.tokens) (hw : v.Within w) {s : State} (hs : s.Fits w)
    (hreported : s.Reported) (o : Options) :
    ∃ u s', recoveredUnit o s = .ok u s' ∧
      Recovers (grammarFor s) { contextOf o with recovering := true } s u s' ∧ s'.Recorded ∧
      Draft.Holds s.resumeOffset (s.drafts.map (OpenDraft.kept s)).reverse (.unit u) := by
  refine recoverUnit_run ?_ (hw.tokens ▸ hrising) ⟨rfl, rfl⟩ hs (hs.rootedChain hopened hw)
    hreported
  simp only [stepsFor, hs.tokens]
  omega

/-! ## The result -/

/-- What a parse promises: its strict part never runs out of steps; where that fails an error is
counted and reported; and where no error is counted it succeeded, with a tree that has no marks. -/
structure Outspoken {α : Type} (strict : EStateM.Result Failure State α) (node : α → Node)
    (result : Result α) : Prop where
  total : ∀ s, strict ≠ .error .exhausted s
  told : ∀ e s, strict = .error e s →
    0 < result.errorCount ∧ ∃ p ∈ result.problems, p.isError = true
  clean : result.errorCount = 0 → (∃ a s, strict = .ok a s) ∧ (node result.tree).Unmarked

theorem State.Recorded.result {α : Type} {s : State} (h : s.Recorded) (tree : α) :
    0 < (resultOf tree s).errorCount ∧ ∃ p ∈ (resultOf tree s).problems, p.isError = true := by
  obtain ⟨hcount, p, hp, herror⟩ := h
  exact ⟨hcount, p, Array.mem_toList_iff.2 hp, herror⟩

/-- What is missing at the end is put on record. -/
theorem State.Reported.ended {s : State} (h : s.Reported) (o : Options) : (s.ended o).Recorded := by
  unfold State.ended
  split
  next hmissing => exact h.resolve_right (by simp [hmissing])
  next => exact recorded_reporting rfl

theorem outspoken_phrase {α : Type} {rule : Grammar → Parser α} {bad : Info → α} {node : α → Node}
    (hrule : ∀ {v : Setting} {n g}, Serves n g → v.opened = [] →
      Moves v n .strict Any 0 16 (rule g)
        fun a => (node a).Unmarked) (source : Text) (o : Options) :
    Outspoken (strictPhrase rule source o) node (phraseOf rule bad source o) := by
  obtain ⟨v, htried⟩ := tried_strictPhrase hrule source o
  unfold phraseOf
  generalize strictPhrase rule source o = x at htried
  cases htried with
  | @ok a s ha => exact ⟨nofun, nofun, fun _ => ⟨⟨a, s, rfl⟩, ha⟩⟩
  | @error w s _ _ hreported =>
    have hrecorded := hreported.ended o
    refine ⟨nofun, fun _ _ _ => ?_, fun hzero => ?_⟩
    · exact State.Recorded.result
        (s := { s.ended o with nextId := (s.ended o).nextId + 1 }) hrecorded _
    · exact absurd hzero (Nat.ne_of_gt hrecorded.1)

/-- The result of a source file from its tree and the state behind it. -/
def finished (o : Options) (u : CompilationUnit) (s : State) : Result CompilationUnit :=
  let u := if o.keepComments then { u with comments := s.lexer.allComments } else u
  let u := if s.errorCount > 0 then { u with info := u.info.withFlags .hasErrors } else u
  resultOf { u with nodes := s.nextId } s

theorem unitOf_eq (source : Text) (o : Options) :
    unitOf source o = finished o (treeOf source o).1 (treeOf source o).2 := by
  unfold unitOf
  generalize treeOf source o = x
  rfl

/-- Comments and counts that are added to the tree mark nothing. -/
theorem unmarked_finished {o : Options} {u : CompilationUnit} {s : State}
    (hcount : (finished o u s).errorCount = 0) (hu : (Node.unit u).Unmarked) :
    (Node.unit (finished o u s).tree).Unmarked := by
  have hnone : ¬ s.errorCount > 0 := Nat.not_lt.2 (Nat.le_of_eq hcount)
  obtain ⟨hflags, hparts⟩ := Node.unmarked_unit.1 hu
  rw [Node.unmarked_unit]
  simp only [finished, resultOf, hnone, if_false]
  split
  · exact ⟨hflags, hparts⟩
  · exact ⟨hflags, hparts⟩

/-- A source file is parsed outspokenly, and recovery goes on to its end where the strict parse
failed. -/
def UnitParsed (o : Options) (strict : EStateM.Result Failure State CompilationUnit)
    (result : Result CompilationUnit) : Prop :=
  Outspoken strict Node.unit result ∧ ∀ e s, strict = .error e s → ∃ u s',
    recoveredUnit o s = .ok u s' ∧
      Recovers (grammarFor s) { contextOf o with recovering := true } s u s'

theorem unitParsed_ok {o : Options} {u : CompilationUnit} {s : State}
    (hu : (Node.unit u).Unmarked) :
    UnitParsed o (.ok u s) (finished o u s) :=
  ⟨⟨nofun, nofun, fun hzero => ⟨⟨u, s, rfl⟩, unmarked_finished hzero hu⟩⟩, nofun⟩

theorem unitParsed_error {v w : Setting} {num : Nat} (hopened : v.opened = [⟨num, .unit⟩])
    (hrising : Rising v.tokens) (hw : v.Within w) {o : Options} {s : State} (hs : s.Fits w)
    (hreported : s.Reported) :
    ∃ u s', recoveredUnit o s = .ok u s' ∧ UnitParsed o (.error .badSyntax s)
      (finished o u s') := by
  obtain ⟨u, s', hrecover, hrecovers, hrecorded, -⟩ :=
    recoveredUnit_run hopened hrising hw hs hreported o
  refine ⟨u, s', hrecover, ⟨nofun, fun _ _ _ => hrecorded.result _, fun hzero => ?_⟩, ?_⟩
  · exact absurd hzero (Nat.ne_of_gt hrecorded.1)
  · rintro _ _ ⟨⟩
    exact ⟨u, s', hrecover, hrecovers⟩

theorem unitParsed (source : Text) (o : Options) :
    UnitParsed o (strictUnit source o) (unitOf source o) := by
  obtain ⟨v, hopened, hrising, htried⟩ := tried_strictUnit source o
  rw [unitOf_eq]
  unfold treeOf
  generalize strictUnit source o = x at htried
  cases htried with
  | ok hu => exact unitParsed_ok hu
  | error hw hs hreported =>
    obtain ⟨u, s', hrecover, hparsed⟩ :=
      unitParsed_error (o := o) hopened hrising hw hs hreported
    dsimp only
    rw [hrecover]
    exact hparsed

/-- Every text is parsed, as a source file, as an expression and as a statement: no parse runs out
of steps, a failure of the strict parse is always reported as an error, and a text without errors
has the unmarked tree of the strict parse. After a failure the recovery of a source file takes all
its tokens and closes all elements. -/
theorem every_text_parsed (source : Text) (o : Options) :
    UnitParsed o (strictUnit source o) (unitOf source o) ∧
      Outspoken (strictPhrase Grammar.expression source o) Node.expr (expressionOf source o) ∧
      Outspoken (strictPhrase Grammar.blockStatement source o) Node.stmt (statementOf source o) :=
  ⟨unitParsed source o,
    outspoken_phrase (fun hg _ => (hg.expression (by decide)).weak) source o,
    outspoken_phrase (fun hg hopened => (hg.blockStatement (Setting.admits_of_opened hopened)
      (by decide)).weak) source o⟩

end Parse

end Javelin

/-!
## What recovery keeps of a failed parse

When the strict parse of a source file fails, the declarations and blocks whose bodies it was in are
open, one inside the other, each with the children that it has got so far. In the tree that recovery
makes every one of them is the next child of the one around it, behind the children from before the
failure and in front of all that recovery adds. Recovery goes on where the next child of the
innermost one starts, and what it adds starts there or behind, so it reads no child again. Only the
constants of an enum that failed among them are given up and read a second time.
-/

namespace Javelin.Parse

/-- The source file holds all that was open when its strict parse failed. -/
structure HoldsOpen (s : State) (u : CompilationUnit) : Prop where
  kept : ∀ d ∈ s.drafts, d.kept s = d.draft ∨
    ∃ t : TypeDecl, d.draft = .type t ∧ t.kind = .enum ∧
      (s.token (d.childStart - 1)).kind = .lbrace ∧ d.kept s = .type { t with constants := [] }
  holds : Draft.Holds s.resumeOffset (s.drafts.map (OpenDraft.kept s)).reverse (.unit u)

/-- A source file whose strict parse failed holds what was open then. -/
def KeepsChildren (strict : EStateM.Result Failure State CompilationUnit) (u : CompilationUnit) :
    Prop :=
  ∀ e s, strict = .error e s → HoldsOpen s u

/-- Comments and counts that are added to the tree are no children. -/
theorem grows_finished {k : Nat} (o : Options) (u : CompilationUnit) (s : State) :
    (Draft.unit u).Grows k (.unit (finished o u s).tree) := by
  unfold finished resultOf
  dsimp only
  split <;> split <;> exact ⟨rfl, .refl _, .refl _⟩

theorem keepsChildren_error {v w : Setting} {num : Nat} (hopened : v.opened = [⟨num, .unit⟩])
    (hrising : Rising v.tokens) (hw : v.Within w) {o : Options} {s : State} (hs : s.Fits w)
    (hreported : s.Reported) :
    ∃ u s', recoveredUnit o s = .ok u s' ∧
      KeepsChildren (.error .badSyntax s) (finished o u s').tree := by
  obtain ⟨u, s', hrecover, -, -, hholds⟩ := recoveredUnit_run hopened hrising hw hs hreported o
  refine ⟨u, s', hrecover, ?_⟩
  rintro _ _ ⟨⟩
  exact ⟨fun d _ => d.kept_cases s, hholds.grows (grows_finished o u s')⟩

/-- In the tree of a source file whose strict parse failed, each declaration or block that was open
is the next child of the one around it. The children that it had stand in front of what recovery
added, in the same order and unchanged; only the constants of an enum that failed among them are not
taken over. All that recovery added starts at the token where it went on, or behind it. -/
theorem openChildren_kept (source : Text) (o : Options) :
    KeepsChildren (strictUnit source o) (unitOf source o).tree := by
  obtain ⟨v, hopened, hrising, htried⟩ := tried_strictUnit source o
  rw [unitOf_eq]
  unfold treeOf
  generalize strictUnit source o = x at htried
  cases htried with
  | ok hu => exact nofun
  | error hw hs hreported =>
    obtain ⟨u, s', hrecover, hkeeps⟩ :=
      keepsChildren_error (o := o) hopened hrising hw hs hreported
    dsimp only
    rw [hrecover]
    exact hkeeps

end Javelin.Parse

/-!
# What looking ahead leaves behind

The grammar looks ahead in thirteen places, and recovery tries nine parsers of which it may want no
result. All of them leave the state as it was, except for two things: numbers for nodes are used up,
and a modifier that stands in its list a second time is reported wherever it is met. The second is
why an error can be counted more than once; a text that gives no modifier twice is looked at without
any trace.

1. The places.
2. What is left behind, and what is not.
-/

namespace Javelin.Parse

/-! ## The places -/

/-- The tests of the grammar that look ahead. Those of annotated dimensions, of enhanced for
statements and of resources stand inside the rules for them. -/
inductive LooksAhead (g : Grammar) : Parser Bool → Prop
  | dimension : LooksAhead g (lookahead (dimensionAhead g))
  | cast : LooksAhead g (isCast g)
  | genericTypeRef : LooksAhead g (isGenericTypeRef g)
  | localType : LooksAhead g (isLocalType g)
  | localVar : LooksAhead g (isLocalVar g)
  | forEach : LooksAhead g (lookahead (declaredBefore g .colon))
  | resource : LooksAhead g (lookahead (declaredBefore g .assign))
  | constructorCall : LooksAhead g (isConstructorCall g)
  | patternStart : LooksAhead g (isPatternStart g)
  | receiver : LooksAhead g (isReceiver g)
  | annotatedPackage : LooksAhead g (isAnnotatedPackage g)
  | module : LooksAhead g (isModule g)
  | memberHeader : LooksAhead g (isMemberHeader g)

/-- The parsers that recovery tries. The rest of a header is tried for a declaration that the first
part of it has made. -/
inductive TriedInRecovery (g : Grammar) : {α : Type} → Parser α → Prop
  | typeStart (start : Position) : TriedInRecovery g (typeStart g start)
  | typeRest {d : TypeDecl} : (Node.typeDecl d).Unmarked → TriedInRecovery g (typeHeaderRest g d)
  | methodStart (owner : Text) : TriedInRecovery g (methodStart g owner)
  | methodRest {d : MethodDecl} : (Node.method d).Unmarked → TriedInRecovery g (methodRest g d)
  | field (start : Position) : TriedInRecovery g (fieldHeader g start)
  | locals (start : Position) : TriedInRecovery g (localHeader g start)
  | import : TriedInRecovery g importHeader
  | init : TriedInRecovery g g.expression
  | declarator : TriedInRecovery g bareDeclarator

section

variable {v : Setting} {n : Nat} {g : Grammar}

theorem LooksAhead.probes {p : Parser Bool} (h : LooksAhead g p) (hg : Serves n g) :
    Probes v n Any 16 p := by
  cases h with
  | dimension => exact probes_dimensionAhead hg (by decide)
  | cast => exact probes_isCast hg (by decide)
  | genericTypeRef => exact probes_isGenericTypeRef hg (by decide)
  | localType => exact probes_isLocalType hg (by decide)
  | localVar => exact probes_isLocalVar hg (by decide)
  | forEach => exact probes_declaredBefore hg (by decide) (by decide)
  | resource => exact probes_declaredBefore hg (by decide) (by decide)
  | constructorCall => exact probes_isConstructorCall hg
  | patternStart => exact probes_isPatternStart hg (by decide)
  | receiver => exact probes_isReceiver hg (by decide)
  | annotatedPackage => exact probes_isAnnotatedPackage hg (by decide)
  | module => exact probes_isModule hg (by decide)
  | memberHeader => exact probes_isMemberHeader hg

theorem TriedInRecovery.moves {α : Type} {p : Parser α} (h : TriedInRecovery g p)
    (hg : Serves n g) : Moves v n .strict Any 0 16 p fun _ => True := by
  have hany : ∀ {α : Type} {p : Parser α} {δ : Nat} {P : α → Prop},
      Moves v n .strict Any δ 16 p P → Moves v n .strict Any 0 16 p fun _ => True := fun h =>
    h.mono (Nat.le_refl _) (Nat.zero_le _) (fun _ => id) fun _ _ => trivial
  cases h with
  | typeStart start => exact hany (moves_typeStart hg start)
  | typeRest hd => exact hany (moves_typeHeaderRest hg ⟨hd, rfl⟩)
  | methodStart owner => exact hany (moves_methodStart hg owner)
  | methodRest hd => exact hany (moves_methodRest hg ⟨hd, rfl⟩)
  | field start => exact hany (moves_fieldHeader hg start)
  | locals start => exact hany (moves_localHeader hg start)
  | «import» => exact hany moves_importHeader
  | init => exact hany (hg.expression (by decide))
  | declarator => exact hany moves_bareDeclarator

/-! ## Traces -/

/-- Where no modifier is given twice only numbers are used up. -/
theorem State.Traceless.eq {file : Text} {s s' : State} (h : s.Traceless v file s')
    (hnone : ∀ t, ¬ v.Repeats t) : s' = { s with nextId := s'.nextId } := by
  obtain ⟨⟨hlexer, hlast, hmissing, ts, hts, hproblems, hcount⟩, htokens, hpos, hsplits,
    hdrafts⟩ := h
  have hempty : ts = [] := List.eq_nil_iff_forall_not_mem.2 fun t ht => hnone t (hts t ht)
  rw [hempty] at hproblems hcount
  obtain ⟨lexer, tokens, splits, pos, drafts, problems, errorCount, lastError, missing,
    nextId⟩ := s'
  cases hlexer
  cases hlast
  cases hmissing
  cases htokens
  cases hpos
  cases hsplits
  cases hdrafts
  simp only [List.map_nil, Array.append_empty, List.length_nil, Nat.add_zero] at hproblems hcount
  rw [hproblems, hcount]

/-- What is left behind does not depend on where drafts are kept. -/
theorem State.Traceless.within {w : Setting} {file : Text} {s s' : State}
    (h : s.Traceless v file s') (hw : w.tokens = v.tokens) : s.Traceless w file s' :=
  ⟨h.toQuiet.within hw, h.tokens, h.pos, h.splits, h.drafts⟩

/-- What a test or a failed try leaves of the state that it started from. -/
structure NoTrace (v : Setting) (file : Text) (s s' : State) : Prop where
  traceless : s.Traceless v file s'
  unchanged : (∀ t, ¬ v.Repeats t) → s' = { s with nextId := s'.nextId }

/-- Every test that looks ahead and every failed try of recovery leaves no trace, from every state
that a parse can be in: tokens, split tokens, position, drafts, comments, the place of the last
error and what is missing at the end are as before, and so are the problems and the count of errors
up to reports of modifiers that are given again. -/
theorem speculation_noTrace {c : Context} {s : State} (hs : s.Fits v)
    (hn : 16 * s.left + 16 ≤ n) :
    (∀ p, LooksAhead (grammar n) p → ∃ b s', p c s = .ok b s' ∧ NoTrace v c.file s s') ∧
      ∀ (α : Type) (p : Parser α), TriedInRecovery (grammar n) p →
        ∀ s', attempt p c s = .ok none s' → NoTrace v c.file s s' := by
  have hg : Serves n (grammar n) := serves_grammar n
  -- a setting that suits every context
  let w : Setting := { v with keeps := true }
  have hw : s.Fits w := State.Fits.widen (w := v) ⟨rfl, rfl, Nat.le_refl _, List.suffix_rfl⟩ rfl hs
  have hsuits : w.Suits c := fun _ => rfl
  refine ⟨fun p hp => ?_, fun α p hp s' hrun => ?_⟩
  · obtain ⟨b, s', hrun, -, htrace⟩ := hp.probes hg c s hsuits hw hn trivial
    have htrace : s.Traceless v c.file s' := htrace.within rfl
    exact ⟨b, s', hrun, htrace, htrace.eq⟩
  · obtain ⟨a, s'', hrun', -⟩ | ⟨s'', hrun', -, htrace⟩ :=
      attempt_run (hp.moves hg) hsuits hw hn trivial
    · cases hrun.symm.trans hrun'
    · cases hrun.symm.trans hrun'
      have htrace : s.Traceless v c.file s' := htrace.within rfl
      exact ⟨htrace, htrace.eq⟩

/-- The tokens of `final final int x;`. -/
def finalTwice : Array Token :=
  #[⟨.kwFinal, {}, "final", none⟩, ⟨.kwFinal, {}, "final", none⟩, ⟨.kwInt, {}, "int", none⟩,
    ⟨.identifier, {}, "x", none⟩, ⟨.semicolon, {}, ";", none⟩, ⟨.eof, {}, {}, none⟩]

theorem endsOnce_finalTwice : EndsOnce finalTwice.toList :=
  ⟨finalTwice.toList.dropLast, ⟨.eof, {}, {}, none⟩, rfl, rfl, by decide⟩

def finalTwiceState : State := { lexer := .new {} {} .latest, tokens := finalTwice }

theorem speculation_noTrace_finalTwice :
    finalTwiceState.Fits (settingOf finalTwice endsOnce_finalTwice 0) ∧
      ∃ b s', isLocalVar (grammar 96) { file := {}, level := .latest } finalTwiceState = .ok b s' ∧
        NoTrace (settingOf finalTwice endsOnce_finalTwice 0) {} finalTwiceState s' := by
  have hunused : finalTwiceState.Unused := ⟨endsOnce_finalTwice, rfl, rfl, rfl, rfl,
    rising_of_pairwise (by decide)⟩
  have hfits : finalTwiceState.Fits (settingOf finalTwice endsOnce_finalTwice 0) :=
    hunused.fits (Nat.le_refl 0)
  exact ⟨hfits, (speculation_noTrace hfits (by decide)).1 _ .localVar⟩

end

end Javelin.Parse
