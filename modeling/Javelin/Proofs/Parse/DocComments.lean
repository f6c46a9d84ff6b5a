import Javelin.Proofs.Parse.RecoveryRules
import Javelin.Proofs.Token.CommentTable

/-!
# Doc comments

A declaration asks for its doc comment by the offset where it starts (`declarations_documented`).
What it gets is the last of
the doc comments that end there or before and that no earlier question could have had
(`docs_found`). So no comment is given out twice, and one in front of the declaration is found. But
a comment anywhere behind the last declaration that asked, also one inside its body, is found as
well. -/

namespace Javelin

namespace Lexer

variable {l : Lexer}

theorem runFor_kept (fuel : Nat) : ∀ (l : Lexer) (acc : Array Token), l.Kept →
    (l.runFor acc fuel).2.Kept ∧ (l.runFor acc fuel).2.taken = l.taken := by
  induction fuel with
  | zero => exact fun l acc h => ⟨h, rfl⟩
  | succ fuel ih =>
    intro l acc h
    unfold runFor
    dsimp only
    split
    · exact ⟨h.next, rfl⟩
    · exact ih l.next.2 _ h.next

/-- The last doc comment of some entries. -/
def lastDoc (l : Lexer) (es : List Comment.Entry) : Option Comment :=
  ((es.filter fun e => e.kind == .doc).getLast?).map l.comment

theorem lastDoc_sublist (l : Lexer) (es : List Comment.Entry) :
    (l.lastDoc es).toList.Sublist (es.map l.comment) := by
  unfold lastDoc
  cases hlast : (es.filter fun e => e.kind == .doc).getLast? with
  | none => exact List.nil_sublist _
  | some e =>
    have hmem := (List.mem_filter.mp (List.mem_of_getLast? hlast)).1
    exact List.singleton_sublist.mpr (List.mem_map_of_mem hmem)

/-- Different entries of the table are different comments. -/
theorem Kept.nodup (h : l.Kept) : (l.pending.map l.comment).Nodup := by
  rw [List.Nodup, List.pairwise_map]
  refine (h.stops.sublist (List.drop_sublist _ _)).imp fun hlt heq => ?_
  have hstop := congrArg (fun c => c.span.stop.offset) heq
  exact Nat.ne_of_lt hlt hstop

end Lexer

namespace Parse

open Lexer (lastDoc)

variable {c : Context}

theorem docBefore_run (hc : c.speculating = false) {s : State} (h : s.lexer.Kept) (offset : Nat) :
    ∃ l : Lexer, docBefore offset c s =
        .ok (s.lexer.lastDoc (s.lexer.pending.filter fun e => (e.stop : Int) ≤ offset))
          { s with lexer := l } ∧
      l.Kept ∧ l.comment = s.lexer.comment ∧
      l.pending = s.lexer.pending.filter fun e => !decide ((e.stop : Int) ≤ offset) := by
  obtain ⟨htaken, hpending⟩ := Lexer.pending_take h offset
  refine ⟨(s.lexer.takeComments offset).2, ?_, h.take offset, rfl, hpending⟩
  have hdoc : ((s.lexer.takeComments offset).1.filter fun c => c.kind == .doc).getLast? =
      s.lexer.lastDoc (s.lexer.pending.filter fun e => (e.stop : Int) ≤ offset) := by
    rw [htaken, List.filter_map, List.getLast?_map]
    rfl
  rw [← hdoc]
  unfold docBefore
  rw [bind_read, if_neg (by rw [hc]; exact Bool.false_ne_true)]
  rfl

/-- What a question at the token here would find. -/
def State.docHere (s : State) : Option Comment :=
  s.lexer.lastDoc (s.lexer.pending.filter fun e => (e.stop : Int) ≤ s.current.span.start.offset)

/-- The doc comment that is asked for where a parser begins. -/
theorem docHere_of_asked {α : Type} {f : Position → Option Comment → Parser α}
    {P : Option Comment → α → Prop} (hc : c.speculating = false) {s s' : State}
    (h : s.lexer.Kept) (hf : ∀ i doc, Returns (f i doc) (P doc)) {a : α}
    (hrun : (do let i ← startPos; let doc ← docBefore i.offset; f i doc) c s = .ok a s') :
    P s.docHere a := by
  obtain ⟨l, hdoc, -⟩ := docBefore_run hc h s.current.span.start.offset
  change ((docBefore s.current.span.start.offset >>= f s.current.span.start) c s) = _ at hrun
  rw [bind_ok hdoc] at hrun
  exact hf _ _ c _ a s' hrun

/-- A type, an enum constant or a member that is parsed gets the last doc comment which ends at or
before its start, of those that are left. An initializer gets none. -/
theorem declarations_documented (n : Nat) (hc : c.speculating = false) {s : State}
    (h : s.lexer.Kept) :
    (∀ d s', typeDecl (grammar n) c s = .ok d s' → d.doc = s.docHere) ∧
      (∀ k s', enumConstant (grammar n) c s = .ok k s' → k.doc = s.docHere) ∧
      ∀ kind owner m s', member (grammar n) kind owner c s = .ok (some m) s' →
        memberDoc m = s.docHere ∨ ∃ i isStatic b, m = .initializer i isStatic b := by
  have hg := opens_grammar n
  refine ⟨fun d s' hrun => ?_, fun k s' hrun => ?_, fun kind owner m s'' hrun => ?_⟩
  · exact docHere_of_asked hc h (P := fun doc d => d.doc = doc)
      (fun i doc => (returns_typeDecl hg i doc).mono fun _ h => h.2) hrun
  · exact docHere_of_asked hc h (P := fun doc k => k.doc = doc)
      (fun i doc => (returns_enumConstant i doc).mono fun _ h => h.2) hrun
  · obtain ⟨b, s', haccept, hrest⟩ := bind_inv hrun
    cases b with
    | true => cases hrest
    | false =>
      obtain rfl := accept_false haccept
      rw [if_neg Bool.false_ne_true] at hrest
      obtain ⟨_, _, ⟨⟩, hrest⟩ := bind_inv hrest
      obtain ⟨_, _, ⟨⟩, hrest⟩ := bind_inv hrest
      obtain ⟨_, _, ⟨⟩, hrest⟩ := bind_inv hrest
      obtain ⟨_, _, ⟨⟩, hrest⟩ := bind_inv hrest
      split at hrest
      · obtain ⟨m, _, hm, ⟨⟩⟩ := bind_inv hrest
        exact .inr (begins_initializerBlock c s' m _ hm).2
      · exact .inl (docHere_of_asked hc h (f := memberFrom (grammar n) kind owner)
          (P := fun doc o => ∀ m ∈ o, memberDoc m = doc) (fun i doc =>
            (returns_memberFrom hg kind owner i doc).mono fun _ h m hm => (h m hm).2) hrest m rfl)

/-- Asking for one offset after the other. -/
theorem docs_run (hc : c.speculating = false) (offsets : List Nat) : ∀ s : State, s.lexer.Kept →
    ∃ docs s', offsets.mapM docBefore c s = .ok docs s' ∧
      (∀ before offset after, offsets = before ++ offset :: after → docs[before.length]? =
        some (s.lexer.lastDoc (s.lexer.pending.filter fun e =>
          before.all (fun b => b < e.stop) && e.stop ≤ offset))) ∧
      (docs.filterMap id).Sublist (s.lexer.pending.map s.lexer.comment) := by
  induction offsets with
  | nil =>
    intro s _
    refine ⟨[], s, rfl, fun before offset after h => ?_, List.nil_sublist _⟩
    exact absurd h.symm (by simp)
  | cons o os ih =>
    intro s h
    obtain ⟨l, hfirst, hkept, hcomment, hpending⟩ := docBefore_run hc h o
    obtain ⟨docs, s', hrest, hfound, hsub⟩ := ih { s with lexer := l } hkept
    refine ⟨s.lexer.lastDoc (s.lexer.pending.filter fun e => (e.stop : Int) ≤ o) :: docs, s',
      ?_, ?_, ?_⟩
    · rw [List.mapM_cons, bind_ok hfirst, bind_ok hrest]
      rfl
    · intro before offset after hsplit
      cases before with
      | nil =>
        obtain ⟨rfl, rfl⟩ := List.cons.inj hsplit
        simp
      | cons b before =>
        obtain ⟨rfl, rfl⟩ := List.cons.inj hsplit
        rw [List.length_cons, List.getElem?_cons_succ, hfound before offset after rfl]
        show some (l.lastDoc (l.pending.filter _)) = _
        have hsame :
            (l.pending.filter fun e => before.all (fun b => b < e.stop) && e.stop ≤ offset) =
              s.lexer.pending.filter fun e =>
                (o :: before).all (fun b => b < e.stop) && e.stop ≤ offset := by
          rw [hpending, List.filter_filter]
          refine List.filter_congr fun e _ => ?_
          have hbehind : (!decide ((e.stop : Int) ≤ o)) = decide (o < e.stop) := by
            rw [← decide_not, decide_eq_decide]
            omega
          rw [List.all_cons, Bool.and_comm, ← Bool.and_assoc, hbehind]
        rw [hsame, lastDoc, lastDoc, hcomment]
    · -- what is found first stands before what is left
      have hsplit := List.takeWhile_append_dropWhile (p := fun e => decide ((e.stop : Int) ≤ o))
        (l := s.lexer.pending)
      rw [(Lexer.pending_split h o).1, (Lexer.pending_split h o).2] at hsplit
      have hcons (d : Option Comment) :
          (d :: docs).filterMap id = d.toList ++ docs.filterMap id := by
        cases d <;> rfl
      change (docs.filterMap id).Sublist (l.pending.map l.comment) at hsub
      rw [hcomment, hpending] at hsub
      rw [hcons]
      conv_rhs => rw [← hsplit, List.map_append]
      exact (s.lexer.lastDoc_sublist _).append hsub

/-- What is found for an offset, one offset being asked for after the other, is the last of the doc
comments that end at or before it and behind all offsets before. None is found twice. -/
theorem docs_found (source : Text) (o : Options) (before after : List Nat) (offset : Nat) :
    let s := start source o
    ∃ docs s', (before ++ offset :: after).mapM docBefore (contextOf o) s = .ok docs s' ∧
      docs[before.length]? = some (s.lexer.allComments.filter fun c =>
        c.kind == .doc && (before.all (fun b => b < c.span.stop.offset) &&
          c.span.stop.offset ≤ offset)).getLast? ∧
      (docs.filterMap id).Nodup := by
  intro s
  obtain ⟨hkept, htaken⟩ := Lexer.runFor_kept
    ((Lexer.new source o.file o.level).input.text.size -
      (Lexer.new source o.file o.level).cursor.offset + 1) _ #[]
    (Lexer.kept_new source o.file o.level)
  have hlexer : s.lexer.Kept := hkept
  have hpending : s.lexer.pending = s.lexer.comments.toList := by
    have hzero : s.lexer.taken = 0 := htaken
    rw [Lexer.pending, hzero, List.drop_zero]
  obtain ⟨docs, s', hrun, hfound, hsub⟩ := docs_run (c := contextOf o) rfl
    (before ++ offset :: after) s hlexer
  refine ⟨docs, s', hrun, ?_, hsub.nodup hlexer.nodup⟩
  rw [hfound before offset after rfl, hpending, lastDoc, Lexer.allComments, List.filter_map,
    List.getLast?_map, List.filter_filter]
  rfl

end Parse

end Javelin
