import Javelin.Parse.Types
import Javelin.Proofs.Parse.Moves

/-!
# The rules for types, annotations, modifiers and parameters

What these rules do to the state, and that their trees are unmarked.
-/

namespace Javelin.Parse

/-- A grammar is not exhausted with a budget of `n` steps. A rule needs one step more than its rank:
from a rule to the rules that it enters in front of its first token the rank falls. -/
structure Serves (n : Nat) (g : Grammar) : Prop where
  annot : ∀ {v pre r}, 1 ≤ r →
    Moves v n .strict pre 1 r g.annot fun a => (Node.annot a).Unmarked
  block : ∀ {v pre r} track, v.Admits .block → 1 ≤ r →
    Moves v n .strict pre 1 r (g.block track) fun b => (Node.ofBlock b).Unmarked
  switchBody : ∀ {v pre r} isExpr, v.Admits .block → 1 ≤ r →
    Moves v n .strict pre 1 r (g.switchBody isExpr)
      fun cs => ∀ c ∈ cs, (Node.switchCase c).Unmarked
  typeBody : ∀ {v pre r} track d, v.Fresh d.info.id → v.Admits (if track then .type else .method) →
    (Node.typeDecl d).Unmarked → 1 ≤ r →
    Moves v n .strict pre 1 r (g.typeBody track d) fun d => (Node.typeDecl d).Unmarked
  typeRest : ∀ {v pre r} start mods doc, v.Admits .type → (Node.modifiers mods).Unmarked → 1 ≤ r →
    Moves v n .strict pre 1 r (g.typeRest start mods doc)
      fun d => (Node.typeDecl d).Unmarked
  type : ∀ {v pre r}, 2 ≤ r →
    Moves v n .strict pre 1 r g.type fun t => (Node.type t).Unmarked
  unary : ∀ {v pre r}, v.keeps = false → 3 ≤ r →
    Moves v n .strict pre 1 r g.unary fun x => (Node.expr x).Unmarked
  pattern : ∀ {v pre r}, 3 ≤ r →
    Moves v n .strict pre 1 r g.pattern fun x => (Node.expr x).Unmarked
  binary : ∀ {v pre r} least, v.keeps = false → 4 ≤ r →
    Moves v n .strict pre 1 r (g.binary least) fun x => (Node.expr x).Unmarked
  conditional : ∀ {v pre r}, v.keeps = false → 5 ≤ r →
    Moves v n .strict pre 1 r g.conditional fun x => (Node.expr x).Unmarked
  assignment : ∀ {v pre r}, v.keeps = false → 6 ≤ r →
    Moves v n .strict pre 1 r g.assignment fun x => (Node.expr x).Unmarked
  elementValue : ∀ {v pre r}, 6 ≤ r →
    Moves v n .strict pre 1 r g.elementValue fun x => (Node.expr x).Unmarked
  expression : ∀ {v pre r}, 7 ≤ r →
    Moves v n .strict pre 1 r g.expression fun x => (Node.expr x).Unmarked
  initializer : ∀ {v pre r}, 8 ≤ r →
    Moves v n .strict pre 1 r g.initializer fun x => (Node.expr x).Unmarked
  statement : ∀ {v pre r}, v.Admits .block → 8 ≤ r →
    Moves v n .strict pre 1 r g.statement fun s => (Node.stmt s).Unmarked
  blockStatement : ∀ {v pre r}, v.Admits .block → 9 ≤ r →
    Moves v n .strict pre 1 r g.blockStatement fun s => (Node.stmt s).Unmarked

section

variable {v : Setting} {n : Nat} {pre : Token → Prop} {r : Nat} {g : Grammar} {t : Token}

theorem Serves.lower {k : Nat} (hg : Serves n g) (hk : k ≤ n) : Serves k g where
  annot hr := (hg.annot hr).lower hk
  block track hv hr := (hg.block track hv hr).lower hk
  switchBody isExpr hv hr := (hg.switchBody isExpr hv hr).lower hk
  typeBody track d hid hv hd hr := (hg.typeBody track d hid hv hd hr).lower hk
  typeRest start mods doc hv hmods hr := (hg.typeRest start mods doc hv hmods hr).lower hk
  type hr := (hg.type hr).lower hk
  unary hv hr := (hg.unary hv hr).lower hk
  pattern hr := (hg.pattern hr).lower hk
  binary least hv hr := (hg.binary least hv hr).lower hk
  conditional hv hr := (hg.conditional hv hr).lower hk
  assignment hv hr := (hg.assignment hv hr).lower hk
  elementValue hr := (hg.elementValue hr).lower hk
  expression hr := (hg.expression hr).lower hk
  initializer hr := (hg.initializer hr).lower hk
  statement hv hr := (hg.statement hv hr).lower hk
  blockStatement hv hr := (hg.blockStatement hv hr).lower hk

/-! ## Annotations -/

theorem moves_qualifiedName : Moves v n .strict pre 1 r qualifiedName
    fun q => (Node.qualifiedName q).Unmarked := by
  unfold qualifiedName
  refine .read reads_startPos fun start => .take moves_ident fun first hfirst => ?_
  dsimp only
  refine .go (moves_manyWhile tells_checkBoth (.here fun t ht => .advance (by rw [ht]; decide)
    moves_ident.weak)) fun rest hrest => ?_
  refine .look (looks_infoFrom start) fun i hi => .pure (.mk hi ?_)
  simpa [Node.children] using ⟨hfirst, hrest⟩

theorem moves_annotsHere (hg : Serves n g) (hr : 1 ≤ r) :
    Moves v n .strict pre 0 r (annotsHere g)
      fun as => ∀ a ∈ as, (Node.annot a).Unmarked :=
  moves_many (reads_check _) (hg.annot hr)

theorem moves_namedValue (hg : Serves n g) :
    Moves v n .strict pre 1 r (namedValue g) fun e => (Node.element e).Unmarked := by
  unfold namedValue
  refine .read reads_startPos fun start => .take moves_ident fun name hname => ?_
  refine .expect (by decide) (.go (hg.elementValue (by decide)).weak fun x hx => ?_)
  refine .look (looks_infoFrom start) fun i hi => .pure (.mk hi ?_)
  simpa [Node.children] using ⟨hname, hx⟩

theorem moves_annotArgs (hg : Serves n g) :
    Moves v n .strict pre 0 16 (annotArgs g) fun es => ∀ e ∈ es, (Node.element e).Unmarked := by
  unfold annotArgs
  refine .read (reads_check _) fun _ => .ite (fun _ => .pure (by simp)) fun _ => ?_
  refine .read (reads_check _) fun _ => .read (reads_checkAt _ _) fun _ => .ite (fun _ => ?_)
    fun _ => ?_
  · exact (moves_commaSeparated (moves_namedValue hg) (moves_namedValue hg).weak).weak
  · refine .read reads_startPos fun start => .go (hg.elementValue (by decide)).weak fun x hx => ?_
    refine .look (looks_infoFrom start) fun i hi => .pure (List.forall_mem_singleton.2 ?_)
    exact .mk hi (by simpa [Node.children] using hx)

theorem moves_annotRule (hg : Serves n g) :
    Moves v n .strict pre 1 0 (annotRule g) fun a => (Node.annot a).Unmarked := by
  unfold annotRule
  simp only [pure_bind]
  refine .read reads_startPos fun start => .expect (by decide) ?_
  refine .go moves_qualifiedName.weak fun name hname => .accept (by decide) ?_ ?_
  · refine .go (moves_annotArgs hg) fun args hargs => .expect (by decide) ?_
    refine .look (looks_infoFrom start) fun i hi => .pure (.mk hi ?_)
    simpa [Node.children] using ⟨hname, hargs⟩
  · refine .look (looks_infoFrom start) fun i hi => .pure (.mk hi ?_)
    simpa [Node.children] using hname

theorem moves_bracedItems {α : Type} {p : Parser α} {P : α → Prop}
    (hitem : Moves v n .strict Any 0 r p P) (fuel : Nat) :
    ∀ {k pre} {acc : Array α}, k ≤ n → k < 16 * fuel + r → (∀ a ∈ acc, P a) →
      Moves v k .strict pre 0 r (bracedItems p acc fuel) fun as => ∀ a ∈ as, P a := by
  induction fuel with
  | zero =>
    intro k pre acc _ hk _
    exact moves_exhausted (by omega)
  | succ fuel ih =>
    intro k pre acc hkn hk hacc
    unfold bracedItems
    refine .read (reads_check _) fun _ => .ite (fun _ => .pure (by simpa using hacc)) fun _ => ?_
    refine .go (hitem.lower hkn).weak fun a ha => ?_
    have hmore := forall_mem_push hacc ha
    refine .acceptRound (by decide) (fun j hj => ?_) (.pure (by simpa using hmore))
    exact ih (by omega) (by omega) hmore

theorem moves_elementValueRule (hg : Serves n g) : Moves v n .strict pre 1 5
    (elementValueRule g) fun x => (Node.expr x).Unmarked := by
  unfold elementValueRule
  refine .here fun t _ => .check (.ite (fun _ => ?_) fun _ =>
    .check (.ite (fun hk => ?_) fun _ => ?_))
  · refine .take (hg.annot (by decide)) fun a ha => .pure (.mk ha.flags ?_)
    simpa [Node.children, Node.ofExpr] using (Node.unmarked_iff.1 ha).2
  · rw [beq_iff_eq] at hk
    refine .read reads_startPos fun start => .advance (by rw [hk]; decide) ?_
    refine .loop (fun fuel k hk hfuel =>
      moves_bracedItems (hg.elementValue (by decide)).weak fuel hk
      hfuel (by simp)) fun xs hxs => .expect (by decide) ?_
    refine .look (looks_infoFrom start) fun i hi => .pure (.mk hi ?_)
    simpa [Node.children, Node.ofExpr] using hxs
  · exact .untracked (hg.conditional rfl (by decide))

/-! ## Types -/

theorem primitiveOf?_ne_eof {k : Token.Kind} {b : BasicType} (h : primitiveOf? k = some b) :
    k ≠ .eof := by
  rintro rfl
  cases h

theorem tells_emptyBrackets : Tells v emptyBrackets fun t => t.kind = .lbracket := tells_checkBoth

theorem moves_skipBrackets {m : Mode} (ht : t.kind ≠ .eof) :
    Moves v n m (· = t) 1 r skipBrackets fun _ => True :=
  .advance ht (.go moves_advance_any fun _ _ => .pure trivial)

theorem moves_dimCount {m : Mode} : Moves v n m pre 0 r dimCount fun _ => True := by
  unfold dimCount
  exact .go (moves_manyWhile tells_emptyBrackets (.here fun t ht => moves_skipBrackets
    (by rw [ht]; decide))) fun _ _ => .pure trivial

/-- What is looked for behind an annotation that may belong to a dimension. -/
def dimensionAhead (g : Grammar) : Parser Unit := do
  let _ ← annotsHere g
  expect_ .lbracket
  expect_ .rbracket

theorem probes_dimensionAhead (hg : Serves n g) (hr : 1 ≤ r) :
    Probes v n pre r (lookahead (dimensionAhead g)) :=
  probes_lookahead (m := .strict) (.go (moves_annotsHere hg hr) fun _ _ =>
    .expect (by decide) (moves_expect_ (by decide)).weak)

/-- A pair of brackets begins a round. -/
theorem Moves.dimension {α : Type} {f : Bool → Parser α} {Q : α → Prop} (hg : Serves n g)
    (hr : 1 ≤ r) (yes : ∀ k, k + 16 ≤ n → Moves v k .strict Any 0 r (f true) Q)
    (no : Moves v n .strict Any 0 r (f false) Q) :
    Moves v n .strict pre 0 r (dimension g >>= f) Q := by
  have hpair : ∀ {pre : Token → Prop}, Moves v n .strict pre 0 r
      (emptyBrackets >>= fun b =>
        (if b = true then do skipBrackets; return true else return false) >>= f) Q := by
    refine .test tells_emptyBrackets (.here fun t ht => ?_) no.weak
    simp only [if_true, bind_assoc, pure_bind]
    exact .round (moves_skipBrackets (by rw [ht]; decide)) fun k _ hk _ => yes k hk
  unfold Parse.dimension
  simp only [bind_assoc]
  refine .read (reads_check _) fun b => ?_
  cases b with
  | true =>
    simp only [if_true, bind_assoc]
    refine .look (probes_dimensionAhead hg hr).looks fun follows _ => ?_
    cases follows with
    | false => exact no.weak
    | true =>
      simp only [Bool.not_true, Bool.false_eq_true, if_false, bind_assoc]
      exact .go (moves_annotsHere hg hr) fun _ _ => hpair
  | false => exact hpair

theorem moves_dimensionsOf (hg : Serves n g) (hr : 1 ≤ r) (fuel : Nat) :
    ∀ {k pre} {t : TypeNode}, k ≤ n → k < 16 * fuel + r → (Node.type t).Unmarked →
      Moves v k .strict pre 0 r (dimensionsOf g t fuel) fun t => (Node.type t).Unmarked := by
  induction fuel with
  | zero =>
    intro k pre t _ hk _
    exact moves_exhausted (by omega)
  | succ fuel ih =>
    intro k pre t hkn hk ht
    unfold dimensionsOf
    refine .dimension (hg.lower hkn) hr (fun j hj => ?_) (.pure ht)
    refine .read reads_get fun s => .look (looks_newInfo _) fun i hi => ?_
    refine ih (by omega) (by omega) (.mk hi ?_)
    simpa [Node.children, Node.ofTypeNode] using ht

theorem moves_dimensions (hg : Serves n g) (hr : 1 ≤ r) {t : TypeNode}
    (ht : (Node.type t).Unmarked) :
    Moves v n .strict pre 0 r (dimensions g t) fun t => (Node.type t).Unmarked :=
  .remaining fun fuel _ hk hfuel => moves_dimensionsOf hg hr fuel hk hfuel ht

theorem unmarked_wildcard {i : Info} {b : Option TypeNode} {isLower : Bool} (hi : i.flags = {})
    (hb : ∀ t ∈ b, (Node.type t).Unmarked) : (Node.type (.wildcard i b isLower)).Unmarked :=
  .mk hi (Node.forall_mem_option.2 hb)

theorem moves_typeArg (hg : Serves n g) (hr : 2 ≤ r) :
    Moves v n .strict pre 1 r (typeArg g) fun t => (Node.type t).Unmarked := by
  unfold typeArg
  simp only [pure_bind]
  refine .read reads_startPos fun start => .go (moves_annotsHere hg (by omega)) fun _ _ => ?_
  refine .accept (by decide) ?_ (hg.type hr)
  refine .accept (by decide) ?_ ?_
  · refine .go (hg.type (by decide)).weak fun t ht => ?_
    exact .look (looks_infoFrom start) fun i hi => .pure (unmarked_wildcard hi (by simpa using ht))
  refine .accept (by decide) ?_ ?_
  · refine .go (hg.type (by decide)).weak fun t ht => ?_
    exact .look (looks_infoFrom start) fun i hi => .pure (unmarked_wildcard hi (by simpa using ht))
  · exact .look (looks_infoFrom start) fun i hi => .pure (unmarked_wildcard hi (by simp))

theorem moves_typeArgs (hg : Serves n g) (allowDiamond : Bool) :
    Moves v n .strict pre 1 r (typeArgs g allowDiamond)
      fun x => ∀ t ∈ x.1, (Node.type t).Unmarked := by
  unfold typeArgs
  refine .expect (by decide) (.read (reads_check _) fun _ => .ite (fun _ => ?_) fun _ => ?_)
  · exact .go moves_advance_any fun _ _ => .pure (by simp)
  · have harg : ∀ {pre : Token → Prop}, Moves v n .strict pre 1 16 (typeArg g)
        fun t => (Node.type t).Unmarked := moves_typeArg hg (by decide)
    refine .go (moves_commaSeparated harg harg.weak).weak fun args hargs => ?_
    exact .go moves_expectGreater fun _ _ => .pure hargs

theorem unmarked_cls {i : Info} {annots : List Annot} {q : Option TypeNode} {name : Ident}
    {args : List TypeNode} {diamond : Bool} (hi : i.flags = {})
    (hannots : ∀ a ∈ annots, (Node.annot a).Unmarked) (hq : ∀ t ∈ q, (Node.type t).Unmarked)
    (hname : (Node.ident name).Unmarked) (hargs : ∀ t ∈ args, (Node.type t).Unmarked) :
    (Node.type (.cls i annots q name args diamond)).Unmarked := by
  refine .mk hi ?_
  simp only [Node.children, Node.ofTypeNode, List.forall_mem_append, List.forall_mem_map,
    Node.forall_mem_option, List.forall_mem_singleton]
  exact ⟨⟨⟨hannots, hq⟩, hname⟩, hargs⟩

theorem moves_classTypeFrom {allowDiamond : Bool} {start : Position} (hg : Serves n g)
    (hr : 1 ≤ r) (fuel : Nat) :
    ∀ {k pre} {q : Option TypeNode}, k ≤ n → k < 16 * fuel + r →
      (∀ t ∈ q, (Node.type t).Unmarked) →
      Moves v k .strict pre 1 r (classTypeFrom g allowDiamond start q fuel)
        fun t => (Node.type t).Unmarked := by
  induction fuel with
  | zero =>
    intro k pre q _ hk _
    exact moves_exhausted (by omega)
  | succ fuel ih =>
    intro k pre q hkn hk hq
    unfold classTypeFrom
    simp only [pure_bind]
    refine .go (moves_annotsHere (hg.lower hkn) hr) fun annots hannots => ?_
    refine .round moves_ident fun j name hj hname => .read (reads_check _) fun _ => ?_
    have hend : ∀ {pre : Token → Prop} i, i.flags = {} → ∀ args diamond,
        (∀ t ∈ args, (Node.type t).Unmarked) → Moves v j .strict pre 0 r
        (do if (← check .dot) && ((← checkAt 1 .identifier) || (← checkAt 1 .at)) then
              let _ ← advance
              classTypeFrom g allowDiamond start (some (.cls i annots q name args diamond)) fuel
            else return .cls i annots q name args diamond)
        fun t => (Node.type t).Unmarked := by
      intro pre i hi args diamond hargs
      have ht : (Node.type (.cls i annots q name args diamond)).Unmarked :=
        unmarked_cls hi hannots hq hname hargs
      refine .read (reads_check _) fun _ => .read (reads_checkAt _ _) fun _ => ?_
      refine .read (reads_checkAt _ _) fun _ => .ite (fun _ => ?_) fun _ => .pure ht
      refine .go moves_advance_any fun _ _ => ?_
      exact (ih (by omega) (by omega) (by simpa using ht)).weak
    refine .ite (fun _ => ?_) fun _ => ?_
    · refine .go (moves_typeArgs (hg.lower (by omega)) allowDiamond).weak fun x hx => ?_
      exact .look (looks_infoFrom start) fun i hi => hend i hi x.1 x.2 hx
    · exact .look (looks_infoFrom start) fun i hi => hend i hi [] false (by simp)

theorem moves_classType (hg : Serves n g) (hr : 1 ≤ r) (allowDiamond : Bool) :
    Moves v n .strict pre 1 r (classType g allowDiamond) fun t => (Node.type t).Unmarked := by
  unfold classType
  refine .read reads_startPos fun start => .remaining fun fuel k hk hfuel => ?_
  exact moves_classTypeFrom hg hr fuel hk hfuel (by simp)

theorem unmarked_withAnnots {annots : List Annot} {t : TypeNode}
    (hannots : ∀ a ∈ annots, (Node.annot a).Unmarked) (ht : (Node.type t).Unmarked) :
    (Node.type (withAnnots annots t)).Unmarked := by
  cases t with
  | cls i own q name args diamond =>
    obtain ⟨hi, hparts⟩ := Node.unmarked_iff.1 ht
    simp only [Node.children, Node.ofTypeNode, List.forall_mem_append, List.forall_mem_map,
      Node.forall_mem_option, List.forall_mem_singleton] at hparts
    obtain ⟨⟨⟨hown, hq⟩, hname⟩, hargs⟩ := hparts
    exact unmarked_cls hi (List.forall_mem_append.2 ⟨hannots, hown⟩) hq hname hargs
  | _ => exact ht

theorem unmarked_primitive {i : Info} {b : BasicType} (hi : i.flags = {}) :
    (Node.type (.primitive i b)).Unmarked :=
  .mk hi (by simp [Node.children, Node.ofTypeNode])

theorem moves_typeRule (hg : Serves n g) : Moves v n .strict pre 1 1 (typeRule g)
    fun t => (Node.type t).Unmarked := by
  unfold typeRule
  simp only [pure_bind]
  refine .go (moves_annotsHere hg (by decide)) fun annots hannots => .here fun t _ => .peek ?_
  cases hprimitive : primitiveOf? t.kind with
  | some b =>
    refine .advance (primitiveOf?_ne_eof hprimitive) ?_
    refine .look (looks_newInfo _) fun i hi => ?_
    exact moves_dimensions hg (by decide) (unmarked_primitive hi)
  | none =>
    refine .take (moves_classType hg (by decide) false) fun t ht => ?_
    exact moves_dimensions hg (by decide) (unmarked_withAnnots hannots ht)

theorem moves_resultType (hg : Serves n g) (hr : 2 ≤ r) : Moves v n .strict pre 1 r
    (resultType g) fun t => (Node.type t).Unmarked := by
  unfold resultType
  refine .here fun t _ => .check (.ite (fun hk => ?_) fun _ => hg.type hr)
  rw [beq_iff_eq] at hk
  refine .advance (by rw [hk]; decide) (.look (looks_newInfo _) fun i hi => ?_)
  exact .pure (unmarked_primitive hi)

theorem looks_localType {t : TypeNode} (ht : (Node.type t).Unmarked) :
    Looks v n pre r (localType t) fun t => (Node.type t).Unmarked := by
  unfold localType
  split
  · refine .bind reads_read.looks fun c _ => .ite (fun _ => ?_) fun _ => .pure ht
    refine .bind (looks_newInfo _) fun i hi => .pure (.mk hi ?_)
    simp [Node.children, Node.ofTypeNode]
  · exact .pure ht

theorem moves_typeList (hg : Serves n g) (hr : 1 ≤ r) :
    Moves v n .strict pre 1 r (typeList g) fun ts => ∀ t ∈ ts, (Node.type t).Unmarked :=
  moves_commaSeparated (moves_classType hg hr false) (moves_classType hg (by decide) false).weak

theorem unmarked_typeParam {i : Info} {annots : List Annot} {name : Ident} {bounds : List TypeNode}
    (hi : i.flags = {}) (hannots : ∀ a ∈ annots, (Node.annot a).Unmarked)
    (hname : (Node.ident name).Unmarked) (hbounds : ∀ t ∈ bounds, (Node.type t).Unmarked) :
    (Node.typeParam ⟨i, annots, name, bounds⟩).Unmarked := by
  refine .mk hi ?_
  simp only [Node.children, List.forall_mem_append, List.forall_mem_map, List.forall_mem_singleton]
  exact ⟨⟨hannots, hname⟩, hbounds⟩

theorem moves_typeParam (hg : Serves n g) (hr : 1 ≤ r) : Moves v n .strict pre 1 r
    (typeParam g) fun p => (Node.typeParam p).Unmarked := by
  unfold typeParam
  simp only [pure_bind]
  refine .read reads_startPos fun start => .go (moves_annotsHere hg hr) fun annots hannots => ?_
  refine .take moves_ident fun name hname => .accept (by decide) ?_ ?_
  · refine .go (hg.type (by decide)).weak fun first hfirst => ?_
    refine .go (moves_moreSeparated (by decide) (hg.type (by decide)).weak) fun more hmore => ?_
    refine .look (looks_infoFrom start) fun i hi => .pure ?_
    exact unmarked_typeParam hi hannots hname (List.forall_mem_cons.2 ⟨hfirst, hmore⟩)
  · refine .look (looks_infoFrom start) fun i hi => .pure ?_
    exact unmarked_typeParam hi hannots hname (by simp)

theorem moves_typeParams (hg : Serves n g) :
    Moves v n .strict pre 1 r (typeParams g) fun ps => ∀ p ∈ ps, (Node.typeParam p).Unmarked := by
  have hparam : ∀ {pre : Token → Prop}, Moves v n .strict pre 1 16 (typeParam g)
      fun p => (Node.typeParam p).Unmarked := moves_typeParam hg (by decide)
  unfold typeParams
  refine .expect (by decide) (.go (moves_commaSeparated hparam hparam.weak).weak fun ps hps => ?_)
  exact .go moves_expectGreater fun _ _ => .pure hps

/-! ## Modifiers and parameters -/

theorem reads_isModifierStart : Reads isModifierStart := by
  unfold isModifierStart
  refine reads_peek.bind fun t => ?_
  split
  case h_13 =>
    exact (reads_checkAt _ _).bind fun _ => (reads_checkAt _ _).bind fun _ => .pure
  case h_14 => exact (reads_checkAt _ _).bind fun _ => .pure
  case h_15 => exact (reads_checkWord _).bind fun _ => (reads_peekAt _).bind fun _ => .pure
  all_goals exact .pure

/-- A modifier starts with a word of its own or an annotation. -/
theorem tells_isModifierStart :
    Tells v isModifierStart fun t => t.kind = .at ∨ isModifierWord t = true := by
  refine .peek reads_isModifierStart fun t => ?_
  split
  case h_14 hk => exact fun _ _ _ _ => .inl hk
  case h_15 =>
    intro c s ht h
    have hword : (s.current.isWord "sealed" &&
        afterSealed.contains (s.token (s.pos + 1)).kind) = true := by injection h
    rw [ht] at hword
    exact .inr (by simp [isModifierWord, (Bool.and_eq_true_iff.1 hword).1])
  case h_16 => exact fun _ _ _ h => by cases h
  all_goals exact fun _ _ _ _ => .inr (by simp [isModifierWord, *])

theorem isModifierWord_not_rest (h : t.kind = .at ∨ isModifierWord t = true) (k : Token.Kind) :
    afterGreater? k ≠ some t.kind := by
  intro hafter
  cases k <;> simp only [afterGreater?, Option.some.injEq, reduceCtorEq] at hafter
  all_goals simp [isModifierWord, Token.isWord, ← hafter] at h

theorem ModifierSet.has_insert {flags : ModifierSet} {m m' : Modifier}
    (h : (flags.insert m).has m' = true) : m' = m ∨ flags.has m' = true := by
  unfold ModifierSet.insert at h
  split at h
  · exact .inr h
  · simpa [ModifierSet.has] using h

/-- A modifier stays given behind a further word or annotation of its list. -/
theorem Setting.Given.later {m : Modifier} {i j : Nat} (h : v.Given m i) (hij : i < j)
    (hi : (v.tokens.getD i default).kind = .at ∨
      (j = i + 1 ∧ isModifierWord (v.tokens.getD i default) = true)) : v.Given m j := by
  obtain ⟨l, hl, hm, hbetween⟩ := h
  refine ⟨l, by omega, hm, fun k hlk hkj => ?_⟩
  rcases Nat.lt_or_ge k i with hk | hk
  · exact hbetween k hlk hk
  · rcases hi with hat | ⟨rfl, hword⟩
    · exact .inr ⟨i, hl, hk, hat⟩
    · obtain rfl : k = i := by omega
      exact .inl hword

theorem Setting.given_here {m : Modifier} {i : Nat}
    (h : Modifier.ofName? (v.tokens.getD i default).literal = some m) : v.Given m (i + 1) :=
  ⟨i, Nat.lt_succ_self i, h, fun k hk hk' => absurd hk (by omega)⟩

-- The modifiers read so far stand in front of the place where the list goes on, so one that is
-- reported was given before. Places are not seen by `Moves`, hence the runs are composed by hand.
theorem ends_modifiersFrom (hg : Serves n g) (hr : 1 ≤ r) (fuel : Nat) :
    ∀ {k c s} {flags : ModifierSet} {annots : List Annot}, k ≤ n → k < 16 * fuel + r →
      (∀ a ∈ annots, (Node.annot a).Unmarked) → v.Suits c → s.Fits v → 16 * s.left + r ≤ k →
      (∀ m, flags.has m = true → v.Given m s.pos) →
      Ends v .strict c s 0 (fun x => ∀ a ∈ x.2, (Node.annot a).Unmarked)
        (modifiersFrom g flags annots fuel c s) := by
  induction fuel with
  | zero =>
    intro k c s flags annots _ hk _ _ _ hbudget
    omega
  | succ fuel ih =>
    intro k c s flags annots hkn hk hannots hv hs hbudget hgiven
    unfold modifiersFrom
    obtain ⟨b, htest⟩ := reads_isModifierStart c s
    rw [bind_ok htest]
    cases b with
    | false => exact ⟨.refl hs, hannots⟩
    | true =>
      have hhere := tells_isModifierStart.holds c s hs htest
      have hcurrent := hs.current_eq (isModifierWord_not_rest hhere)
      have hleft : s.left ≠ 0 := by
        rw [Ne, ← hs.current_eof]
        rintro heof
        rcases hhere with h | h <;> simp [heof, isModifierWord, Token.isWord] at h
      simp only [Bool.not_true, Bool.false_eq_true, if_false]
      rw [bind_ok (p := check .at) (a := s.current.kind == .at) rfl]
      by_cases hat : s.current.kind = .at
      · rw [if_pos (beq_iff_eq.2 hat)]
        have hannot : Moves v n .strict Any 1 r g.annot
          fun a => (Node.annot a).Unmarked := hg.annot hr
        refine (hannot c s hv hs (by omega) trivial).bind fun a s' hlead ha => ?_
        have htaken := hlead.taken
        refine ih (k := k - 16) (by omega) (by omega) ?_ hv hlead.fits (by omega) fun m hm => ?_
        · exact List.forall_mem_append.2 ⟨hannots, List.forall_mem_singleton.2 ha⟩
        · refine (hgiven m hm).later ?_ (.inl (hcurrent ▸ hat))
          simp only [State.left, hs.tokens, hlead.fits.tokens] at htaken
          omega
      · rw [if_neg (mt beq_iff_eq.1 hat)]
        have hword : isModifierWord (v.tokens.getD s.pos default) = true :=
          hcurrent ▸ hhere.resolve_left hat
        obtain ⟨s', hrun, hlead, hpos⟩ := leads_advance (c := c) hs
        have htaken := hlead.taken
        have hnext : s'.pos = s.pos + 1 := by omega
        have hlater : ∀ m, flags.has m = true → v.Given m s'.pos := fun m hm =>
          (hgiven m hm).later (by omega) (.inr ⟨hnext, hword⟩)
        rw [bind_ok hrun]
        refine (hlead.mono (Nat.zero_le _)).ends ?_
        cases hname : Modifier.ofName? s.current.literal with
        | none =>
          exact ih (k := k - 16) (by omega) (by omega) hannots hv hlead.fits (by omega) hlater
        | some m =>
          have hinsert : ∀ m', (flags.insert m).has m' = true → v.Given m' s'.pos := by
            intro m' hm'
            rcases ModifierSet.has_insert hm' with rfl | hm'
            · exact hnext ▸ Setting.given_here (hcurrent ▸ hname)
            · exact hlater m' hm'
          dsimp only
          by_cases hhas : flags.has m = true
          · rw [if_pos hhas]
            have hagain : v.Repeats s.current :=
              ⟨s.pos, hs.pos, hcurrent.symm, m, hname, hgiven m hhas⟩
            obtain ⟨s'', hreport, hstays⟩ := report_run (c := c) hlead.fits s.current
              .syntaxErrorDeleteToken [s.current.literal] fun _ => .again hagain
            have hleft' := hstays.left_eq hlead.fits
            rw [bind_ok hreport]
            refine (hstays.leads hlead.fits).ends ?_
            exact ih (k := k - 16) (by omega) (by omega) hannots hv hstays.fits (by omega)
              (hstays.pos ▸ hinsert)
          · rw [if_neg hhas]
            exact ih (k := k - 16) (by omega) (by omega) hannots hv hlead.fits (by omega) hinsert

theorem moves_modifiersFrom (hg : Serves n g) (hr : 1 ≤ r) (fuel : Nat) {k : Nat}
    (hk : k ≤ n) (hfuel : k < 16 * fuel + r) : Moves v k .strict pre 0 r
      (modifiersFrom g {} [] fuel) fun x => ∀ a ∈ x.2, (Node.annot a).Unmarked :=
  fun _ _ hv hs hbudget _ => ends_modifiersFrom hg hr fuel hk hfuel (by simp) hv hs hbudget
    fun _ hm => absurd hm (by simp [ModifierSet.has])

theorem moves_modifiers (hg : Serves n g) (hr : 1 ≤ r) : Moves v n .strict pre 0 r
    (modifiers g) fun m => (Node.modifiers m).Unmarked := by
  unfold modifiers
  refine .read reads_startPos fun start => ?_
  refine .loop (fun fuel _ hk hfuel => moves_modifiersFrom hg hr fuel hk hfuel) fun x hx => ?_
  refine .look (looks_infoFrom start) fun i hi => .pure (.mk hi ?_)
  simpa [Node.children] using hx

theorem moves_param (hg : Serves n g) (hr : 2 ≤ r) :
    Moves v n .strict pre 1 r (param g) fun p => (Node.param p).Unmarked := by
  unfold param
  refine .read reads_startPos fun start => .go (moves_modifiers hg (by omega)) fun mods hmods => ?_
  refine .take (hg.type hr) fun type htype => .go (moves_annotsHere hg (by decide)) fun _ _ => ?_
  refine .go (moves_accept (by decide)) fun varargs _ => .go moves_ident.weak fun name hname => ?_
  refine .go moves_dimCount fun dims _ => .look (looks_infoFrom start) fun i hi => .pure ?_
  exact Node.unmarked_param.2 ⟨hi, by simpa using hmods, by simpa using htype, hname⟩

end

end Javelin.Parse
