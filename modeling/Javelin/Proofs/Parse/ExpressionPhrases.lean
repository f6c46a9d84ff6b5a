import Javelin.Proofs.Parse.Grouping
import Javelin.Proofs.Parse.Spelling

/-!
# Expressions are read as they are grouped

Where the pieces of a grouped expression are ahead, and behind them nothing that goes on with it
(`Stops`), the rules for expressions take them and give the expression back, up to the information
of its nodes (`covers_grammar`).

The rules loop over selectors, increments and binary operators from the left to the right, whereas
an expression holds its left operand inside. The lemmas about these loops are inductions on the left
operand that leave open what the loop does next.

1. What may follow an expression.
2. Primary expressions and their selectors.
3. Increments, signs and casts.
4. Binary operators.
5. Conditional expressions and assignments.
6. The parse of an expression.
-/

namespace Javelin.Parse

open Javelin.Expr

/-! ## What may follow -/

/-- How tightly a token holds the expression in front of it. -/
def tightness (k : Token.Kind) : Nat :=
  if k ∈ .dot :: .lbracket :: .kwExtends :: operandStarts then 25
  else if k = .increment ∨ k = .decrement then 24
  else if k = .kwInstanceof then 15
  else match Operator.ofBinaryToken? k with
    | some op => 2 * op.precedence + 2
    | none => if k = .question then 2 else if (Operator.ofAssignToken? k).isSome then 1 else 0

/-- The pieces do not go on with an expression that is read at a level. -/
def Stops (level : Nat) : List Piece → Prop
  | [] => True
  | .token x :: _ => tightness x.kind < level
  | .close :: _ => False

namespace Stops

variable {level : Nat} {rest : List Piece}

theorem mono {level' : Nat} (h : Stops level rest) (hle : level ≤ level') : Stops level' rest := by
  match rest, h with
  | [], _ => trivial
  | .token _ :: _, h => exact Nat.lt_of_lt_of_le h hle

theorem ne {k : Token.Kind} (h : Stops level rest) (hpos : 0 < tightness k)
    (hk : level ≤ tightness k) : firstKind rest ≠ k := by
  rintro rfl
  match rest, h with
  | [], _ => exact absurd hpos (by decide)
  | .token x :: _, h => exact absurd (show tightness x.kind < level from h) (by simpa using hk)

theorem kind_eq {t : Token} (h : Stops level rest) (ht : Shows t rest) :
    t.kind = firstKind rest := by
  match rest, h, ht with
  | [], _, ht => exact ht
  | .token x :: _, _, ht => exact congrArg Lexeme.kind ht

theorem tightness_lt (h : Stops level rest) (hlevel : 0 < level) :
    tightness (firstKind rest) < level := by
  match rest, h with
  | [], _ => exact hlevel
  | .token x :: _, h => exact h

theorem not_operandStarts (h : Stops 25 rest) : firstKind rest ∉ operandStarts := by
  have htight : ∀ k ∈ operandStarts, 25 ≤ tightness k := by decide
  intro hmem
  exact absurd (h.tightness_lt (by decide)) (Nat.not_lt.2 (htight _ hmem))

theorem typeFollow (h : Stops 16 rest) : typeFollow rest :=
  ⟨h.ne (by decide) (by decide), h.ne (by decide) (by decide), h.ne (by decide) (by decide),
    h.ne (by decide) (by decide), h.ne (by decide) (by decide)⟩

end Stops

/-- A rule reads the grouped expressions of at least a level; `asked` tells that it asks for lambdas
before the last operand. -/
def TakesExprs (p : Parser Expr) (level : Nat) (asked : Bool) : Prop :=
  ∀ {e : Expr}, e.Grouped → level ≤ e.rank → ∀ {rest : List Piece}, Stops level rest →
    (firstKind rest = .arrow → e.takesArrow asked = false) →
    Takes p (e.pieces ++ rest) rest (·.bare = e.bare)

/-- The rules for expressions read what is grouped. -/
structure Covers (g : Grammar) : Prop where
  types : TakesTypes g
  skims : Skims Anywhere g.type
  expression : TakesExprs g.expression 1 true
  assignment : TakesExprs g.assignment 1 true
  conditional : TakesExprs g.conditional 2 false
  binary {least : Nat} : 1 ≤ least → least ≤ 11 → TakesExprs (g.binary least) (2 * least + 1) false
  unary : TakesExprs g.unary 23 false

section

variable {g : Grammar} {here there rest : List Piece} {β : Type} {Q : β → Prop} {start : Position}

/-! ## Primary expressions -/

/-- What may follow an argument. -/
def argFollow (rest : List Piece) : Prop := Stops 1 rest ∧ firstKind rest ≠ .arrow

theorem lets_argFollow (ps : List Piece) : Lets argFollow .comma (.sign .rparen :: ps) :=
  ⟨⟨show tightness .rparen < 1 by decide, nofun⟩, fun _ =>
    ⟨show tightness .comma < 1 by decide, nofun⟩⟩

theorem one_le_rank (e : Expr) : 1 ≤ e.rank := by
  unfold rank
  split
  all_goals first | omega | (split <;> omega)

theorem takes_arguments (hg : Covers g) {args : List Expr} (h : ∀ a ∈ args, a.Grouped) :
    Takes (arguments g) (inParentheses (args.map pieces) ++ here) here
      fun bs => bs.map bare = args.map bare := by
  have hstarts : ∀ k ∈ starts, k ≠ .rparen := by decide
  refine .parenthesized lets_argFollow (fun a ha rest hrest => ?_) fun a ha => ?_
  · exact hg.expression (h a ha) (one_le_rank a) hrest.1 fun heq => absurd heq hrest.2
  · have hmem := (h a ha).firstKind_mem []
    rw [List.append_nil] at hmem
    exact ⟨(h a ha).pieces_ne_nil, hstarts _ hmem⟩

theorem selector_ends {c : Context} {s : State} {x : Expr} (hdot : s.current.kind ≠ .dot)
    (hbracket : s.current.kind ≠ .lbracket) (hcolons : s.current.kind ≠ .colonColon) :
    selector g start x c s = .ok (.last x) s := by
  unfold selector
  rw [bind_ok (p := peek) (a := s.current) rfl]
  generalize s.current.kind = k at hdot hbracket hcolons
  cases k <;>
    first | rfl | exact absurd rfl hdot | exact absurd rfl hbracket | exact absurd rfl hcolons

theorem takes_noSelectors (hdot : firstKind rest ≠ .dot) (hbracket : firstKind rest ≠ .lbracket)
    (x : Expr) (fuel : Nat) : Takes (selectors g start x fuel) rest rest (· = x) := by
  cases fuel with
  | zero => exact .exhausted
  | succ fuel =>
    unfold selectors
    refine .known (a := Selected.last x) (fun c s hs => ?_) (.pure rfl)
    have hne {k : Token.Kind} (hk : k ∉ closers) (h : firstKind rest ≠ k) : s.current.kind ≠ k :=
      beq_eq_false_iff_ne.1 ((hs.shows.kind_beq hk).trans (beq_eq_false_iff_ne.2 h))
    exact selector_ends (hne (by decide) hdot) (hne (by decide) hbracket) (hs.1 s.pos).2

/-- One selector, and what follows it. -/
theorem takes_selected {mid : List Piece} {u b : Expr} {fuel : Nat} {Q : Expr → Prop}
    (hone : Takes (selector g start u) here mid fun r => ∃ y, r = .more y ∧ y.bare = b)
    (hmore : ∀ y fuel, y.bare = b → Takes (selectors g start y fuel) mid there Q) :
    Takes (selectors g start u fuel) here there Q := by
  cases fuel with
  | zero => exact .exhausted
  | succ fuel =>
    unfold selectors
    refine hone.bind ?_
    rintro _ ⟨y, rfl, hy⟩
    exact hmore y fuel hy

/-- A selector behind a point. -/
theorem takes_dot {u b : Expr} (h : Takes (dotSelector g start u) here rest (·.bare = b)) :
    Takes (selector g start u) (.sign .dot :: here) rest
      fun r => ∃ y, r = .more y ∧ y.bare = b := by
  refine .peek fun t ht => ?_
  have hkind : t.kind = .dot := congrArg Lexeme.kind ht
  rw [hkind]
  exact .bind .advance fun _ _ => h.bind fun y hy => .pure ⟨y, rfl, hy⟩

/-- A name behind a point, with or without arguments. -/
theorem takes_dotField {u x : Expr} {i : Info} {n : Ident} (hu : u.bare = x.bare)
    (hrest : firstKind rest ≠ .lparen) :
    Takes (dotSelector g start u) (.word n.name :: rest) rest (·.bare = (field i x n).bare) := by
  refine .peek fun t ht => ?_
  have hkind : t.kind = .identifier := congrArg Lexeme.kind ht
  rw [hkind]
  refine .bind .ident fun m hm => .check (by decide) ?_
  rw [beq_eq_false_iff_ne.2 hrest, if_neg Bool.false_ne_true]
  exact .bind (.infoFrom start) fun _ _ =>
    .pure (congrArg₂ (fun x n => Expr.field {} x ⟨{}, n⟩) hu hm)

theorem takes_dotCall (hg : Covers g) {u x : Expr} {i : Info} {targs : List TypeNode} {n : Ident}
    {args : List Expr} (hu : u.bare = x.bare) (ht : ∀ t ∈ targs, t.Plain (fun _ => True) true)
    (h : ∀ a ∈ args, a.Grouped) :
    Takes (dotSelector g start u) (TypeNode.argPieces (targs.map TypeNode.pieces) ++
      .word n.name :: (inParentheses (args.map pieces) ++ rest)) rest
      (·.bare = (call i (some x) targs n args).bare) := by
  have hend {ts : List TypeNode} {m : Ident} {bs : List Expr}
      (hts : ts.map TypeNode.bare = targs.map TypeNode.bare) (hm : m.name = n.name)
      (hbs : bs.map bare = args.map bare) : Takes (do
        return Expr.call (← infoFrom start) (some u) ts m bs) rest rest
      (·.bare = (call i (some x) targs n args).bare) := by
    refine .bind (.infoFrom start) fun _ _ => .pure ?_
    show Expr.call {} (some u.bare) (ts.map TypeNode.bare) ⟨{}, m.name⟩ (bareList bs) =
      .call {} (some x.bare) (targs.map TypeNode.bare) ⟨{}, n.name⟩ (bareList args)
    rw [hu, hts, hm, bareList_congr hbs]
  cases targs with
  | nil =>
    refine .peek fun t ht => ?_
    have hkind : t.kind = .identifier := congrArg Lexeme.kind ht
    rw [hkind]
    refine .bind .ident fun m hm => .check (by decide) ?_
    rw [if_pos (by rfl)]
    exact .bind (takes_arguments hg h) fun bs hbs => hend rfl hm hbs
  | cons t ts =>
    refine .peek fun x hx => ?_
    have hkind : x.kind = .less := congrArg Lexeme.kind hx
    rw [hkind]
    refine .bind (takes_typeArgs hg.types (by simp) ht) fun ts hts => .bind .ident fun m hm => ?_
    exact .bind (takes_arguments hg h) fun bs hbs => hend hts.1 hm hbs

theorem takes_index (hg : Covers g) {u x y : Expr} {i : Info} (hu : u.bare = x.bare)
    (hy : y.Grouped) : Takes (selector g start u)
      (.sign .lbracket :: (y.pieces ++ .sign .rbracket :: rest)) rest
      fun r => ∃ z, r = .more z ∧ z.bare = (index i x y).bare := by
  have hstarts : ∀ k ∈ starts, k ≠ .rbracket := by decide
  refine .peek fun t ht => ?_
  have hkind : t.kind = .lbracket := congrArg Lexeme.kind ht
  rw [hkind]
  refine .checkNext (by decide) ?_
  rw [beq_eq_false_iff_ne.2 (hstarts _ (hy.firstKind_mem _)), if_neg Bool.false_ne_true]
  have hindex : Takes g.expression (y.pieces ++ .sign .rbracket :: rest) (.sign .rbracket :: rest)
      (·.bare = y.bare) :=
    hg.expression hy (one_le_rank y) (show tightness .rbracket < 1 by decide) nofun
  refine .bind .advance fun _ _ => .bind hindex fun z hz => ?_
  refine .bind (.expect (by decide) rfl) fun _ _ => .bind (.infoFrom start) fun _ _ => .pure ?_
  exact ⟨_, rfl, congrArg₂ (Expr.index {}) hu hz⟩

/-- What `primary` does behind its tests. -/
def primaryFrom (g : Grammar) (start : Position) : Parser Expr := do
  let x ← primaryHead g start
  selectors g start x (← remaining)

theorem literalKind?_of_fits {k : Literal.Kind} {raw : Text} (h : k.Fits raw) {t : Token}
    (ht : lexeme t = ⟨k.token raw, raw⟩) : literalKind? t = some k := by
  rw [← h]
  unfold literalKind?
  rw [show t.kind = k.token raw from congrArg Lexeme.kind ht,
    show t.literal = raw from congrArg Lexeme.text ht]

theorem literalKind?_eq_none {t : Token} (h : t.kind ∉ primaryStarts.take 8) :
    literalKind? t = none := by
  unfold literalKind?
  generalize t.kind = k at h
  cases k <;> first | rfl | exact absurd (by decide) h

/-- A primary expression and its selectors, and what follows them. -/
theorem takes_primaryFrom (hg : Covers g) {e : Expr} (h : e.Grouped) (hrank : 25 ≤ e.rank) :
    ∀ {rest there : List Piece} {Q : Expr → Prop}, firstKind rest ≠ .lparen →
      (∀ u fuel, u.bare = e.bare → Takes (selectors g start u fuel) rest there Q) →
      Takes (primaryFrom g start) (e.pieces ++ rest) there Q := by
  have hselectors {Q : Expr → Prop} {e u : Expr} {rest there : List Piece} (hu : u.bare = e.bare)
      (hmore : ∀ u fuel, u.bare = e.bare → Takes (selectors g start u fuel) rest there Q) :
      Takes (do selectors g start u (← remaining)) rest there Q :=
    .read (fun _ s => ⟨s.tokens.size - s.pos + 1, rfl⟩) fun fuel => hmore u fuel hu
  have hhead {Q : Expr → Prop} {e : Expr} {rest there : List Piece}
      (hone : Takes (primaryHead g start) (e.pieces ++ rest) rest (·.bare = e.bare))
      (hmore : ∀ u fuel, u.bare = e.bare → Takes (selectors g start u fuel) rest there Q) :
      Takes (primaryFrom g start) (e.pieces ++ rest) there Q :=
    .bind hone fun u hu => hselectors hu hmore
  have hother {t : Token} (hkind : t.kind = .identifier ∨ t.kind = .lparen) :
      literalKind? t = none := by
    refine literalKind?_eq_none ?_
    obtain hkind | hkind := hkind <;> rw [hkind] <;> decide
  induction h with
  | literal hk =>
    intro rest there Q _ hmore
    refine hhead (.peek fun t ht => ?_) hmore
    have ht : lexeme t = _ := ht
    have hraw : t.literal = _ := congrArg Lexeme.text ht
    rw [literalKind?_of_fits hk ht]
    refine .bind .advance fun _ _ => .bind (.newInfo _) fun _ _ => .pure ?_
    rw [hraw]
    rfl
  | @name _ n =>
    intro rest there Q hrest hmore
    refine hhead ?_ hmore
    show Takes (primaryHead g start) (.word n.name :: rest) rest _
    refine .peek fun t ht => ?_
    have hkind : t.kind = .identifier := congrArg Lexeme.kind ht
    rw [hother (.inl hkind), hkind]
    refine .bind .ident fun m hm => .check (by decide) ?_
    rw [beq_eq_false_iff_ne.2 hrest, if_neg Bool.false_ne_true]
    exact .bind (.newInfo _) fun _ _ => .pure (congrArg (fun n => Expr.name {} ⟨{}, n⟩) hm)
  | @paren _ x hx =>
    intro rest there Q _ hmore
    refine hhead ?_ hmore
    rw [paren_append]
    refine .peek fun t ht => ?_
    have hkind : t.kind = .lparen := congrArg Lexeme.kind ht
    rw [hother (.inr hkind), hkind]
    have hinner : Takes g.expression (x.pieces ++ .sign .rparen :: rest) (.sign .rparen :: rest)
        (·.bare = x.bare) :=
      hg.expression hx (one_le_rank x) (show tightness .rparen < 1 by decide) nofun
    refine .bind .advance fun _ _ => .bind hinner fun u hu => ?_
    exact .bind (.expect (by decide) rfl) fun _ _ => .bind (.infoFrom start) fun _ _ =>
      .pure (congrArg (Expr.paren {}) hu)
  | @call _ n args hargs =>
    intro rest there Q _ hmore
    refine hhead ?_ hmore
    rw [pieces_call, List.cons_append]
    refine .peek fun t ht => ?_
    have hkind : t.kind = .identifier := congrArg Lexeme.kind ht
    rw [hother (.inl hkind), hkind]
    refine .bind .ident fun m hm => .check (by decide) ?_
    rw [if_pos (by rfl)]
    refine .bind (takes_arguments hg hargs) fun bs hbs => ?_
    exact .bind (.infoFrom start) fun _ _ =>
      .pure (congrArg₂ (fun n bs => Expr.call {} none [] ⟨{}, n⟩ bs) hm (bareList_congr hbs))
  | @field i x n _ hx ih =>
    intro rest there Q hrest hmore
    rw [pieces, List.append_assoc]
    refine ih hx nofun fun u fuel hu => ?_
    exact takes_selected (takes_dot (takes_dotField hu hrest)) hmore
  | @callOn i x targs n args _ hx ht hargs ih =>
    intro rest there Q hrest hmore
    have hpieces : (call i (some x) targs n args).pieces ++ rest = x.pieces ++ .sign .dot ::
        (TypeNode.argPieces (targs.map TypeNode.pieces) ++
          .word n.name :: (inParentheses (args.map pieces) ++ rest)) := by
      rw [pieces_callOn, List.append_assoc, List.cons_append, List.append_assoc, List.cons_append]
    rw [hpieces]
    refine ih hx nofun fun u fuel hu => ?_
    exact takes_selected (takes_dot (takes_dotCall hg hu ht hargs)) hmore
  | @index i x y _ hx hy ih =>
    intro rest there Q hrest hmore
    have hpieces : (index i x y).pieces ++ rest =
        x.pieces ++ .sign .lbracket :: (y.pieces ++ .sign .rbracket :: rest) := by
      show x.pieces ++ .sign .lbracket :: (y.pieces ++ [.sign .rbracket]) ++ rest = _
      simp
    rw [hpieces]
    refine ih hx nofun fun u fuel hu => ?_
    exact takes_selected (takes_index hg hu hy) hmore
  | @binary _ op =>
    have hle := precedence_le op
    intros
    exact absurd (show 25 ≤ 2 * op.precedence + 2 from hrank) (by omega)
  | _ =>
    intros
    exact absurd hrank (of_decide_eq_true rfl)

/-- The answer of a test that is made only in some cases. -/
theorem Takes.andAlsoNo {b : Bool} {p : Parser Bool} {f : Bool → Parser β}
    (hp : b = true → Takes (p >>= f) here there Q) (h : Takes (f false) here there Q) :
    Takes (andAlso b p >>= f) here there Q := by
  cases b with
  | true => exact hp rfl
  | false => exact h

theorem takes_primary (hg : Covers g) {e : Expr} (h : e.Grouped) (hrank : 25 ≤ e.rank)
    {Q : Expr → Prop} (hrest : firstKind rest ≠ .lparen)
    (hmore : ∀ start u fuel, u.bare = e.bare → Takes (selectors g start u fuel) rest there Q) :
    Takes (primary g) (e.pieces ++ rest) there Q := by
  have hplain : ∀ k ∈ primaryStarts, isTypeKeyword k = false ∧ k ∉ closers := by decide
  have hfirst := h.firstKind_primary (Nat.le_trans (by decide) hrank) rest
  obtain ⟨hkeyword, hclosers⟩ := hplain _ hfirst
  have hrun (start : Position) : Takes (primaryFrom g start) (e.pieces ++ rest) there Q :=
    takes_primaryFrom hg h hrank hrest fun u fuel hu => hmore start u fuel hu
  unfold primary
  refine .read reads_startPos fun start => .peek fun t ht => .read (reads_peekAt 1) fun next => ?_
  rw [← ht.kind_eq hclosers] at hkeyword
  refine .andAlsoNo (fun _ => .isGenericTypeRef hg.skims ?_) ?_
  all_goals
    rw [if_neg (by simp [hkeyword]), if_neg Bool.false_ne_true]
    exact hrun start

/-! ## Increments, signs and casts -/

theorem takes_noPostfix {level : Nat} (hlevel : level ≤ 24) (hrest : Stops level rest)
    (start : Position) (x : Expr) (fuel : Nat) :
    Takes (postfixRest start x fuel) rest rest (· = x) := by
  cases fuel with
  | zero => exact .exhausted
  | succ fuel =>
    refine .acceptNo (by decide) (hrest.ne (by decide) hlevel) ?_
    rw [if_neg Bool.false_ne_true]
    refine .acceptNo (by decide) (hrest.ne (by decide) hlevel) ?_
    rw [if_neg Bool.false_ne_true]
    exact .pure rfl

/-- What the rule for operands does where no sign and no cast is. -/
def postfixFrom (g : Grammar) : Parser Expr := do
  let x ← primary g
  postfixRest x.info.start x (← remaining)

theorem postfix_cases {e : Expr} (h : e.Grouped) (hrank : 24 ≤ e.rank) : 25 ≤ e.rank ∨
    ∃ i op x, e = .unary i op x true ∧ op ∈ Operator.postfixes ∧ x.Grouped ∧ 24 ≤ x.rank := by
  cases h with
  | postfixed hop hx hxrank => exact .inr ⟨_, _, _, rfl, hop, hx, hxrank⟩
  | @binary _ op =>
    have hle := precedence_le op
    exact absurd (show 24 ≤ 2 * op.precedence + 2 from hrank) (by omega)
  | _ => first | exact .inl (Nat.le_refl 25) | exact absurd hrank (of_decide_eq_true rfl)

/-- One increment or decrement, and what follows it. -/
theorem takes_postfixOne {i : Info} {op : Operator} (hop : op ∈ Operator.postfixes) {u x : Expr}
    (hu : u.bare = x.bare) {fuel : Nat} {Q : Expr → Prop}
    (hmore : ∀ start u fuel, u.bare = (unary i op x true).bare →
      Takes (postfixRest start u fuel) rest there Q) :
    Takes (postfixRest start u fuel) (.sign op.token :: rest) there Q := by
  cases fuel with
  | zero => exact .exhausted
  | succ fuel =>
    unfold postfixRest
    obtain rfl | rfl : op = .inc ∨ op = .dec := by simpa [Operator.postfixes] using hop
    · refine .acceptYes (by decide) rfl ?_
      rw [if_pos rfl]
      exact .bind (.infoFrom start) fun _ _ => hmore _ _ _ (congrArg (Expr.unary {} .inc · true) hu)
    · refine .acceptNo (by decide) (show Token.Kind.decrement ≠ .increment by decide) ?_
      rw [if_neg Bool.false_ne_true]
      refine .acceptYes (by decide) rfl ?_
      rw [if_pos rfl]
      exact .bind (.infoFrom start) fun _ _ => hmore _ _ _ (congrArg (Expr.unary {} .dec · true) hu)

/-- An operand with its increments, and what follows them. -/
theorem takes_postfixFrom (hg : Covers g) {e : Expr} (h : e.Grouped) (hrank : 24 ≤ e.rank)
    {rest : List Piece} {Q : Expr → Prop}
    (hrest : firstKind rest ∉ ([.lparen, .dot, .lbracket] : List Token.Kind))
    (hmore : ∀ start u fuel, u.bare = e.bare → Takes (postfixRest start u fuel) rest there Q) :
    Takes (postfixFrom g) (e.pieces ++ rest) there Q := by
  obtain hrank | ⟨i, op, x, rfl, hop, hx, hxrank⟩ := postfix_cases h hrank
  · obtain ⟨hparen, hdot, hbracket⟩ : firstKind rest ≠ .lparen ∧ firstKind rest ≠ .dot ∧
        firstKind rest ≠ .lbracket := by simpa using hrest
    have hprimary : Takes (primary g) (e.pieces ++ rest) rest (·.bare = e.bare) :=
      takes_primary hg h hrank hparen fun start u fuel hu =>
        (takes_noSelectors hdot hbracket u fuel).mono fun _ hv => hv ▸ hu
    exact hprimary.bind fun u hu =>
      .read (fun _ s => ⟨s.tokens.size - s.pos + 1, rfl⟩) fun fuel => hmore _ u fuel hu
  · have hnext : ∀ op ∈ Operator.postfixes,
        op.token ∉ ([.lparen, .dot, .lbracket] : List Token.Kind) := by decide
    have hpieces : (unary i op x true).pieces ++ rest = x.pieces ++ .sign op.token :: rest :=
      List.append_assoc _ _ _
    have hsmaller : sizeOf x < sizeOf (unary i op x true) := by
      rw [unary.sizeOf_spec]
      omega
    rw [hpieces]
    exact takes_postfixFrom hg hx hxrank (hnext op hop) fun start u fuel hu =>
      takes_postfixOne hop hu hmore
termination_by sizeOf e

/-- A parenthesis in front of an operand is not taken for that of a cast. -/
theorem takes_unsigned (hg : Covers g) {e : Expr} (h : e.Grouped) (hrank : 24 ≤ e.rank)
    (hrest : Stops 23 rest) : Takes (unaryRule g) (e.pieces ++ rest) rest (·.bare = e.bare) := by
  have hplain : ∀ k ∈ primaryStarts, unaryOf? k = none ∧ k ∉ closers := by decide
  obtain ⟨hsign, hclosers⟩ := hplain _ (h.firstKind_primary hrank rest)
  have hrest' : Stops 25 rest := hrest.mono (by decide)
  have hrun : Takes (postfixFrom g) (e.pieces ++ rest) rest (·.bare = e.bare) := by
    refine takes_postfixFrom hg h hrank ?_ fun start u fuel hu =>
      (takes_noPostfix (by decide) hrest start u fuel).mono fun _ hv => hv ▸ hu
    have hne {k : Token.Kind} (hk : 25 ≤ tightness k) : firstKind rest ≠ k :=
      hrest'.ne (Nat.lt_of_lt_of_le (by decide) hk) hk
    simpa using ⟨hne (k := .lparen) (by decide), hne (k := .dot) (by decide),
      hne (k := .lbracket) (by decide)⟩
  refine .read reads_startPos fun start => .peek fun t ht => ?_
  rw [ht.kind_eq hclosers, hsign]
  refine .andAlsoNo (fun hopen => ?_) ?_
  · have hopen : firstKind (e.pieces ++ rest) = .lparen := beq_iff_eq.1 hopen
    obtain ⟨ps, hps, hprimitive, hclosing⟩ :=
      h.exists_paren hrank hopen hrest'.not_operandStarts
    rw [hps] at hrun ⊢
    refine .isCastNo hg.skims hprimitive hclosing ?_
    rw [if_neg Bool.false_ne_true]
    exact hrun
  · rw [if_neg Bool.false_ne_true]
    exact hrun

theorem takes_prefixed (hg : Covers g) {i : Info} {op : Operator} {x : Expr}
    (hop : op ∈ Operator.prefixes) (hx : x.Grouped) (hrank : 23 ≤ x.rank) (hrest : Stops 23 rest)
    (harrow : firstKind rest = .arrow → x.takesArrow false = false) :
    Takes (unaryRule g) (.sign op.token :: (x.pieces ++ rest)) rest
      (·.bare = (unary i op x false).bare) := by
  refine .read reads_startPos fun start => .peek fun t ht => ?_
  have hkind : t.kind = op.token := congrArg Lexeme.kind ht
  rw [hkind, Operator.unaryOf?_token op hop]
  refine .bind .advance fun _ _ => .bind (hg.unary hx hrank hrest harrow) fun u hu => ?_
  exact .bind (.infoFrom start) fun _ _ => .pure (congrArg (Expr.unary {} op · false) hu)

/-- Between the parentheses of a cast the types are read that it was made of. -/
theorem takes_castTypes (hg : Covers g) {t : TypeNode} (h : t.Castable) {α : Type}
    {k : TypeNode → Parser α} {P : α → Prop}
    (hk : ∀ u, u.bare = t.bare → Takes (k u) (.sign .rparen :: rest) there P) :
    Takes (do
      let first ← g.type
      let type ← if ← check .amp then
          let more ← moreSeparated .amp g.type
          pure (TypeNode.intersection (← infoFrom first.info.start) (first :: more))
        else pure first
      k type) (boundsPieces (castTypes t) ++ .sign .rparen :: rest) there P := by
  cases h with
  | plain h =>
    have htypes : castTypes t = [t] := by cases h <;> rfl
    rw [htypes, boundsPieces, List.map_singleton, separated, eachBehind_nil, List.append_nil]
    refine .bind (hg.types h typeFollow_rparen) fun u hu => .check (by decide) ?_
    rw [firstKind_cons, if_neg (by decide)]
    exact hk u hu
  | @several i t v ts h =>
    obtain ⟨ht, hvs⟩ := List.forall_mem_cons.1 h
    have hlets := lets_bounds rest
    show Takes _ (separated .amp (t.pieces :: (v :: ts).map TypeNode.pieces) ++ _) _ _
    rw [separated, List.append_assoc]
    refine .bind (hg.types ht.2 (hlets.between _)) fun u hu => .check (by decide) ?_
    rw [List.map_cons, eachBehind_cons, List.cons_append, firstKind_cons, if_pos (by rfl)]
    refine .bind (.moreSeparated (by decide) (by simp) hlets (v :: ts) fun w hw rest hrest =>
      hg.types (hvs w hw).2 hrest) fun us hus => ?_
    refine .bind (.infoFrom _) fun _ _ => hk _ ?_
    rw [TypeNode.bare, TypeNode.bare, TypeNode.bareList_eq_map, TypeNode.bareList_eq_map,
      List.map_cons, List.map_cons, hu, hus]

/-- The parenthesis in front of a cast opens it. -/
theorem takes_isCast (hg : Covers g) {t : TypeNode} {x : Expr} (ht : t.Castable) (hx : x.Grouped)
    (hrank : 23 ≤ x.rank) (hsigned : (isPrimitive t || !x.isSigned) = true) {f : Bool → Parser β}
    (h : Takes (f true) (.sign .lparen :: (boundsPieces (castTypes t) ++
      .sign .rparen :: (x.pieces ++ rest))) there Q) :
    Takes (isCast g >>= f) (.sign .lparen :: (boundsPieces (castTypes t) ++
      .sign .rparen :: (x.pieces ++ rest))) there Q := by
  have hoperand (hreference : isPrimitive t = false) :
      firstKind (x.pieces ++ rest) ∈ operandStarts := by
    rw [hreference, Bool.false_or, Bool.not_eq_true'] at hsigned
    exact hx.firstKind_operand hrank hsigned rest
  cases ht with
  | @plain t ht =>
    have htypes : castTypes t = [t] := by cases ht <;> rfl
    have hpieces (ps : List Piece) : boundsPieces (castTypes t) ++ ps = t.pieces ++ ps := by
      rw [htypes, boundsPieces, List.map_singleton, separated, eachBehind_nil, List.append_nil]
    rw [hpieces] at h ⊢
    obtain hname | hprimitive := startsType_pieces ht (.sign .rparen :: (x.pieces ++ rest))
    · have hreference : isPrimitive t = false := by
        cases ht with
        | primitive hk =>
          obtain ⟨k, hk⟩ := Option.isSome_iff_exists.1 hk
          rw [TypeNode.pieces, hk] at hname
          have hname : k = .identifier := hname
          have hprimitive := primitiveOf?_keyword hk
          rw [hname] at hprimitive
          cases hprimitive
        | _ => rfl
      rw [← hpieces, htypes] at h hname ⊢
      exact .isCastReference hg.types ht (by simp) hname (hoperand hreference) h
    · exact .isCastPrimitive hg.types ht hprimitive h
  | several ht =>
    obtain ⟨ht, hts⟩ := List.forall_mem_cons.1 ht
    refine .isCastReference hg.types ht.2 (fun u hu => (hts u hu).2) ?_ (hoperand rfl) h
    rw [boundsPieces, List.map_cons, separated, List.append_assoc]
    exact firstKind_class ht.2 ht.1 _

theorem takes_cast (hg : Covers g) {i : Info} {t : TypeNode} {x : Expr} (ht : t.Castable)
    (hx : x.Grouped) (hrank : 23 ≤ x.rank) (hrest : Stops 23 rest)
    (harrow : firstKind rest = .arrow → x.takesArrow true = false) :
    Takes (Parse.cast g start) (.sign .lparen :: (boundsPieces (castTypes t) ++
      .sign .rparen :: (x.pieces ++ rest))) rest (·.bare = (Expr.cast i t x).bare) := by
  refine .bind (.expect (by decide) rfl) fun _ _ => takes_castTypes hg ht fun u hu => ?_
  refine .bind (.expect (by decide) rfl) fun _ _ => .isLambdaStart ?_
  rw [hx.opensLambda_eq_false harrow, if_neg Bool.false_ne_true]
  refine .bind (hg.unary hx hrank hrest fun heq => takesArrow_mono (harrow heq)) fun y hy => ?_
  exact .bind (.infoFrom start) fun _ _ => .pure (congrArg₂ (Expr.cast {}) hu hy)

theorem takes_unaryRule (hg : Covers g) : TakesExprs (unaryRule g) 23 false := by
  intro e h hrank rest hrest harrow
  by_cases hrank' : 24 ≤ e.rank
  · exact takes_unsigned hg h hrank' hrest
  · cases h with
    | prefixed hop hx hxrank => exact takes_prefixed hg hop hx hxrank hrest harrow
    | @cast _ t x ht hx hxrank hsigned =>
      rw [cast_append]
      refine .read reads_startPos fun start => .peek fun y hy => ?_
      have hkind : y.kind = .lparen := congrArg Lexeme.kind hy
      rw [hkind]
      refine takes_isCast hg ht hx hxrank hsigned ?_
      rw [if_pos rfl]
      exact takes_cast hg ht hx hxrank hrest harrow
    | @binary _ op =>
      have hle := precedence_le op
      exact absurd (show 23 ≤ 2 * op.precedence + 2 from hrank) (by omega)
    | _ => first
      | exact absurd (of_decide_eq_true rfl) hrank'
      | exact absurd hrank (of_decide_eq_true rfl)

/-! ## Binary operators -/

/-- What the rule for binary expressions does. -/
def binaryFrom (g : Grammar) (least : Nat) (start : Position) : Parser Expr := do
  let x ← g.unary
  binaryRest g least start x (← remaining)

theorem binary_cases {e : Expr} (h : e.Grouped) (hrank : 3 ≤ e.rank) : 23 ≤ e.rank ∨
    (∃ i op x y, e = .binary i op x y ∧ 0 < op.precedence ∧ x.Grouped ∧
      2 * op.precedence + 2 ≤ x.rank ∧ y.Grouped ∧ 2 * op.precedence + 3 ≤ y.rank) ∨
    ∃ i x t, e = .instanceOf i x t none ∧ x.Grouped ∧ 15 ≤ x.rank ∧
      t.Plain (fun _ => True) false := by
  cases h with
  | binary hop hx hxrank hy hyrank =>
    exact .inr (.inl ⟨_, _, _, _, rfl, hop, hx, hxrank, hy, hyrank⟩)
  | instanceOf hx hxrank ht => exact .inr (.inr ⟨_, _, _, rfl, hx, hxrank, ht⟩)
  | _ => first
    | exact .inl (of_decide_eq_true rfl)
    | exact absurd hrank (of_decide_eq_true rfl)

/-- One binary operator with its right operand, and what follows it. -/
theorem takes_binaryOne (hg : Covers g) {least fuel : Nat} {i : Info} {op : Operator} {u x y : Expr}
    (hop : 0 < op.precedence) (hleast : least ≤ op.precedence) (hu : u.bare = x.bare)
    (hy : y.Grouped) (hyrank : 2 * op.precedence + 3 ≤ y.rank)
    (hrest : Stops (2 * op.precedence + 3) rest)
    (harrow : firstKind rest = .arrow → y.takesArrow false = false) {Q : Expr → Prop}
    (hmore : ∀ v fuel, v.bare = (Expr.binary i op x y).bare →
      Takes (binaryRest g least start v fuel) rest there Q) :
    Takes (binaryRest g least start u fuel) (.sign op.token :: (y.pieces ++ rest)) there Q := by
  have hle := precedence_le op
  cases fuel with
  | zero => exact .exhausted
  | succ fuel =>
    unfold binaryRest
    have hinstance : (op.token == .kwInstanceof) = false := by
      refine beq_eq_false_iff_ne.2 fun heq => ?_
      have hsome := Operator.ofBinaryToken?_token hop
      rw [heq] at hsome
      cases hsome
    refine .check (by decide) ?_
    rw [firstKind_cons, Piece.kind_sign, hinstance, if_neg Bool.false_ne_true]
    refine .peek fun t ht => ?_
    have hkind : t.kind = op.token := congrArg Lexeme.kind ht
    rw [hkind, Operator.ofBinaryToken?_token hop]
    dsimp only
    rw [if_neg (by omega)]
    refine .bind .advance fun _ _ => ?_
    refine .bind (hg.binary (by omega) (by omega) hy (by omega) (hrest.mono (by omega)) harrow) fun v hv => ?_
    exact .bind (.infoFrom start) fun _ _ => hmore _ _ (congrArg₂ (Expr.binary {} op) hu hv)

/-- One test for a type, and what follows it. -/
theorem takes_instanceOfOne (hg : Covers g) {least fuel : Nat} {i : Info} {t : TypeNode}
    {u x : Expr} (hleast : least ≤ 7) (hu : u.bare = x.bare) (ht : t.Plain (fun _ => True) false)
    (hrest : Stops 16 rest) {Q : Expr → Prop}
    (hmore : ∀ v fuel, v.bare = (Expr.instanceOf i x t none).bare →
      Takes (binaryRest g least start v fuel) rest there Q) :
    Takes (binaryRest g least start u fuel) (.sign .kwInstanceof :: (t.pieces ++ rest)) there Q := by
  have hrest' : Stops 25 rest := hrest.mono (by decide)
  have hfinal : firstKind (t.pieces ++ rest) ≠ .kwFinal := by
    obtain hstart | hstart := startsType_pieces ht rest
    · rw [hstart]
      decide
    · intro heq
      rw [heq] at hstart
      cases hstart
  have htest : Takes (instanceOfRest g start u) (t.pieces ++ rest) rest
      (·.bare = (Expr.instanceOf i x t none).bare) := by
    refine .check (by decide) (.checkAt ?_)
    rw [beq_eq_false_iff_ne.2 hfinal, if_neg (by decide)]
    refine .bind (hg.types ht hrest.typeFollow) fun v hv => .check (by decide) ?_
    rw [beq_eq_false_iff_ne.2 (hrest'.ne (by decide) (by decide)), if_neg Bool.false_ne_true]
    refine .check (by decide) (.read (reads_checkWord _) fun _ => ?_)
    rw [beq_eq_false_iff_ne.2 (hrest'.ne (by decide) (by decide)), Bool.false_and,
      if_neg Bool.false_ne_true]
    refine .bind (P := (· = none)) (.pure rfl) fun p hp => ?_
    rw [hp]
    exact .bind (.infoFrom start) fun _ _ =>
      .pure (congrArg₂ (Expr.instanceOf {} · · none) hu hv)
  cases fuel with
  | zero => exact .exhausted
  | succ fuel =>
    unfold binaryRest
    refine .check (by decide) ?_
    rw [if_pos (by rfl), if_neg (by unfold instanceOfPrecedence; omega)]
    exact .bind .advance fun _ _ => htest.bind fun v hv => hmore v fuel hv

theorem tightness_binary {op : Operator} (h : 0 < op.precedence) :
    tightness op.token = 2 * op.precedence + 2 := by
  cases op <;> first | decide | exact absurd h (by decide)

/-- A binary expression, and what follows it. -/
theorem takes_binaryFrom (hg : Covers g) {least : Nat} (hpos : 1 ≤ least) {e : Expr}
    (h : e.Grouped) (hrank : 2 * least + 1 ≤ e.rank) {rest : List Piece}
    (hrest : Stops (min (e.rank + 1) 23) rest)
    (harrow : firstKind rest = .arrow → e.takesArrow false = false) {Q : Expr → Prop}
    (hmore : ∀ u fuel, u.bare = e.bare → Takes (binaryRest g least start u fuel) rest there Q) :
    Takes (binaryFrom g least start) (e.pieces ++ rest) there Q := by
  obtain hrank' | ⟨i, op, x, y, rfl, hop, hx, hxrank, hy, hyrank⟩ | ⟨i, x, t, rfl, hx, hxrank, ht⟩ :=
    binary_cases h (by omega)
  · refine .bind (hg.unary h hrank' (hrest.mono (by omega)) harrow) fun u hu => ?_
    exact .read (fun _ s => ⟨s.tokens.size - s.pos + 1, rfl⟩) fun fuel => hmore u fuel hu
  · have hle := precedence_le op
    have hrank : 2 * least + 1 ≤ 2 * op.precedence + 2 := hrank
    have hrest : Stops (min (2 * op.precedence + 2 + 1) 23) rest := hrest
    have hnext : Stops (min (x.rank + 1) 23) (.sign op.token :: (y.pieces ++ rest)) := by
      show tightness op.token < _
      rw [tightness_binary hop]
      omega
    have hpieces : (Expr.binary i op x y).pieces ++ rest =
        x.pieces ++ .sign op.token :: (y.pieces ++ rest) := List.append_assoc _ _ _
    rw [hpieces]
    refine takes_binaryFrom hg hpos hx (by omega) hnext (fun heq => ?_) fun u fuel hu =>
      takes_binaryOne hg hop (by omega) hu hy hyrank (hrest.mono (by omega)) harrow hmore
    have hsome := Operator.ofBinaryToken?_token hop
    rw [show op.token = .arrow from heq] at hsome
    cases hsome
  · have hrank : 2 * least + 1 ≤ 15 := hrank
    have hrest : Stops (min (15 + 1) 23) rest := hrest
    have hnext : Stops (min (x.rank + 1) 23) (.sign .kwInstanceof :: (t.pieces ++ rest)) := by
      show 15 < _
      omega
    have hpieces : (Expr.instanceOf i x t none).pieces ++ rest =
        x.pieces ++ .sign .kwInstanceof :: (t.pieces ++ rest) := List.append_assoc _ _ _
    rw [hpieces]
    exact takes_binaryFrom hg hpos hx (by omega) hnext nofun fun u fuel hu =>
      takes_instanceOfOne hg (by omega) hu ht hrest hmore
termination_by sizeOf e
decreasing_by all_goals subst_vars; simp_wf; omega

theorem le_tightness {k : Token.Kind} {op : Operator} (h : Operator.ofBinaryToken? k = some op) :
    2 * op.precedence + 2 ≤ tightness k := by
  cases k <;> cases h <;> decide

theorem takes_noBinary {least : Nat} (hrest : Stops (2 * least + 1) rest) (x : Expr) (fuel : Nat) :
    Takes (binaryRest g least start x fuel) rest rest (· = x) := by
  cases fuel with
  | zero => exact .exhausted
  | succ fuel =>
    unfold binaryRest
    refine .check (by decide) ?_
    by_cases hinstance : firstKind rest = .kwInstanceof
    · have htight := hrest.tightness_lt (by omega)
      rw [hinstance] at htight
      have hleast : 15 < 2 * least + 1 := htight
      rw [if_pos (beq_iff_eq.2 hinstance), if_pos (by unfold instanceOfPrecedence; omega)]
      exact .pure rfl
    · rw [if_neg (by simpa using hinstance)]
      refine .peek fun t ht => ?_
      rw [hrest.kind_eq ht]
      cases hop : Operator.ofBinaryToken? (firstKind rest) with
      | none => exact .pure rfl
      | some op =>
        have htight := hrest.tightness_lt (by omega)
        have hle := le_tightness hop
        dsimp only
        rw [if_pos (by omega)]
        exact .pure rfl

theorem takes_binaryRule (hg : Covers g) {least : Nat} (hpos : 1 ≤ least) (hle : least ≤ 11) :
    TakesExprs (binaryRule g least) (2 * least + 1) false := by
  intro e h hrank rest hrest harrow
  exact .read reads_startPos fun start => takes_binaryFrom hg hpos h hrank (hrest.mono (by omega))
    harrow fun u fuel hu => (takes_noBinary hrest u fuel).mono fun _ hv => hv ▸ hu

/-! ## Conditional expressions and assignments -/

theorem takes_conditionalRule (hg : Covers g) : TakesExprs (conditionalRule g) 2 false := by
  intro e h hrank rest hrest harrow
  by_cases hrank' : 3 ≤ e.rank
  · -- a condition without branches
    refine .read reads_startPos fun start => ?_
    refine .bind (hg.binary (by decide) (by decide) h hrank' (hrest.mono (by decide)) harrow)
      fun u hu => ?_
    refine .acceptNo (by decide) (hrest.ne (by decide) (by decide)) ?_
    exact .pure hu
  · cases h with
    | @conditional i x y z hx hxrank hy hz hzrank =>
      have hpieces : (Expr.conditional i x y z).pieces ++ rest = x.pieces ++ .sign .question ::
          (y.pieces ++ .sign .colon :: (z.pieces ++ rest)) := by
        show x.pieces ++ .sign .question :: (y.pieces ++ .sign .colon :: z.pieces) ++ rest = _
        simp
      have hcond : Takes (g.binary 1) (x.pieces ++ .sign .question ::
          (y.pieces ++ .sign .colon :: (z.pieces ++ rest))) (.sign .question ::
          (y.pieces ++ .sign .colon :: (z.pieces ++ rest))) (·.bare = x.bare) :=
        hg.binary (by decide) (by decide) hx hxrank (show tightness .question < 3 by decide) nofun
      have hyes : Takes g.expression (y.pieces ++ .sign .colon :: (z.pieces ++ rest))
          (.sign .colon :: (z.pieces ++ rest)) (·.bare = y.bare) :=
        hg.expression hy (one_le_rank y) (show tightness .colon < 1 by decide) nofun
      rw [hpieces]
      refine .read reads_startPos fun start => hcond.bind fun u hu => ?_
      refine .acceptYes (by decide) rfl ?_
      refine hyes.bind fun v hv => .bind (.expect (by decide) rfl) fun _ _ => .isLambdaStart ?_
      rw [hz.opensLambda_eq_false harrow, if_neg Bool.false_ne_true]
      refine .bind (hg.conditional hz hzrank hrest fun heq => takesArrow_mono (harrow heq))
        fun w hw => .bind (.infoFrom start) fun _ _ => .pure ?_
      show Expr.conditional {} u.bare v.bare w.bare = .conditional {} x.bare y.bare z.bare
      rw [hu, hv, hw]
    | @binary _ op hop =>
      exact absurd (show 3 ≤ 2 * op.precedence + 2 by omega) hrank'
    | _ => first
      | exact absurd (of_decide_eq_true rfl) hrank'
      | exact absurd hrank (of_decide_eq_true rfl)

theorem one_le_tightness {k : Token.Kind} {op : Operator}
    (h : Operator.ofAssignToken? k = some op) : 1 ≤ tightness k := by
  cases k <;> cases h <;> decide

theorem takes_assignmentRule (hg : Covers g) : TakesExprs (assignmentRule g) 1 true := by
  intro e h hrank rest hrest harrow
  unfold assignmentRule
  refine .isLambdaStart ?_
  rw [h.opensLambda_eq_false harrow, if_neg Bool.false_ne_true]
  refine .read reads_startPos fun start => ?_
  by_cases hrank' : 2 ≤ e.rank
  · refine .bind (hg.conditional h hrank' (hrest.mono (by decide)) fun heq =>
      takesArrow_mono (harrow heq)) fun u hu => .peek fun t ht => ?_
    rw [hrest.kind_eq ht]
    cases hop : Operator.ofAssignToken? (firstKind rest) with
    | none => exact .pure hu
    | some op =>
      exact absurd (hrest.tightness_lt (by decide)) (Nat.not_lt.2 (one_le_tightness hop))
  · cases h with
    | @assign i op x y hop hx hxrank hy =>
      have hplain : ∀ op ∈ Operator.assignments, tightness op.token < 2 ∧ op.token ≠ .arrow := by
        decide
      obtain ⟨htight, hne⟩ := hplain op hop
      have htarget : Takes g.conditional (x.pieces ++ .sign op.token :: (y.pieces ++ rest))
          (.sign op.token :: (y.pieces ++ rest)) (·.bare = x.bare) :=
        hg.conditional hx hxrank htight fun heq => absurd heq hne
      have hpieces : (Expr.assign i op x y).pieces ++ rest =
          x.pieces ++ .sign op.token :: (y.pieces ++ rest) := List.append_assoc _ _ _
      rw [hpieces]
      refine htarget.bind fun u hu => .peek fun t ht => ?_
      rw [show t.kind = op.token from congrArg Lexeme.kind ht, Operator.ofAssignToken?_token op hop]
      refine .bind .advance fun _ _ => ?_
      refine .bind (hg.assignment hy (one_le_rank y) hrest harrow) fun v hv => ?_
      exact .bind (.infoFrom start) fun _ _ => .pure (congrArg₂ (Expr.assign {} op) hu hv)
    | @binary _ op hop =>
      exact absurd (show 2 ≤ 2 * op.precedence + 2 by omega) hrank'
    | _ => exact absurd (of_decide_eq_true rfl) hrank'

/-! ## The grammar -/

theorem covers_nothing : Covers Grammar.nothing where
  types := fun _ _ _ => .exhausted
  skims := .exhausted
  expression := fun _ _ _ _ _ => .exhausted
  assignment := fun _ _ _ _ _ => .exhausted
  conditional := fun _ _ _ _ _ => .exhausted
  binary := fun _ _ _ _ _ _ _ _ => .exhausted
  unary := fun _ _ _ _ _ => .exhausted

theorem covers_grammar (n : Nat) : Covers (grammar n) := by
  induction n with
  | zero => exact covers_nothing
  | succ n ih =>
    exact
      { types := takesTypes_grammar (n + 1)
        skims := skims_grammar (n + 1)
        expression := fun h hrank _ hrest harrow => (ih.assignment h hrank hrest harrow).untracked
        assignment := takes_assignmentRule ih
        conditional := takes_conditionalRule ih
        binary := takes_binaryRule ih
        unary := takes_unaryRule ih }

end

/-! ## The parse -/

/-- A composed expression is read back from its tokens. Where the tokens of a text are those of the
expression with parentheses for the operands that need them, the parse of the text takes all of them
and reports nothing; it gives the expression back with these parentheses, up to the numbers, spans
and marks of the nodes. -/
theorem expression_reread {source : Text} {o : Options} {e : Expr} {x : Lexeme} (h : e.Composed)
    (htokens : Glued (start source o).toCome (e.parenthesized.pieces ++ [.token x]))
    (hend : x.kind = .eof) : ∃ u s, strictPhrase Grammar.expression source o = .ok u s ∧
      u.bare = e.parenthesized.bare ∧ u.bare.stripped = e.bare ∧
      s.problems = (start source o).problems ∧ s.errorCount = (start source o).errorCount ∧
      s.missingAtEnd = (start source o).missingAtEnd ∧ s.pos + 1 = s.tokens.size := by
  have hgrouped := grouped_parenthesized h
  have hahead := ahead_start htokens hend hgrouped.balanced.tame
  have htakes (n : Nat) : Takes (grammar n).expression e.parenthesized.pieces []
      (·.bare = e.parenthesized.bare) := by
    have hstops : Stops 1 [] := trivial
    have hexpression := (covers_grammar n).expression hgrouped (one_le_rank _) hstops nofun
    rwa [List.append_nil] at hexpression
  obtain ⟨u, s, hrun, hu, hpass, hpos⟩ := strictPhrase_takes Node.expr
    (fun hg _ => (hg.expression (by decide)).weak) hahead htakes
  exact ⟨u, s, hrun, hu, hu ▸ stripped_bare_parenthesized h, hpass.problems, hpass.errorCount,
    hpass.missingAtEnd, hpos⟩

/-- The product of a cast and a sum. Without parentheses the sign behind the cast would be that of a
difference, and the sum would be one of a product. -/
def castTimesSum : Expr :=
  .binary {} .mul
    (.cast {} (.cls {} [] none ⟨{}, "T"⟩ [] false) (.unary {} .neg (.name {} ⟨{}, "x"⟩) false))
    (.binary {} .add (.name {} ⟨{}, "x"⟩) (.name {} ⟨{}, "x"⟩))

theorem composed_castTimesSum : castTimesSum.Composed :=
  .binary (by decide) (.cast (.plain (.simple trivial nofun)) (.prefixed (by decide) .name))
    (.binary (by decide) .name .name)

theorem tokens_castTimesSum : Glued (start "(T)(-x)*(x+x)" {}).toCome
    (castTimesSum.parenthesized.pieces ++ [.token ⟨.eof, {}⟩]) := by
  have hname : ∀ name ∈ (["T", "x"] : List Text),
      Name.identifierFault? name Level.latest = none :=
    Name.identifierFault?_eq_none (by decide)
  have hclose {bs : List UInt8} (h : ∃ b ∈ ([41, 43] : List UInt8), ∃ cs, bs = b :: cs) :
      Token.EndsWord bs := by
    obtain ⟨b, hb, cs, rfl⟩ := h
    have hends : ∀ b ∈ ([41, 43] : List UInt8),
        b ∈ ([32, 40, 41, 43, 44, 46, 60, 62, 91] : List UInt8) := by decide +kernel
    exact Token.endsWord_cons (hends b hb) cs
  have hspelling : Token.Kind.plus.spelling.toList = [43] ∧
      Token.Kind.star.spelling.toList = [42] ∧ Token.Kind.minus.spelling.toList = [45] := by decide
  have hy := (lexes_nil.separator (k := .rparen) (by decide)).identifier
    (hclose ⟨41, by decide, _, rfl⟩) (hname "x" (by simp))
  have hplus := hy.operator (by decide) hspelling.1 (by decide) (by decide) (by decide +kernel)
  have hsum := (hplus.identifier (hclose ⟨43, by decide, _, rfl⟩)
    (hname "x" (by simp))).separator (k := .lparen) (by decide)
  have hstar := hsum.operator (by decide) hspelling.2.1 (by decide) (by decide) (by decide +kernel)
  have hx := (hstar.separator (k := .rparen) (by decide)).identifier (hclose ⟨41, by decide, _, rfl⟩)
    (hname "x" (by simp))
  have hminus := hx.operator (by decide) hspelling.2.2 (by decide) (by decide) (by decide +kernel)
  have hT := ((hminus.separator (k := .lparen) (by decide)).separator (k := .rparen)
    (by decide)).identifier (hclose ⟨41, by decide, _, rfl⟩) (hname "T" (by simp))
  have hlexes := hT.separator (k := .lparen) (by decide)
  obtain ⟨htoCome, -⟩ : (start "(T)(-x)*(x+x)" {}).toCome = _ ∧ _ := start_of_scans (by decide)
    (hlexes "(T)(-x)*(x+x)" 0 (Nat.zero_le _) (by decide))
  rw [htoCome]
  have hpieces : castTimesSum.parenthesized.pieces = [.sign .lparen, .word "T", .sign .rparen,
      .sign .lparen, .sign .minus, .word "x", .sign .rparen, .sign .star, .sign .lparen, .word "x",
      .sign .plus, .word "x", .sign .rparen] := rfl
  rw [hpieces]
  repeat' apply Glued.token
  exact .nil

theorem expression_reread_cast : castTimesSum.Composed ∧
    Glued (start "(T)(-x)*(x+x)" {}).toCome
      (castTimesSum.parenthesized.pieces ++ [.token ⟨.eof, {}⟩]) ∧
    ∃ u s, strictPhrase Grammar.expression "(T)(-x)*(x+x)" {} = .ok u s ∧
      u.bare = castTimesSum.parenthesized.bare ∧ u.bare.stripped = castTimesSum.bare ∧
      s.problems = (start "(T)(-x)*(x+x)" {}).problems ∧
      s.errorCount = (start "(T)(-x)*(x+x)" {}).errorCount ∧
      s.missingAtEnd = (start "(T)(-x)*(x+x)" {}).missingAtEnd ∧ s.pos + 1 = s.tokens.size :=
  ⟨composed_castTimesSum, tokens_castTimesSum,
    expression_reread composed_castTimesSum tokens_castTimesSum rfl⟩

end Javelin.Parse
