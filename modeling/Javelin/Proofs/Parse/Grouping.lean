import Javelin.Proofs.Parse.Lookaheads

/-!
# Operator expressions and their parentheses

A composed expression (`Expr.Composed`) is put together from names, literals, field accesses, calls,
array accesses, operators, casts and assignments, without parentheses. `Expr.parenthesized` puts
parentheses around the operands that need them, and `Expr.pieces` writes the outcome down.

What the parser asks of an expression is `Expr.Grouped`: each operand binds tightly enough for its
place (`Expr.rank`). It depends on the tokens at its two ends what the tests that look ahead say of
it; the last part of this file is about these.

1. Operators and literals as tokens.
2. Composed expressions, and what they are written with.
3. Parentheses.
4. Grouped expressions.
5. The ends of a grouped expression.
-/

namespace Javelin

/-! ## Operators and literals -/

namespace Operator

/-- The token of an operator. -/
def token (op : Operator) : Token.Kind :=
  (Token.operators.find? fun k => k.name == op.text).getD .eof

/-- The operators that may stand in front of an operand. -/
def prefixes : List Operator := [.inc, .dec, .pos, .neg, .not, .bitNot]

/-- The operators that may stand behind an operand. -/
def postfixes : List Operator := [.inc, .dec]

def assignments : List Operator :=
  [.assign, .addAssign, .subAssign, .mulAssign, .divAssign, .remAssign, .andAssign, .orAssign,
    .xorAssign, .shlAssign, .shrAssign, .ushrAssign]

theorem unaryOf?_token : ∀ op ∈ prefixes, Parse.unaryOf? op.token = some op := by decide

theorem ofAssignToken?_token : ∀ op ∈ assignments, ofAssignToken? op.token = some op := by
  decide

theorem ofBinaryToken?_token {op : Operator} (h : 0 < op.precedence) :
    ofBinaryToken? op.token = some op := by
  revert h
  cases op <;> decide

/-- The binary operators as they are written. Those of a line bind tighter than those before it. -/
def ladder : List (List Text) :=
  [["||"], ["&&"], ["|"], ["^"], ["&"], ["==", "!="], ["<", ">", "<=", ">="],
    ["<<", ">>", ">>>"], ["+", "-"], ["*", "/", "%"]]

theorem precedence_ladder (k : Token.Kind) : (ofBinaryToken? k).map precedence =
    (ladder.findIdx? (·.contains k.spelling)).map (· + 1) := by
  cases k <;> decide

end Operator

/-- The kind of the token that a literal is. -/
def Literal.Kind.token (k : Literal.Kind) (raw : Text) : Token.Kind :=
  match k with
  | .int | .long => .intLiteral
  | .float | .double => .floatLiteral
  | .char => .charLiteral
  | .string => .stringLiteral
  | .textBlock => .textBlock
  | .boolean => if raw == "true" then .kwTrue else .kwFalse
  | .null => .kwNull

/-- The suffix of a number says what kind of literal it is. -/
def Literal.Kind.Fits (k : Literal.Kind) (raw : Text) : Prop :=
  Parse.literalKind? ⟨k.token raw, default, raw, none⟩ = some k

namespace Expr

open Parse

/-! ## Composed expressions -/

mutual

/-- An expression without the numbers, spans and marks of its nodes. -/
def bare : Expr → Expr
  | .literal _ k raw => .literal {} k raw
  | .name _ n => .name {} ⟨{}, n.name⟩
  | .field _ x n => .field {} x.bare ⟨{}, n.name⟩
  | .call _ x targs n args =>
    .call {} (bareOption x) (targs.map TypeNode.bare) ⟨{}, n.name⟩ (bareList args)
  | .index _ x i => .index {} x.bare i.bare
  | .unary _ op x isPostfix => .unary {} op x.bare isPostfix
  | .binary _ op x y => .binary {} op x.bare y.bare
  | .assign _ op x y => .assign {} op x.bare y.bare
  | .conditional _ x y z => .conditional {} x.bare y.bare z.bare
  | .cast _ t x => .cast {} t.bare x.bare
  | .instanceOf _ x t p => .instanceOf {} x.bare t.bare (bareOption p)
  | .paren _ x => .paren {} x.bare
  | x => x

def bareOption : Option Expr → Option Expr
  | none => none
  | some x => some x.bare

def bareList : List Expr → List Expr
  | [] => []
  | x :: xs => x.bare :: bareList xs

end

theorem bareList_eq_map (xs : List Expr) : bareList xs = xs.map bare := by
  induction xs with
  | nil => rfl
  | cons x xs ih => rw [bareList, ih, List.map_cons]

theorem bareList_congr {xs ys : List Expr} (h : xs.map bare = ys.map bare) :
    bareList xs = bareList ys := by
  rw [bareList_eq_map, h, bareList_eq_map]

/-- The types of a cast. -/
def castTypes : TypeNode → List TypeNode
  | .intersection _ ts => ts
  | t => [t]

mutual

/-- What an expression is written with. -/
def pieces : Expr → List Piece
  | .literal _ k raw => [.token ⟨k.token raw, raw⟩]
  | .name _ n => [.word n.name]
  | .field _ x n => x.pieces ++ [.sign .dot, .word n.name]
  | .call _ x targs n args => targetPieces x ++ TypeNode.argPieces (targs.map TypeNode.pieces) ++
      .word n.name :: inParentheses (piecesList args)
  | .index _ x i => x.pieces ++ .sign .lbracket :: (i.pieces ++ [.sign .rbracket])
  | .unary _ op x isPostfix =>
    if isPostfix then x.pieces ++ [.sign op.token] else .sign op.token :: x.pieces
  | .binary _ op x y => x.pieces ++ .sign op.token :: y.pieces
  | .assign _ op x y => x.pieces ++ .sign op.token :: y.pieces
  | .conditional _ x y z =>
    x.pieces ++ .sign .question :: (y.pieces ++ .sign .colon :: z.pieces)
  | .cast _ t x => .sign .lparen :: (boundsPieces (castTypes t) ++ .sign .rparen :: x.pieces)
  | .instanceOf _ x t _ => x.pieces ++ .sign .kwInstanceof :: t.pieces
  | .paren _ x => .sign .lparen :: (x.pieces ++ [.sign .rparen])
  | _ => []

def targetPieces : Option Expr → List Piece
  | none => []
  | some x => x.pieces ++ [.sign .dot]

def piecesList : List Expr → List (List Piece)
  | [] => []
  | x :: xs => x.pieces :: piecesList xs

end

theorem piecesList_eq_map (xs : List Expr) : piecesList xs = xs.map pieces := by
  induction xs with
  | nil => rfl
  | cons x xs ih => rw [piecesList, ih, List.map_cons]

theorem paren_append (i : Info) (x : Expr) (rest : List Piece) : (paren i x).pieces ++ rest =
    .sign .lparen :: (x.pieces ++ .sign .rparen :: rest) := by
  show .sign .lparen :: (x.pieces ++ [.sign .rparen] ++ rest) = _
  rw [List.append_assoc]
  rfl

theorem cast_append (i : Info) (t : TypeNode) (x : Expr) (rest : List Piece) :
    (cast i t x).pieces ++ rest = .sign .lparen ::
      (boundsPieces (castTypes t) ++ .sign .rparen :: (x.pieces ++ rest)) := by
  show .sign .lparen :: (boundsPieces (castTypes t) ++ .sign .rparen :: x.pieces ++ rest) = _
  rw [List.append_assoc]
  rfl

theorem pieces_call (i : Info) (n : Ident) (args : List Expr) :
    (call i none [] n args).pieces = .word n.name :: inParentheses (args.map pieces) := by
  rw [← piecesList_eq_map]
  rfl

theorem pieces_callOn (i : Info) (x : Expr) (targs : List TypeNode) (n : Ident)
    (args : List Expr) : (call i (some x) targs n args).pieces =
      x.pieces ++ .sign .dot :: (TypeNode.argPieces (targs.map TypeNode.pieces) ++
        .word n.name :: inParentheses (args.map pieces)) := by
  rw [← piecesList_eq_map]
  show x.pieces ++ [.sign .dot] ++ _ ++ _ = _
  rw [List.append_assoc, List.append_assoc]
  rfl

end Expr

/-- The types that a cast may name: a plain type, or several class types. -/
inductive TypeNode.Castable : TypeNode → Prop
  | plain {t : TypeNode} : t.Plain (fun _ => True) false → Castable t
  | several {i : Info} {t u : TypeNode} {ts : List TypeNode} :
      (∀ v ∈ t :: u :: ts, v.isClass ∧ v.Plain (fun _ => True) false) →
      Castable (.intersection i (t :: u :: ts))

namespace Expr

open Parse

/-- What may be assigned to. -/
def isTarget : Expr → Bool
  | .name .. | .field .. | .index .. => true
  | _ => false

/-- The expressions that are put together by selection and operators, without parentheses. -/
inductive Composed : Expr → Prop
  | literal {i : Info} {k : Literal.Kind} {raw : Text} : k.Fits raw → Composed (.literal i k raw)
  | name {i : Info} {n : Ident} : Composed (.name i n)
  | field {i : Info} {x : Expr} {n : Ident} : Composed x → Composed (.field i x n)
  | call {i : Info} {n : Ident} {args : List Expr} : (∀ a ∈ args, Composed a) →
      Composed (.call i none [] n args)
  | callOn {i : Info} {x : Expr} {targs : List TypeNode} {n : Ident} {args : List Expr} : Composed x →
      (∀ t ∈ targs, t.Plain (fun _ => True) true) → (∀ a ∈ args, Composed a) →
      Composed (.call i (some x) targs n args)
  | index {i : Info} {x y : Expr} : Composed x → Composed y → Composed (.index i x y)
  | prefixed {i : Info} {op : Operator} {x : Expr} : op ∈ Operator.prefixes → Composed x →
      Composed (.unary i op x false)
  | postfixed {i : Info} {op : Operator} {x : Expr} : op ∈ Operator.postfixes → Composed x →
      Composed (.unary i op x true)
  | binary {i : Info} {op : Operator} {x y : Expr} : 0 < op.precedence → Composed x → Composed y →
      Composed (.binary i op x y)
  | instanceOf {i : Info} {x : Expr} {t : TypeNode} : Composed x → t.Plain (fun _ => True) false →
      Composed (.instanceOf i x t none)
  | cast {i : Info} {t : TypeNode} {x : Expr} : t.Castable → Composed x → Composed (.cast i t x)
  | conditional {i : Info} {x y z : Expr} : Composed x → Composed y → Composed z →
      Composed (.conditional i x y z)
  | assign {i : Info} {op : Operator} {x y : Expr} : op ∈ Operator.assignments → x.isTarget →
      Composed x → Composed y → Composed (.assign i op x y)

/-! ## Parentheses -/

/-- How tightly an expression holds together: two steps for each precedence of the binary operators,
so that `instanceof` has a place of its own. -/
def rank : Expr → Nat
  | .assign .. => 1
  | .conditional .. => 2
  | .binary _ op _ _ => 2 * op.precedence + 2
  | .instanceOf .. => 15
  | .cast .. => 23
  | .unary _ _ _ isPostfix => if isPostfix then 24 else 23
  | _ => 25

def isInstanceOf : Expr → Bool
  | .instanceOf .. => true
  | _ => false

/-- The operators that could go on a binary expression as well as start an operand. -/
def isSigned : Expr → Bool
  | .unary _ op _ false => [.pos, .neg, .inc, .dec].contains op
  | _ => false

def isPrimitive : TypeNode → Bool
  | .primitive .. => true
  | _ => false

/-- An expression, in parentheses unless it is fit for its place. -/
def grouped (fits : Bool) (x : Expr) : Expr := if fits then x else .paren {} x

/-- A part that holds together tightly enough. -/
def part (level : Nat) (x : Expr) : Expr := grouped (level ≤ x.rank) x

/-- An operand of a binary operator; `instanceof` never stands there. -/
def operand (level : Nat) (x : Expr) : Expr := grouped (level ≤ x.rank && !x.isInstanceOf) x

/-- The operand of a cast; a sign behind the parentheses of a reference type is taken for a binary
operator. -/
def castOperand (t : TypeNode) (x : Expr) : Expr :=
  grouped (23 ≤ x.rank && (isPrimitive t || !x.isSigned)) x

mutual

/-- An expression with parentheses where its operands need them. -/
def parenthesized : Expr → Expr
  | .field i x n => .field i (part 25 x.parenthesized) n
  | .call i x targs n args => .call i (parenthesizedTarget x) targs n (parenthesizedList args)
  | .index i x y => .index i (part 25 x.parenthesized) y.parenthesized
  | .unary i op x isPostfix => .unary i op (part (if isPostfix then 24 else 23) x.parenthesized)
      isPostfix
  | .binary i op x y => .binary i op (operand (2 * op.precedence + 2) x.parenthesized)
      (operand (2 * op.precedence + 3) y.parenthesized)
  | .assign i op x y => .assign i op x.parenthesized y.parenthesized
  | .conditional i x y z =>
    .conditional i (part 3 x.parenthesized) y.parenthesized (part 2 z.parenthesized)
  | .cast i t x => .cast i t (castOperand t x.parenthesized)
  | .instanceOf i x t p => .instanceOf i (part 15 x.parenthesized) t p
  | x => x

def parenthesizedTarget : Option Expr → Option Expr
  | none => none
  | some x => some (part 25 x.parenthesized)

def parenthesizedList : List Expr → List Expr
  | [] => []
  | x :: xs => x.parenthesized :: parenthesizedList xs

end

mutual

/-- An expression without its parentheses. -/
def stripped : Expr → Expr
  | .field i x n => .field i x.stripped n
  | .call i x targs n args => .call i (strippedOption x) targs n (strippedList args)
  | .index i x y => .index i x.stripped y.stripped
  | .unary i op x isPostfix => .unary i op x.stripped isPostfix
  | .binary i op x y => .binary i op x.stripped y.stripped
  | .assign i op x y => .assign i op x.stripped y.stripped
  | .conditional i x y z => .conditional i x.stripped y.stripped z.stripped
  | .cast i t x => .cast i t x.stripped
  | .instanceOf i x t p => .instanceOf i x.stripped t p
  | .paren _ x => x.stripped
  | x => x

def strippedOption : Option Expr → Option Expr
  | none => none
  | some x => some x.stripped

def strippedList : List Expr → List Expr
  | [] => []
  | x :: xs => x.stripped :: strippedList xs

end

theorem parenthesizedList_eq_map (xs : List Expr) :
    parenthesizedList xs = xs.map parenthesized := by
  induction xs with
  | nil => rfl
  | cons x xs ih => rw [parenthesizedList, ih, List.map_cons]

theorem strippedList_eq_map (xs : List Expr) : strippedList xs = xs.map stripped := by
  induction xs with
  | nil => rfl
  | cons x xs ih => rw [strippedList, ih, List.map_cons]

theorem stripped_bare_grouped (fits : Bool) (x : Expr) :
    (grouped fits x).bare.stripped = x.bare.stripped := by
  cases fits <;> rfl

/-- The parentheses are all that is added. -/
theorem stripped_bare_parenthesized {e : Expr} (h : e.Composed) :
    e.parenthesized.bare.stripped = e.bare := by
  have hgrouped {fits : Bool} {x : Expr} (h : x.parenthesized.bare.stripped = x.bare) :
      (grouped fits x.parenthesized).bare.stripped = x.bare := by
    rw [stripped_bare_grouped, h]
  have hargs {args : List Expr} (h : ∀ a ∈ args, a.parenthesized.bare.stripped = a.bare) :
      strippedList (bareList (parenthesizedList args)) = bareList args := by
    rw [parenthesizedList_eq_map, bareList_eq_map, strippedList_eq_map, bareList_eq_map,
      List.map_map, List.map_map]
    exact List.map_congr_left h
  induction h with
  | literal => rfl
  | name => rfl
  | field _ ih => exact congrArg (field {} · _) (hgrouped ih)
  | call _ ih => exact congrArg (call {} none [] _ ·) (hargs ih)
  | callOn _ _ _ ihx ih =>
    exact congrArg₂ (fun x args => call {} (some x) _ _ args) (hgrouped ihx) (hargs ih)
  | index _ _ ihx ihy => exact congrArg₂ (index {}) (hgrouped ihx) ihy
  | prefixed _ _ ih => exact congrArg (unary {} _ · false) (hgrouped ih)
  | postfixed _ _ ih => exact congrArg (unary {} _ · true) (hgrouped ih)
  | binary _ _ _ ihx ihy => exact congrArg₂ (binary {} _) (hgrouped ihx) (hgrouped ihy)
  | instanceOf _ _ ih => exact congrArg (instanceOf {} · _ none) (hgrouped ih)
  | cast _ _ ih => exact congrArg (cast {} _) (hgrouped ih)
  | @conditional _ x y z _ _ _ ihx ihy ihz =>
    show Expr.conditional {} _ _ _ = Expr.conditional {} _ _ _
    congr 1
    · exact hgrouped ihx
    · exact hgrouped ihz
  | assign _ _ _ _ ihx ihy => exact congrArg₂ (assign {} _) ihx ihy

/-! ## Grouped expressions -/

/-- The expressions in which every operand is fit for its place. -/
inductive Grouped : Expr → Prop
  | literal {i : Info} {k : Literal.Kind} {raw : Text} : k.Fits raw → Grouped (.literal i k raw)
  | name {i : Info} {n : Ident} : Grouped (.name i n)
  | paren {i : Info} {x : Expr} : Grouped x → Grouped (.paren i x)
  | field {i : Info} {x : Expr} {n : Ident} : Grouped x → 25 ≤ x.rank → Grouped (.field i x n)
  | call {i : Info} {n : Ident} {args : List Expr} : (∀ a ∈ args, Grouped a) →
      Grouped (.call i none [] n args)
  | callOn {i : Info} {x : Expr} {targs : List TypeNode} {n : Ident} {args : List Expr} :
      Grouped x → 25 ≤ x.rank → (∀ t ∈ targs, t.Plain (fun _ => True) true) →
      (∀ a ∈ args, Grouped a) → Grouped (.call i (some x) targs n args)
  | index {i : Info} {x y : Expr} : Grouped x → 25 ≤ x.rank → Grouped y → Grouped (.index i x y)
  | prefixed {i : Info} {op : Operator} {x : Expr} : op ∈ Operator.prefixes → Grouped x →
      23 ≤ x.rank → Grouped (.unary i op x false)
  | postfixed {i : Info} {op : Operator} {x : Expr} : op ∈ Operator.postfixes → Grouped x →
      24 ≤ x.rank → Grouped (.unary i op x true)
  | binary {i : Info} {op : Operator} {x y : Expr} : 0 < op.precedence → Grouped x →
      2 * op.precedence + 2 ≤ x.rank → Grouped y → 2 * op.precedence + 3 ≤ y.rank →
      Grouped (.binary i op x y)
  | instanceOf {i : Info} {x : Expr} {t : TypeNode} : Grouped x → 15 ≤ x.rank →
      t.Plain (fun _ => True) false → Grouped (.instanceOf i x t none)
  | cast {i : Info} {t : TypeNode} {x : Expr} : t.Castable → Grouped x → 23 ≤ x.rank →
      (isPrimitive t || !x.isSigned) = true → Grouped (.cast i t x)
  | conditional {i : Info} {x y z : Expr} : Grouped x → 3 ≤ x.rank → Grouped y → Grouped z →
      2 ≤ z.rank → Grouped (.conditional i x y z)
  | assign {i : Info} {op : Operator} {x y : Expr} : op ∈ Operator.assignments → Grouped x →
      2 ≤ x.rank → Grouped y → Grouped (.assign i op x y)

theorem precedence_le (op : Operator) : op.precedence ≤ 10 := by
  cases op <;> decide

theorem Grouped.grouped {fits : Bool} {x : Expr} (h : Grouped x) : Grouped (grouped fits x) := by
  cases fits
  · exact .paren h
  · exact h

theorem le_rank_part {level : Nat} (hlevel : level ≤ 25) (x : Expr) : level ≤ (part level x).rank := by
  unfold part Expr.grouped
  split
  next h => exact of_decide_eq_true h
  next => exact hlevel

theorem le_rank_operand {level : Nat} (hlevel : level ≤ 25) (x : Expr) :
    level ≤ (operand level x).rank := by
  unfold operand Expr.grouped
  split
  next h => exact of_decide_eq_true (Bool.and_eq_true_iff.1 h).1
  next => exact hlevel

theorem castOperand_fits (t : TypeNode) (x : Expr) : 23 ≤ (castOperand t x).rank ∧
    (isPrimitive t || !(castOperand t x).isSigned) = true := by
  unfold castOperand Expr.grouped
  split
  next h =>
    obtain ⟨hrank, hsigned⟩ := Bool.and_eq_true_iff.1 h
    exact ⟨of_decide_eq_true hrank, hsigned⟩
  next => exact ⟨(by decide : 23 ≤ 25), by simp [isSigned]⟩

/-- Parentheses make every operand fit for its place. -/
theorem grouped_parenthesized {e : Expr} (h : e.Composed) : e.parenthesized.Grouped := by
  have hargs {args : List Expr} (h : ∀ a ∈ args, a.parenthesized.Grouped) :
      ∀ a ∈ parenthesizedList args, a.Grouped := by
    rw [parenthesizedList_eq_map]
    exact List.forall_mem_map.2 h
  induction h with
  | literal hk => exact .literal hk
  | name => exact .name
  | field _ ih => exact .field ih.grouped (le_rank_part (by decide) _)
  | call _ ih => exact .call (hargs ih)
  | callOn _ ht _ ihx ih => exact .callOn ihx.grouped (le_rank_part (by decide) _) ht (hargs ih)
  | index _ _ ihx ihy => exact .index ihx.grouped (le_rank_part (by decide) _) ihy
  | prefixed hop _ ih => exact .prefixed hop ih.grouped (le_rank_part (by decide) _)
  | postfixed hop _ ih => exact .postfixed hop ih.grouped (le_rank_part (by decide) _)
  | @binary _ op _ _ hop _ _ ihx ihy =>
    have hle := precedence_le op
    exact .binary hop ihx.grouped (le_rank_operand (by omega) _) ihy.grouped
      (le_rank_operand (by omega) _)
  | instanceOf _ ht ih => exact .instanceOf ih.grouped (le_rank_part (by decide) _) ht
  | @cast _ t x ht _ ih =>
    obtain ⟨hrank, hsigned⟩ := castOperand_fits t x.parenthesized
    exact .cast ht ih.grouped hrank hsigned
  | conditional _ _ _ ihx ihy ihz =>
    exact .conditional ihx.grouped (le_rank_part (by decide) _) ihy ihz.grouped
      (le_rank_part (by decide) _)
  | @assign _ op x _ hop htarget _ _ ihx ihy =>
    refine .assign hop ihx ?_ ihy
    cases x <;> first | exact (by decide : 2 ≤ 25) | cases htarget

/-! ## The ends of a grouped expression -/

/-- The expressions that start with a token of their own. -/
def isHead : Expr → Bool
  | .literal .. | .name .. | .paren .. | .cast .. => true
  | .call _ x .. => x.isNone
  | .unary _ _ _ isPostfix => !isPostfix
  | _ => false

/-- What an expression starts with, and what is behind that. -/
structure Head (e x : Expr) (behind : List Piece) : Prop where
  grouped : x.Grouped
  isHead : x.isHead = true
  pieces : e.pieces = x.pieces ++ behind
  rank : e.rank ≤ x.rank
  goesOn : e = x ∧ behind = [] ∨ behind ≠ [] ∧ firstKind behind ∉ .arrow :: operandStarts

theorem Head.of_left {e x y : Expr} {behind ps : List Piece} {k : Token.Kind}
    (h : Head y x behind) (hpieces : e.pieces = y.pieces ++ .sign k :: ps)
    (hrank : e.rank ≤ y.rank) (hk : k ∉ .arrow :: operandStarts) : ∃ x behind, Head e x behind := by
  refine ⟨x, behind ++ .sign k :: ps, h.grouped, h.isHead, ?_, hrank.trans h.rank,
    .inr ⟨by simp, ?_⟩⟩
  · rw [hpieces, h.pieces, List.append_assoc]
  · obtain ⟨-, rfl⟩ | ⟨hbehind, hfirst⟩ := h.goesOn
    · exact hk
    · rw [firstKind_append hbehind]
      exact hfirst

theorem Grouped.exists_head {e : Expr} (h : e.Grouped) : ∃ x behind, Head e x behind := by
  have hself {e : Expr} (h : e.Grouped) (hhead : e.isHead = true) : ∃ x behind, Head e x behind :=
    ⟨e, [], h, hhead, (List.append_nil _).symm, Nat.le_refl _, .inl ⟨rfl, rfl⟩⟩
  have hbinary {op : Operator} (hop : 0 < op.precedence) : op.token ∉ .arrow :: operandStarts := by
    have hnone : ∀ k ∈ .arrow :: operandStarts, Operator.ofBinaryToken? k = none := by decide
    intro hmem
    have hsome := Operator.ofBinaryToken?_token hop
    rw [hnone _ hmem] at hsome
    cases hsome
  have hassign : ∀ op ∈ Operator.assignments, op.token ∉ .arrow :: operandStarts := by
    decide
  have hback : ∀ op ∈ Operator.postfixes, op.token ∉ .arrow :: operandStarts := by
    decide
  induction h with
  | literal hk => exact hself (.literal hk) rfl
  | name => exact hself .name rfl
  | paren hx => exact hself (.paren hx) rfl
  | call hargs => exact hself (.call hargs) rfl
  | prefixed hop hx hrank => exact hself (.prefixed hop hx hrank) rfl
  | cast ht hx hrank hsigned => exact hself (.cast ht hx hrank hsigned) rfl
  | field _ hrank ih =>
    obtain ⟨_, _, hx⟩ := ih
    exact hx.of_left rfl hrank (by decide)
  | @callOn i x targs n args _ hrank _ _ ih =>
    obtain ⟨_, _, hx⟩ := ih
    exact hx.of_left (pieces_callOn i x targs n args) hrank (by decide)
  | index _ hrank _ ih =>
    obtain ⟨_, _, hx⟩ := ih
    exact hx.of_left rfl hrank (by decide)
  | postfixed hop _ hrank ih =>
    obtain ⟨_, _, hx⟩ := ih
    exact hx.of_left rfl hrank (hback _ hop)
  | binary hop _ hrank _ _ ih =>
    obtain ⟨_, _, hx⟩ := ih
    exact hx.of_left rfl hrank (hbinary hop)
  | instanceOf _ hrank _ ih =>
    obtain ⟨_, _, hx⟩ := ih
    exact hx.of_left rfl hrank (by decide)
  | conditional _ hrank _ _ _ ih =>
    obtain ⟨_, _, hx⟩ := ih
    exact hx.of_left rfl ((by decide : 2 ≤ 3).trans hrank) (by decide)
  | assign hop _ hrank _ ih =>
    obtain ⟨_, _, hx⟩ := ih
    exact hx.of_left rfl ((by decide : 1 ≤ 2).trans hrank) (hassign _ hop)

/-- The tokens that operands without an operator in front start with. -/
def primaryStarts : List Token.Kind :=
  [.intLiteral, .floatLiteral, .charLiteral, .stringLiteral, .textBlock, .kwTrue, .kwFalse,
    .kwNull, .identifier, .lparen]

theorem literalToken_mem (k : Literal.Kind) (raw : Text) : k.token raw ∈ primaryStarts.take 8 := by
  unfold Literal.Kind.token
  cases k <;> dsimp only
  case boolean => split <;> decide
  all_goals decide

/-- The tokens that expressions start with. -/
def starts : List Token.Kind :=
  primaryStarts ++ [.bang, .tilde, .plus, .minus, .increment, .decrement]

theorem literalToken_starts (k : Literal.Kind) (raw : Text) : k.token raw ∈ primaryStarts :=
  List.mem_of_mem_take (literalToken_mem k raw)

theorem firstKind_head {x : Expr} (h : x.Grouped) (hhead : x.isHead = true) (rest : List Piece) :
    firstKind (x.pieces ++ rest) ∈ starts ∧
      (24 ≤ x.rank → firstKind (x.pieces ++ rest) ∈ primaryStarts) := by
  have hprimary {k : Token.Kind} (hk : k ∈ primaryStarts) {p : Prop} :
      k ∈ starts ∧ (p → k ∈ primaryStarts) := ⟨List.mem_append_left _ hk, fun _ => hk⟩
  have hfront : ∀ op ∈ Operator.prefixes, op.token ∈ starts := by decide
  cases h with
  | literal => exact hprimary (literalToken_starts _ _)
  | name => exact hprimary (show .identifier ∈ primaryStarts by decide)
  | paren => exact hprimary (show .lparen ∈ primaryStarts by decide)
  | call => exact hprimary (show .identifier ∈ primaryStarts by decide)
  | cast => exact hprimary (show .lparen ∈ primaryStarts by decide)
  | prefixed hop =>
    exact ⟨hfront _ hop, fun hrank => absurd hrank (by decide : ¬ 24 ≤ 23)⟩
  | _ => cases hhead

section

variable {e : Expr} {rest : List Piece}

theorem Grouped.firstKind_mem (h : e.Grouped) (rest : List Piece) :
    firstKind (e.pieces ++ rest) ∈ starts := by
  obtain ⟨x, behind, hx⟩ := h.exists_head
  rw [hx.pieces, List.append_assoc]
  exact (firstKind_head hx.grouped hx.isHead _).1

theorem Grouped.pieces_ne_nil (h : e.Grouped) : e.pieces ≠ [] := by
  intro hnil
  have hmem := h.firstKind_mem []
  rw [hnil] at hmem
  exact absurd hmem (by decide)

theorem Grouped.firstKind_primary (h : e.Grouped) (hrank : 24 ≤ e.rank) (rest : List Piece) :
    firstKind (e.pieces ++ rest) ∈ primaryStarts := by
  obtain ⟨x, behind, hx⟩ := h.exists_head
  rw [hx.pieces, List.append_assoc]
  exact (firstKind_head hx.grouped hx.isHead _).2 (hrank.trans hx.rank)

/-- An operand without one of the four signs is told from the rest of a binary expression. -/
theorem Grouped.firstKind_operand (h : e.Grouped) (hrank : 23 ≤ e.rank) (hsigned : e.isSigned = false)
    (rest : List Piece) : firstKind (e.pieces ++ rest) ∈ operandStarts := by
  have hprimary : ∀ k ∈ primaryStarts, k ∈ operandStarts := by decide
  have hfront : ∀ op ∈ Operator.prefixes, [Operator.pos, .neg, .inc, .dec].contains op = false →
      op.token ∈ operandStarts := by decide
  by_cases hrank' : 24 ≤ e.rank
  · exact hprimary _ (h.firstKind_primary hrank' rest)
  · have hrank : e.rank = 23 := by omega
    cases h with
    | prefixed hop => exact hfront _ hop hsigned
    | cast => exact (by decide : Token.Kind.lparen ∈ operandStarts)
    | @binary _ op =>
      have hrank : 2 * op.precedence + 2 = 23 := hrank
      omega
    | _ => cases hrank

/-! ### Parentheses -/

theorem balanced_castTypes {t : TypeNode} (h : t.Castable) :
    Balanced (boundsPieces (castTypes t)) := by
  refine .separated (by decide) (List.forall_mem_map.2 ?_)
  cases h with
  | plain h =>
    have htypes : castTypes t = [t] := by cases h <;> rfl
    rw [htypes]
    exact List.forall_mem_singleton.2 (.type h)
  | several h => exact fun u hu => .type (h u hu).2

/-- Every parenthesis of an expression is closed in it. -/
theorem Grouped.balanced (h : e.Grouped) : Balanced e.pieces := by
  have hliteral : ∀ k ∈ primaryStarts.take 8, k ∉ marks := by decide
  have hfront : ∀ op ∈ Operator.prefixes, op.token ∉ marks := by decide
  have hback : ∀ op ∈ Operator.postfixes, op.token ∉ marks := by decide
  have hassign : ∀ op ∈ Operator.assignments, op.token ∉ marks := by decide
  have hbinary {op : Operator} (hop : 0 < op.precedence) : op.token ∉ marks := by
    have hnone : ∀ k ∈ marks, Operator.ofBinaryToken? k = none := by decide
    intro hmem
    have hsome := Operator.ofBinaryToken?_token hop
    rw [hnone _ hmem] at hsome
    cases hsome
  have hsign {k : Token.Kind} (hk : k ∉ marks) : Balanced [.sign k] := .cons hk .nil
  have hword (n : Text) : Balanced [.word n] := .cons (show .identifier ∉ marks by decide) .nil
  have hargs {args : List Expr} (h : ∀ a ∈ args, Balanced a.pieces) :
      Balanced (inParentheses (args.map pieces)) := .inParentheses (List.forall_mem_map.2 h)
  induction h with
  | literal => exact .cons (hliteral _ (literalToken_mem _ _)) .nil
  | name => exact hword _
  | paren _ ih => exact ih.parens
  | field _ _ ih => exact ih.append ((hsign (by decide)).append (hword _))
  | call _ ih =>
    rw [pieces_call]
    exact (hword _).append (hargs ih)
  | callOn _ _ ht _ ihx ih =>
    have htargs := Balanced.argPieces (List.forall_mem_map.2 fun t h => .type (ht t h))
    rw [pieces_callOn]
    exact ihx.append (.cons (by decide) (htargs.append ((hword _).append (hargs ih))))
  | index _ _ _ ihx ihy =>
    exact ihx.append ((hsign (by decide)).append (ihy.append (hsign (by decide))))
  | prefixed hop _ _ ih => exact .cons (hfront _ hop) ih
  | postfixed hop _ _ ih => exact ih.append (hsign (hback _ hop))
  | binary hop _ _ _ _ ihx ihy => exact ihx.append (.cons (hbinary hop) ihy)
  | instanceOf _ _ ht ih => exact ih.append ((hsign (by decide)).append (.type ht))
  | cast ht _ _ _ ih =>
    have hpieces := (balanced_castTypes ht).parens.append ih
    rwa [List.cons_append, List.append_assoc] at hpieces
  | conditional _ _ _ _ _ ihx ihy ihz =>
    exact ihx.append ((hsign (by decide)).append (ihy.append ((hsign (by decide)).append ihz)))
  | assign hop _ _ _ ihx ihy => exact ihx.append (.cons (hassign _ hop) ihy)

/-! ### Looking ahead -/

/-- Whether an arrow behind an expression is taken for the arrow of a lambda that starts with the
last operand. It is where that operand is read by a rule that asks for lambdas first. -/
def takesArrow (asked : Bool) : Expr → Bool
  | .name .. | .paren .. => asked
  | .assign _ _ _ y => y.takesArrow true
  | .conditional _ _ _ z => z.takesArrow true
  | .cast _ _ x => x.takesArrow true
  | .unary _ _ x false => x.takesArrow false
  | .binary _ _ _ y => y.takesArrow false
  | _ => false

/-- No lambda starts where an expression starts, unless an arrow follows it. -/
theorem Grouped.opensLambda_eq_false (h : e.Grouped)
    (harrow : firstKind rest = .arrow → e.takesArrow true = false) :
    opensLambda (e.pieces ++ rest) = false := by
  obtain ⟨x, behind, hx⟩ := h.exists_head
  have hbehind : (x.takesArrow true = true) → firstKind (behind ++ rest) ≠ .arrow := by
    intro htakes heq
    obtain ⟨rfl, rfl⟩ | ⟨hne, hfirst⟩ := hx.goesOn
    · rw [harrow heq] at htakes
      cases htakes
    · rw [firstKind_append hne] at heq
      exact hfirst (heq ▸ List.mem_cons_self)
  rw [hx.pieces, List.append_assoc]
  have hother (ps : List Piece) (hps : firstKind ps ∈ starts.filter (· ∉
      ([.identifier, .lparen] : List Token.Kind))) : opensLambda ps = false := by
    obtain ⟨-, hne⟩ := List.mem_filter.1 hps
    obtain ⟨hname, hopen⟩ : firstKind ps ≠ .identifier ∧ firstKind ps ≠ .lparen := by
      simpa using hne
    exact opensLambda_other hname hopen
  have hfront : ∀ op ∈ Operator.prefixes, op.token ∈ starts.filter (· ∉
      ([.identifier, .lparen] : List Token.Kind)) := by decide
  have hliteral : ∀ k ∈ primaryStarts.take 8, k ∈ starts.filter (· ∉
      ([.identifier, .lparen] : List Token.Kind)) := by decide
  cases hx.grouped with
  | literal => exact hother _ (hliteral _ (literalToken_mem _ _))
  | name => exact beq_eq_false_iff_ne.2 (hbehind rfl)
  | paren h =>
    rw [paren_append, h.balanced.opensLambda]
    exact beq_eq_false_iff_ne.2 (hbehind rfl)
  | call => rfl
  | cast ht h =>
    have hstarts : .arrow ∉ starts := by decide
    rw [cast_append, (balanced_castTypes ht).opensLambda]
    exact beq_eq_false_iff_ne.2 fun heq => hstarts (heq ▸ h.firstKind_mem _)
  | prefixed hop => exact hother _ (hfront _ hop)
  | _ => cases hx.isHead

/-- A parenthesis in front of an operand does not open a cast. -/
theorem Grouped.exists_paren (h : e.Grouped) (hrank : 24 ≤ e.rank)
    (hopen : firstKind (e.pieces ++ rest) = .lparen) (hrest : firstKind rest ∉ operandStarts) :
    ∃ ps, e.pieces ++ rest = .sign .lparen :: ps ∧ primitiveOf? (firstKind ps) = none ∧
      ∀ k ∈ operandStarts, closingOf ps ≠ some k := by
  obtain ⟨x, behind, hx⟩ := h.exists_head
  have hbehind : firstKind (behind ++ rest) ∉ operandStarts := by
    obtain ⟨-, rfl⟩ | ⟨hne, hfirst⟩ := hx.goesOn
    · exact hrest
    · rw [firstKind_append hne]
      exact fun hmem => hfirst (List.mem_cons_of_mem _ hmem)
  have hliteral : ∀ k ∈ primaryStarts.take 8, k ≠ .lparen := by decide
  have hprimitive : ∀ k ∈ starts, primitiveOf? k = none := by decide
  have hrank := hrank.trans hx.rank
  rw [hx.pieces, List.append_assoc] at hopen ⊢
  cases hx.grouped with
  | literal => exact absurd hopen (hliteral _ (literalToken_mem _ _))
  | name => cases hopen
  | call => cases hopen
  | @paren _ y h =>
    refine ⟨_, paren_append _ y _, hprimitive _ (h.firstKind_mem _), fun k hk heq => ?_⟩
    rw [h.balanced.closingOf] at heq
    exact hbehind (Option.some.inj heq ▸ hk)
  | cast => exact absurd hrank (by decide : ¬ 24 ≤ 23)
  | prefixed => exact absurd hrank (by decide : ¬ 24 ≤ 23)
  | _ => cases hx.isHead

theorem takesArrow_mono {e : Expr} (h : e.takesArrow true = false) : e.takesArrow false = false := by
  unfold takesArrow at h ⊢
  split at h
  all_goals first | rfl | exact h

end

end Expr

end Javelin
