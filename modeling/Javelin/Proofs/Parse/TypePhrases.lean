import Javelin.Parse.Declarations
import Javelin.Proofs.Parse.Ahead

/-!
# Types are read as they are written

A plain type (`TypeNode.Plain`) has no annotations and no empty type arguments: it is put together
from primitive types, qualified names, type arguments, wildcards and dimensions. Where its pieces
are ahead, the rule for types takes them and gives the type back, up to the information of its
nodes (`takesTypes_grammar`), whatever the closing brackets are glued to.

1. Plain types and their pieces.
2. Dimensions and type arguments.
3. Class types. Their segments are read from the outermost on, whereas a type holds its qualifier.
4. The rule for types.
-/

namespace Javelin

/-! ## Plain types -/

namespace BasicType

/-- The keyword of a primitive type. -/
def keyword? : BasicType → Option Token.Kind
  | .boolean => some .kwBoolean
  | .byte => some .kwByte
  | .char => some .kwChar
  | .short => some .kwShort
  | .int => some .kwInt
  | .long => some .kwLong
  | .float => some .kwFloat
  | .double => some .kwDouble
  | _ => none

end BasicType

namespace TypeNode

mutual

/-- A type without the numbers, spans and marks of its nodes. -/
def bare : TypeNode → TypeNode
  | .primitive _ b => .primitive {} b
  | .cls _ annots q name args diamond =>
    .cls {} annots (bareOption q) ⟨{}, name.name⟩ (bareList args) diamond
  | .array _ e => .array {} e.bare
  | .wildcard _ bound isLower => .wildcard {} (bareOption bound) isLower
  | .union _ ts => .union {} (bareList ts)
  | .intersection _ ts => .intersection {} (bareList ts)
  | .inferred _ => .inferred {}

def bareOption : Option TypeNode → Option TypeNode
  | none => none
  | some t => some t.bare

def bareList : List TypeNode → List TypeNode
  | [] => []
  | t :: ts => t.bare :: bareList ts

end

attribute [local simp] bare

theorem bareList_eq_map (ts : List TypeNode) : bareList ts = ts.map bare := by
  induction ts with
  | nil => rfl
  | cons t ts ih => rw [bareList, ih, List.map_cons]

/-- Type arguments between angle brackets, if there are any. -/
def argPieces : List (List Parse.Piece) → List Parse.Piece
  | [] => []
  | pss => .sign .less :: (Parse.separated .comma pss ++ [.close])

mutual

/-- What a plain type is written with. -/
def pieces : TypeNode → List Parse.Piece
  | .primitive _ b => b.keyword?.toList.map .sign
  | .cls _ _ q name args _ => qualifierPieces q ++ .word name.name :: argPieces (piecesList args)
  | .array _ e => e.pieces ++ [.sign .lbracket, .sign .rbracket]
  | .wildcard _ bound isLower => .sign .question :: boundPieces isLower bound
  | _ => []

def qualifierPieces : Option TypeNode → List Parse.Piece
  | none => []
  | some q => q.pieces ++ [.sign .dot]

def boundPieces (isLower : Bool) : Option TypeNode → List Parse.Piece
  | none => []
  | some b => .sign (if isLower then .kwSuper else .kwExtends) :: b.pieces

def piecesList : List TypeNode → List (List Parse.Piece)
  | [] => []
  | t :: ts => t.pieces :: piecesList ts

end

attribute [local simp] pieces

theorem piecesList_eq_map (ts : List TypeNode) : piecesList ts = ts.map pieces := by
  induction ts with
  | nil => rfl
  | cons t ts ih => rw [piecesList, ih, List.map_cons]

def isClass : TypeNode → Bool
  | .cls .. => true
  | _ => false

/-- The types that are put together from primitive types and named classes by qualification, type
arguments and dimensions; the flag tells where a wildcard may stand too. -/
inductive Plain (named : Text → Prop) : Bool → TypeNode → Prop
  | primitive {isArg : Bool} {i : Info} {b : BasicType} : b.keyword?.isSome →
      Plain named isArg (.primitive i b)
  | simple {isArg : Bool} {i : Info} {name : Ident} {args : List TypeNode} : named name.name →
      (∀ a ∈ args, Plain named true a) → Plain named isArg (.cls i [] none name args false)
  | qualified {isArg : Bool} {i : Info} {q : TypeNode} {name : Ident} {args : List TypeNode} :
      q.isClass → Plain named false q → named name.name → (∀ a ∈ args, Plain named true a) →
      Plain named isArg (.cls i [] (some q) name args false)
  | array {isArg : Bool} {i : Info} {e : TypeNode} : Plain named false e →
      Plain named isArg (.array i e)
  | unbounded {i : Info} : Plain named true (.wildcard i none false)
  | bounded {i : Info} {b : TypeNode} {isLower : Bool} : Plain named false b →
      Plain named true (.wildcard i (some b) isLower)

end TypeNode

namespace Parse

/-- What may stand behind a type or a wildcard: nothing that goes on with it. -/
def typeFollow (rest : List Piece) : Prop :=
  firstKind rest ≠ .dot ∧ firstKind rest ≠ .less ∧ firstKind rest ≠ .lbracket ∧
    firstKind rest ≠ .kwExtends ∧ firstKind rest ≠ .kwSuper

/-- Types are read as they are written. -/
def TakesTypes (g : Grammar) : Prop :=
  ∀ {named : Text → Prop} {t : TypeNode}, t.Plain named false → ∀ {rest : List Piece},
    typeFollow rest → Takes g.type (t.pieces ++ rest) rest (·.bare = t.bare)

section

variable {g : Grammar} {named : Text → Prop} {here there rest : List Piece} {β : Type}
  {Q : β → Prop}

theorem Takes.annotsHere : Takes (annotsHere g) here here (· = []) := by
  refine .read (fun _ s => ⟨s.tokens.size - s.pos + 1, rfl⟩) fun fuel => ?_
  cases fuel with
  | zero => exact .exhausted
  | succ fuel =>
    have hnone : Takes (do if ← Parse.check .at then return some (← g.annot) else return none)
        here here (· = none) := by
      refine .checkAt ?_
      rw [if_neg Bool.false_ne_true]
      exact .pure rfl
    refine hnone.bind fun o ho => ?_
    rw [ho]
    exact .pure rfl

@[simp]
theorem typeFollow_nil : typeFollow [] := by simp [typeFollow]

/-! ## Dimensions -/

/-- A type with dimensions behind it. -/
def withDimensions (t : TypeNode) : Nat → TypeNode
  | 0 => t
  | k + 1 => .array {} (withDimensions t k)

def dimensionPieces : Nat → List Piece
  | 0 => []
  | k + 1 => .sign .lbracket :: .sign .rbracket :: dimensionPieces k

theorem takes_dimension : Takes (dimension g) (.sign .lbracket :: .sign .rbracket :: here) here
    (· = true) := by
  unfold dimension
  refine .checkAt ?_
  rw [if_neg Bool.false_ne_true]
  have hbrackets : Takes emptyBrackets (.sign .lbracket :: .sign .rbracket :: here)
      (.sign .lbracket :: .sign .rbracket :: here) (· = true) :=
    .check (by decide) (.checkNext (by decide) (.pure rfl))
  refine hbrackets.bind fun b hb => ?_
  rw [if_pos hb]
  exact .bind (.bind .advance fun _ _ => .bind .advance fun _ _ => .pure (P := fun _ => True) trivial)
    fun _ _ => .pure rfl

theorem takes_noDimension (h : firstKind here ≠ .lbracket) :
    Takes (dimension g) here here (· = false) := by
  unfold dimension
  refine .checkAt ?_
  rw [if_neg Bool.false_ne_true]
  have hbrackets : Takes emptyBrackets here here (· = false) := by
    refine .check (by decide) (.read (reads_checkAt _ _) fun b => .pure ?_)
    rw [beq_eq_false_iff_ne.2 h, Bool.false_and]
  refine hbrackets.bind fun b hb => ?_
  rw [hb, if_neg Bool.false_ne_true]
  exact .pure rfl

theorem withDimensions_array (t : TypeNode) (k : Nat) :
    withDimensions (.array {} t) k = withDimensions t (k + 1) := by
  induction k with
  | zero => rfl
  | succ k ih => rw [withDimensions, ih, ← withDimensions]

theorem dimensionPieces_snoc (k : Nat) :
    dimensionPieces (k + 1) = dimensionPieces k ++ [.sign .lbracket, .sign .rbracket] := by
  induction k with
  | zero => rfl
  | succ k ih => exact congrArg (fun ps => Piece.sign .lbracket :: .sign .rbracket :: ps) ih

theorem takes_dimensionsOf (h : firstKind rest ≠ .lbracket) (fuel : Nat) : ∀ (k : Nat)
    (t : TypeNode), Takes (dimensionsOf g t fuel) (dimensionPieces k ++ rest) rest
      (·.bare = withDimensions t.bare k) := by
  induction fuel with
  | zero => exact fun _ _ => .exhausted
  | succ fuel ih =>
    intro k t
    unfold dimensionsOf
    cases k with
    | zero =>
      refine (takes_noDimension h).bind fun b hb => ?_
      rw [hb, if_neg Bool.false_ne_true]
      exact .pure rfl
    | succ k =>
      refine takes_dimension.bind fun b hb => ?_
      rw [if_pos hb]
      refine .read reads_get fun s => .bind (.newInfo _) fun i _ => (ih k _).mono fun u hu => ?_
      rw [hu, TypeNode.bare, withDimensions_array]

theorem takes_dimensions (h : firstKind rest ≠ .lbracket) (k : Nat) (t : TypeNode) :
    Takes (dimensions g t) (dimensionPieces k ++ rest) rest (·.bare = withDimensions t.bare k) :=
  .read (fun _ s => ⟨s.tokens.size - s.pos + 1, rfl⟩) fun fuel => takes_dimensionsOf h fuel k t

/-- The type under the dimensions of a plain type. -/
theorem exists_element {t : TypeNode} (h : t.Plain named false) :
    ∃ (e : TypeNode) (k : Nat), e.Plain named false ∧ (∀ i e', e ≠ .array i e') ∧
      t.bare = withDimensions e.bare k ∧ t.pieces = e.pieces ++ dimensionPieces k := by
  match t, h with
  | .array _ _, .array h =>
    obtain ⟨e, k, he, hne, hbare, hpieces⟩ := exists_element h
    refine ⟨e, k + 1, he, hne, ?_, ?_⟩
    · rw [TypeNode.bare, hbare, withDimensions]
    · rw [TypeNode.pieces, hpieces, dimensionPieces_snoc, List.append_assoc]
  | .primitive _ _, h => exact ⟨_, 0, h, nofun, rfl, (List.append_nil _).symm⟩
  | .cls .., h => exact ⟨_, 0, h, nofun, rfl, (List.append_nil _).symm⟩

/-! ## Type arguments -/

/-- What may stand behind a type argument. -/
theorem lets_typeFollow (ps : List Piece) : Lets typeFollow .comma (.close :: ps) :=
  ⟨by simp [typeFollow], fun _ => by simp [typeFollow]⟩

/-- The tokens that a plain type starts with. -/
def startsType (k : Token.Kind) : Prop := k = .identifier ∨ (primitiveOf? k).isSome

theorem firstKind_class {t : TypeNode} (h : t.Plain named false) (hcls : t.isClass)
    (rest : List Piece) : firstKind (t.pieces ++ rest) = .identifier := by
  match t, h with
  | .cls _ _ none _ _ _, _ => rfl
  | .cls _ _ (some q) _ _ _, .qualified hqcls hq _ _ =>
    rw [TypeNode.pieces, TypeNode.qualifierPieces, List.append_assoc, List.append_assoc]
    exact firstKind_class hq hqcls _

theorem primitiveOf?_keyword {b : BasicType} {k : Token.Kind} (h : b.keyword? = some k) :
    primitiveOf? k = some b := by
  cases b <;> cases h <;> rfl

theorem startsType_pieces {t : TypeNode} (h : t.Plain named false) (rest : List Piece) :
    startsType (firstKind (t.pieces ++ rest)) := by
  match t, h with
  | .primitive _ b, .primitive hk =>
    obtain ⟨k, hk⟩ := Option.isSome_iff_exists.1 hk
    rw [TypeNode.pieces, hk]
    refine .inr ?_
    show (primitiveOf? k).isSome
    rw [primitiveOf?_keyword hk]
    rfl
  | .cls .., h => exact .inl (firstKind_class h rfl rest)
  | .array _ e, .array he =>
    rw [TypeNode.pieces, List.append_assoc]
    exact startsType_pieces he _

theorem takes_typeArg (hg : TakesTypes g) {t : TypeNode} (h : t.Plain named true)
    (hrest : typeFollow rest) : Takes (typeArg g) (t.pieces ++ rest) rest (·.bare = t.bare) := by
  have htype {t : TypeNode} (h : t.Plain named false) :
      Takes (typeArg g) (t.pieces ++ rest) rest (·.bare = t.bare) := by
    refine .read reads_startPos fun start => .bind .annotsHere fun _ _ => ?_
    refine .acceptNo (by decide) ?_ ?_
    · obtain hstart | hstart := startsType_pieces h rest
      · rw [hstart]
        decide
      · intro heq
        rw [heq] at hstart
        cases hstart
    · rw [if_neg Bool.false_ne_true]
      exact hg h hrest
  cases h with
  | primitive hk => exact htype (.primitive hk)
  | simple hname hargs => exact htype (.simple hname hargs)
  | qualified hcls hq hname hargs => exact htype (.qualified hcls hq hname hargs)
  | array he => exact htype (.array he)
  | unbounded =>
    refine .read reads_startPos fun start => .bind .annotsHere fun _ _ => ?_
    refine .acceptYes (by decide) rfl ?_
    rw [if_pos rfl]
    refine .acceptNo (by decide) hrest.2.2.2.1 ?_
    rw [if_neg Bool.false_ne_true]
    refine .acceptNo (by decide) hrest.2.2.2.2 ?_
    rw [if_neg Bool.false_ne_true]
    show Takes (do return TypeNode.wildcard (← infoFrom start) none false) rest rest _
    exact .bind (.infoFrom start) fun i _ => .pure rfl
  | @bounded _ b isLower hb =>
    have hend {u : TypeNode} {start : Position} (hu : u.bare = b.bare) :
        Takes (do return TypeNode.wildcard (← infoFrom start) (some u) isLower) rest rest
          (TypeNode.bare · = .wildcard {} (some b.bare) isLower) :=
      .bind (.infoFrom start) fun i _ => .pure (by rw [TypeNode.bare, TypeNode.bareOption, hu])
    refine .read reads_startPos fun start => .bind .annotsHere fun _ _ => ?_
    refine .acceptYes (by decide) rfl ?_
    rw [if_pos rfl]
    cases isLower with
    | false =>
      refine .acceptYes (by decide) rfl ?_
      rw [if_pos rfl]
      exact .bind (hg hb hrest) fun u hu => hend hu
    | true =>
      refine .acceptNo (by decide) nofun ?_
      rw [if_neg Bool.false_ne_true]
      refine .acceptYes (by decide) rfl ?_
      rw [if_pos rfl]
      exact .bind (hg hb hrest) fun u hu => hend hu

/-! ## Class types -/

theorem takes_typeArgs (hg : TakesTypes g) {as : List TypeNode} (hne : as ≠ [])
    (h : ∀ a ∈ as, a.Plain named true) :
    Takes (typeArgs g false) (TypeNode.argPieces (as.map TypeNode.pieces) ++ here) here
      fun x => x.1.map TypeNode.bare = as.map TypeNode.bare ∧ x.2 = false := by
  have hpieces : TypeNode.argPieces (as.map TypeNode.pieces) ++ here =
      .sign .less :: (separated .comma (as.map TypeNode.pieces) ++ .close :: here) := by
    cases as with
    | nil => exact absurd rfl hne
    | cons a as => simp [TypeNode.argPieces]
  rw [hpieces]
  refine .bind (.expect (by decide) rfl) fun _ _ => .read (reads_check _) fun _ => ?_
  rw [Bool.false_and, if_neg Bool.false_ne_true]
  refine .bind (.commaSeparated (by simp) (lets_typeFollow here) hne fun a ha rest hrest =>
    takes_typeArg hg (h a ha) hrest) fun bs hbs => ?_
  exact .bind .expectGreater fun _ _ => .pure ⟨hbs, rfl⟩

/-- What `classTypeFrom` does behind a segment. -/
def moreSegments (g : Grammar) (diamond : Bool) (start : Position) (t : TypeNode) (fuel : Nat) :
    Parser TypeNode := do
  if (← check .dot) && ((← checkAt 1 .identifier) || (← checkAt 1 .at)) then
    let _ ← advance
    classTypeFrom g diamond start (some t) fuel
  else return t

theorem takes_noMoreSegments (h : firstKind rest ≠ .dot) (start : Position) (t : TypeNode)
    (fuel : Nat) : Takes (moreSegments g false start t fuel) rest rest (· = t) := by
  unfold moreSegments
  refine .check (by decide) (.read (reads_checkAt _ _) fun _ => .read (reads_checkAt _ _) fun _ => ?_)
  rw [beq_eq_false_iff_ne.2 h, Bool.false_and, if_neg Bool.false_ne_true]
  exact .pure rfl

/-- One segment, and what follows it. -/
theorem takes_segment (hg : TakesTypes g) {q : Option TypeNode} {name : Ident}
    {as : List TypeNode} (h : ∀ a ∈ as, a.Plain named true) (hrest : firstKind rest ≠ .less)
    {start : Position} {fuel : Nat} {Q : TypeNode → Prop}
    (hmore : ∀ u fuel, u.bare = .cls {} [] (TypeNode.bareOption q) ⟨{}, name.name⟩
      (as.map TypeNode.bare) false → Takes (moreSegments g false start u fuel) rest there Q) :
    Takes (classTypeFrom g false start q fuel)
      (.word name.name :: (TypeNode.argPieces (as.map TypeNode.pieces) ++ rest)) there Q := by
  cases fuel with
  | zero => exact .exhausted
  | succ fuel =>
    unfold classTypeFrom
    have hend {u : Ident} (hu : u.name = name.name) {bs : List TypeNode} {diamond : Bool}
        (hbs : bs.map TypeNode.bare = as.map TypeNode.bare) (hdiamond : diamond = false) :
        Takes (do
          let i ← infoFrom start
          moreSegments g false start (.cls i [] q u bs diamond) fuel) rest there Q := by
      refine .bind (.infoFrom start) fun i _ => hmore _ _ ?_
      rw [TypeNode.bare, TypeNode.bareList_eq_map, hu, hbs, hdiamond]
    refine .bind .annotsHere fun annots hannots => .bind .ident fun u hu => ?_
    rw [hannots]
    refine .check (by decide) ?_
    cases as with
    | nil =>
      rw [if_neg (by simpa [TypeNode.argPieces] using hrest)]
      exact hend hu rfl rfl
    | cons a as =>
      rw [if_pos (by rfl)]
      exact .bind (takes_typeArgs hg (by simp) h) fun x hx => hend hu hx.1 hx.2

theorem takes_moreSegments {name : Text} {ps : List Piece} {start : Position} {t : TypeNode}
    {fuel : Nat} {Q : TypeNode → Prop}
    (h : Takes (classTypeFrom g false start (some t) fuel) (.word name :: ps) there Q) :
    Takes (moreSegments g false start t fuel) (.sign .dot :: .word name :: ps) there Q := by
  unfold moreSegments
  refine .check (by decide) (.checkNext (by decide) (.read (reads_checkAt _ _) fun _ => ?_))
  rw [if_pos (by rfl)]
  exact .bind .advance fun _ _ => h

/-- The segments of a class type, and what follows the last one. The induction is on the qualifier,
so what is done behind a segment is left open. -/
theorem takes_segments (hg : TakesTypes g) {t : TypeNode} (h : t.Plain named false)
    (hcls : t.isClass) {rest : List Piece} {start : Position} {fuel : Nat} {Q : TypeNode → Prop}
    (hrest : firstKind rest ≠ .less)
    (hmore : ∀ u fuel, u.bare = t.bare → Takes (moreSegments g false start u fuel) rest there Q) :
    Takes (classTypeFrom g false start none fuel) (t.pieces ++ rest) there Q := by
  match t, h with
  | .cls _ _ none name args _, .simple _ hargs =>
    rw [TypeNode.pieces, TypeNode.piecesList_eq_map]
    refine takes_segment hg hargs hrest fun u fuel hu => hmore u fuel ?_
    rw [hu, TypeNode.bare, TypeNode.bareList_eq_map]
  | .cls _ _ (some q) name args _, .qualified hqcls hq _ hargs =>
    rw [TypeNode.pieces, TypeNode.piecesList_eq_map, TypeNode.qualifierPieces, List.append_assoc,
      List.append_assoc]
    refine takes_segments hg hq hqcls (by simp) fun u fuel hu => ?_
    refine takes_moreSegments (takes_segment hg hargs hrest fun v fuel hv => hmore v fuel ?_)
    rw [hv, TypeNode.bare, TypeNode.bareList_eq_map, TypeNode.bareOption, hu, TypeNode.bareOption]

theorem takes_classType (hg : TakesTypes g) {t : TypeNode} (h : t.Plain named false)
    (hcls : t.isClass) (hless : firstKind rest ≠ .less) (hdot : firstKind rest ≠ .dot) :
    Takes (classType g false) (t.pieces ++ rest) rest (·.bare = t.bare) :=
  .read reads_startPos fun start => .read (fun _ s => ⟨s.tokens.size - s.pos + 1, rfl⟩) fun _ =>
    takes_segments hg h hcls hless fun u fuel hu =>
      (takes_noMoreSegments hdot start u fuel).mono fun _ hv => hv ▸ hu

/-! ## The rule for types -/

theorem withAnnots_nil (t : TypeNode) : withAnnots [] t = t := by
  cases t <;> rfl

theorem takes_typeRule (hg : TakesTypes g) {t : TypeNode} (h : t.Plain named false)
    (hrest : typeFollow rest) : Takes (typeRule g) (t.pieces ++ rest) rest (·.bare = t.bare) := by
  obtain ⟨e, k, he, hne, hbare, hpieces⟩ := exists_element h
  have hend {u : TypeNode} (hu : u.bare = e.bare) :
      Takes (dimensions g u) (dimensionPieces k ++ rest) rest (·.bare = t.bare) := by
    rw [hbare, ← hu]
    exact takes_dimensions hrest.2.2.1 k u
  rw [hpieces, List.append_assoc]
  unfold typeRule
  refine .bind .annotsHere fun annots hannots => .peek fun x hx => ?_
  rw [hannots]
  match e, he with
  | .primitive _ b, .primitive hb =>
    obtain ⟨kind, hkind⟩ := Option.isSome_iff_exists.1 hb
    rw [TypeNode.pieces, hkind] at hx ⊢
    have hxkind : x.kind = kind := congrArg Lexeme.kind hx
    rw [hxkind, primitiveOf?_keyword hkind]
    exact .bind .advance fun y _ => .bind (.newInfo _) fun i _ => hend rfl
  | .cls i a q name args d, he =>
    have hkind : x.kind = .identifier := by
      have hfirst := firstKind_class he rfl (dimensionPieces k ++ rest)
      rw [hx.kind_eq (by rw [hfirst]; decide), hfirst]
    have hbehind : firstKind (dimensionPieces k ++ rest) ≠ .less ∧
        firstKind (dimensionPieces k ++ rest) ≠ .dot := by
      cases k with
      | zero => exact ⟨hrest.2.1, hrest.1⟩
      | succ k => exact ⟨nofun, nofun⟩
    rw [hkind]
    refine .bind (takes_classType hg he rfl hbehind.1 hbehind.2) fun u hu => ?_
    rw [withAnnots_nil]
    exact hend hu
  | .array i e, _ => exact absurd rfl (hne i e)

theorem takesTypes_grammar (n : Nat) : TakesTypes (grammar n) := by
  induction n with
  | zero => exact fun _ _ _ => .exhausted
  | succ n ih => exact fun h _ hrest => takes_typeRule ih h hrest

end

end Parse

namespace TypeNode

variable {named : Text → Prop} {isArg : Bool} {t : TypeNode}

theorem forall_mem_argPieces {P : Parse.Piece → Prop} (hless : P (.sign .less))
    (hcomma : P (.sign .comma)) (hclose : P .close) {pss : List (List Parse.Piece)}
    (h : ∀ ps ∈ pss, ∀ p ∈ ps, P p) : ∀ p ∈ argPieces pss, P p := by
  cases pss with
  | nil => simp [argPieces]
  | cons ps pss =>
    obtain ⟨hps, hpss⟩ := List.forall_mem_cons.1 h
    simp only [argPieces, Parse.separated, Parse.eachBehind, List.forall_mem_cons,
      List.forall_mem_append, List.mem_flatMap, forall_exists_index, and_imp]
    exact ⟨hless, ⟨hps, fun p qs hqs hp => (List.mem_cons.1 hp).elim (· ▸ hcomma) (hpss qs hqs p)⟩,
      hclose, by simp⟩

/-- The kinds of tokens that plain types are written with. -/
def tokenKinds : List Token.Kind :=
  [.identifier, .kwBoolean, .kwByte, .kwChar, .kwShort, .kwInt, .kwLong, .kwFloat, .kwDouble, .dot,
    .less, .comma, .greater, .lbracket, .rbracket, .question, .kwExtends, .kwSuper]

theorem kind_pieces (h : t.Plain named isArg) : ∀ p ∈ t.pieces, p.kind ∈ tokenKinds := by
  have hargs {args : List TypeNode} (h : ∀ a ∈ args, ∀ p ∈ a.pieces, p.kind ∈ tokenKinds) :
      ∀ p ∈ argPieces (args.map pieces), p.kind ∈ tokenKinds :=
    forall_mem_argPieces (by decide) (by decide) (by decide) (List.forall_mem_map.2 h)
  have hword (name : Text) : (Parse.Piece.word name).kind ∈ tokenKinds :=
    show Token.Kind.identifier ∈ tokenKinds by decide
  induction h with
  | @primitive _ _ b _ => cases b <;> simp [pieces, BasicType.keyword?, tokenKinds]
  | simple _ _ ih =>
    rw [pieces, piecesList_eq_map]
    exact List.forall_mem_cons.2 ⟨hword _, hargs ih⟩
  | qualified _ _ _ _ ihq ih =>
    rw [pieces, piecesList_eq_map, qualifierPieces, List.append_assoc, List.singleton_append,
      List.forall_mem_append, List.forall_mem_cons, List.forall_mem_cons]
    exact ⟨ihq, by decide, hword _, hargs ih⟩
  | array _ ih =>
    rw [pieces, List.forall_mem_append]
    exact ⟨ih, by simp [tokenKinds]⟩
  | unbounded => simp [pieces, boundPieces, tokenKinds]
  | @bounded _ b isLower _ ih =>
    rw [pieces, boundPieces, List.forall_mem_cons, List.forall_mem_cons]
    exact ⟨by decide, by cases isLower <;> decide, ih⟩

end TypeNode

end Javelin
