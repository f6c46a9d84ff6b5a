import Mathlib.Data.List.Chain
import Javelin.Parse.Basic
import Javelin.Syntax.Node

/-!
# The states of a parse

What stays the same during a parse is its setting: the tokens, the numbers that are given out, and
the drafts that are open. A parser that succeeds leaves the drafts of its setting open and no other
ones; a parser that fails may leave further ones, each in the place where it belongs.

1. Drafts by number and kind, and which kind can stand in which.
2. Settings, and the states that fit them.
3. Later states.
-/

/-!
## Trees without marks

A tree is unmarked when no node in it has a flag. A node that is put together from unmarked parts
with fresh information is unmarked again, whatever its kind (`Unmarked.mk`); for the nodes that grow
while they are parsed (bodies, declarations and source files) the parts are listed.
-/

namespace Javelin.Node

/-- Neither the node nor any node below it has a flag. -/
inductive Unmarked : Node → Prop
  | mk {n : Node} : n.info.flags = {} → (∀ c ∈ n.children, Unmarked c) → Unmarked n

theorem unmarked_iff {n : Node} :
    n.Unmarked ↔ n.info.flags = {} ∧ ∀ c ∈ n.children, c.Unmarked :=
  ⟨fun ⟨hi, hc⟩ => ⟨hi, hc⟩, fun h => .mk h.1 h.2⟩

theorem Unmarked.flags {n : Node} (h : n.Unmarked) : n.info.flags = {} := (unmarked_iff.1 h).1

/-- All nodes of an unmarked tree are without flags. -/
theorem Unmarked.preorder {depth : Nat} : ∀ {n : Node}, n.Unmarked →
    ∀ m ∈ n.preorder depth, m.info.flags = {} := by
  induction depth with
  | zero => simp [Node.preorder]
  | succ depth ih =>
    intro n h m hm
    obtain ⟨hi, hc⟩ := unmarked_iff.1 h
    rw [Node.preorder, List.mem_cons, List.mem_flatMap] at hm
    obtain rfl | ⟨c, hmem, hm⟩ := hm
    · exact hi
    · exact ih (hc c hmem) m hm

/-- Nodes in an optional place. -/
@[simp]
theorem forall_mem_option {α : Type} {f : α → Node} {p : Node → Prop} {o : Option α} :
    (∀ c ∈ (o.map f).toList, p c) ↔ ∀ a ∈ o, p (f a) := by
  cases o <;> simp

attribute [local simp] children info

theorem unmarked_ident {n : Ident} : (Node.ident n).Unmarked ↔ n.info.flags = {} := by
  rw [unmarked_iff]
  simp

theorem unmarked_block {b : Block} : (ofBlock b).Unmarked ↔
    b.info.flags = {} ∧ ∀ s ∈ b.stmts, (Node.stmt s).Unmarked := by
  rw [unmarked_iff]
  simp [ofBlock, ofStmt, Stmt.info]

theorem unmarked_param {p : Param} : (param p).Unmarked ↔
    p.info.flags = {} ∧ (∀ m ∈ p.modifiers, (modifiers m).Unmarked) ∧
      (∀ t ∈ p.type, (type t).Unmarked) ∧ (ident p.name).Unmarked := by
  rw [unmarked_iff]
  simp only [children, info, List.forall_mem_append, forall_mem_option, List.forall_mem_singleton,
    and_assoc]

theorem forall_mem_ofVarDecl {d : VarDecl} : (∀ c ∈ ofVarDecl d, c.Unmarked) ↔
    (∀ m ∈ d.modifiers, (modifiers m).Unmarked) ∧ (type d.type).Unmarked ∧
      ∀ v ∈ d.vars, (declarator v).Unmarked := by
  simp only [ofVarDecl, List.forall_mem_append, forall_mem_option, List.forall_mem_map,
    List.forall_mem_singleton, and_assoc]

theorem unmarked_locals {d : VarDecl} : (ofLocals d).Unmarked ↔
    d.info.flags = {} ∧ (∀ m ∈ d.modifiers, (modifiers m).Unmarked) ∧ (type d.type).Unmarked ∧
      ∀ v ∈ d.vars, (declarator v).Unmarked := by
  rw [unmarked_iff, ← forall_mem_ofVarDecl]
  rfl

theorem unmarked_declarator {v : VarDeclarator} : (declarator v).Unmarked ↔
    v.info.flags = {} ∧ (ident v.name).Unmarked ∧ ∀ x ∈ v.init, (expr x).Unmarked := by
  rw [unmarked_iff]
  simp only [children, info, List.forall_mem_cons, forall_mem_option]

theorem unmarked_typeDecl {d : TypeDecl} : (Node.typeDecl d).Unmarked ↔
    d.info.flags = {} ∧ (∀ m ∈ d.modifiers, (modifiers m).Unmarked) ∧
      (∀ n ∈ d.name, (ident n).Unmarked) ∧ (∀ p ∈ d.typeParams, (typeParam p).Unmarked) ∧
      (∀ p ∈ d.components, (param p).Unmarked) ∧ (∀ t ∈ d.superclass, (type t).Unmarked) ∧
      (∀ t ∈ d.interfaces, (type t).Unmarked) ∧ (∀ t ∈ d.permits, (type t).Unmarked) ∧
      (∀ c ∈ d.constants, (constant c).Unmarked) ∧ ∀ m ∈ d.members, (ofMember m).Unmarked := by
  rw [unmarked_iff]
  simp only [children, ofTypeDecl, info, List.forall_mem_append, forall_mem_option,
    List.forall_mem_map, and_assoc]

theorem unmarked_method {d : MethodDecl} : (Node.method d).Unmarked ↔
    d.info.flags = {} ∧ (∀ m ∈ d.modifiers, (modifiers m).Unmarked) ∧
      (∀ p ∈ d.typeParams, (typeParam p).Unmarked) ∧ (∀ t ∈ d.result, (type t).Unmarked) ∧
      (ident d.name).Unmarked ∧ (∀ p ∈ d.receiver, (param p).Unmarked) ∧
      (∀ p ∈ d.params, (param p).Unmarked) ∧ (∀ t ∈ d.throws, (type t).Unmarked) ∧
      (∀ b ∈ d.body, (ofBlock b).Unmarked) ∧ ∀ x ∈ d.default, (expr x).Unmarked := by
  rw [unmarked_iff]
  simp only [children, ofMethod, info, List.forall_mem_append, forall_mem_option,
    List.forall_mem_map, List.forall_mem_singleton, and_assoc]

theorem unmarked_unit {u : CompilationUnit} : (Node.unit u).Unmarked ↔
    u.info.flags = {} ∧ (∀ p ∈ u.package, (package p).Unmarked) ∧
      (∀ d ∈ u.imports, («import» d).Unmarked) ∧ (∀ m ∈ u.module, (module m).Unmarked) ∧
      ∀ d ∈ u.types, (typeDecl d).Unmarked := by
  rw [unmarked_iff]
  simp only [children, info, List.forall_mem_append, forall_mem_option, List.forall_mem_map,
    and_assoc]

end Javelin.Node

namespace Javelin.Parse

/-! ## Drafts -/

/-- The kinds of drafts. -/
inductive Draft.Kind where
  | unit | type | method | initializer | block | field | locals
deriving DecidableEq

def Draft.kind : Draft → Draft.Kind
  | .unit _ => .unit
  | .type _ => .type
  | .method _ => .method
  | .initializer .. => .initializer
  | .block _ => .block
  | .field _ => .field
  | .locals _ => .locals

/-- Which drafts can stand in which. -/
def Draft.Kind.hosts : Draft.Kind → Draft.Kind → Bool
  | .unit, .type => true
  | .type, .type | .type, .method | .type, .initializer => true
  | .method, .type | .initializer, .type | .block, .type => true
  | .method, .block | .initializer, .block | .block, .block => true
  | _, _ => false

/-- Local types stand where blocks do. -/
theorem Draft.Kind.hosts_type {k : Draft.Kind} (h : k.hosts .block = true) :
    k.hosts .type = true := by
  cases k <;> first | rfl | cases h

/-- Where a method can stand any member can. -/
theorem Draft.Kind.hosts_member {k : Draft.Kind} (h : k.hosts .method = true) :
    k.hosts .initializer = true ∧ k.hosts .type = true := by
  cases k <;> first | exact ⟨rfl, rfl⟩ | cases h

/-- What of a draft does not change while it grows. -/
structure Slot where
  id : Nat
  kind : Draft.Kind

def Draft.slot (d : Draft) : Slot := ⟨d.info.id, d.kind⟩

/-! ## Settings -/

/-- What stays the same during a parse: its tokens, of which the last one and no other is the end;
an offset that no token to come stands before; the first number that nodes made by it can have; the
drafts that are open, innermost first; and whether further ones may be kept. -/
structure Setting where
  tokens : Array Token
  least : Nat
  base : Nat
  opened : List Slot
  keeps : Bool
  nonempty : 0 < tokens.size
  closed : ∀ i < tokens.size, (tokens.getD i default).kind = .eof ↔ i + 1 = tokens.size
  earlier : ∀ x ∈ opened, x.id < base
  nested : opened.IsChain fun inner outer => outer.kind.hosts inner.kind = true

namespace Setting

variable {v w : Setting}

/-- A setting in which more has been numbered or opened. -/
structure Within (v w : Setting) : Prop where
  tokens : w.tokens = v.tokens
  least : w.least = v.least
  base : v.base ≤ w.base
  opened : v.opened <:+ w.opened

/-- A number that was given out for a draft which is not open yet. -/
def Fresh (v : Setting) (id : Nat) : Prop := (∀ x ∈ v.opened, x.id < id) ∧ id < v.base

/-- A draft of the given kind can be opened here, if drafts are kept at all. -/
def Admits (v : Setting) (k : Draft.Kind) : Prop :=
  v.keeps = true → ∀ x ∈ v.opened.head?, x.kind.hosts k = true

/-- No other draft than the given one is innermost with its number. -/
def Knows (v : Setting) (x : Slot) : Prop := ∀ y ∈ v.opened.head?, y.id = x.id → y = x

/-- The setting of the body of a draft, which is the innermost one if it was kept. -/
structure Inside (v : Setting) (x : Slot) : Prop where
  innermost : v.keeps = true → v.opened.head? = some x
  knows : v.Knows x

/-- The setting in which no further drafts are kept. -/
def off (v : Setting) : Setting := { v with keeps := false }

/-- The setting after a number was given out. -/
def after (v : Setting) (id : Nat) : Setting :=
  { v with
    base := max v.base (id + 1)
    earlier := fun x hx => Nat.lt_of_lt_of_le (v.earlier x hx) (Nat.le_max_left _ _) }

/-- The setting inside a further draft. -/
def push (v : Setting) (x : Slot) (hid : x.id < v.base)
    (hhosts : ∀ y ∈ v.opened.head?, y.kind.hosts x.kind = true) : Setting :=
  { v with
    opened := x :: v.opened
    earlier := List.forall_mem_cons.2 ⟨hid, v.earlier⟩
    nested := List.isChain_cons.2 ⟨hhosts, v.nested⟩ }

theorem Within.refl : v.Within v := ⟨rfl, rfl, Nat.le_refl _, List.suffix_rfl⟩

theorem Within.trans {u : Setting} (h : v.Within w) (h' : w.Within u) : v.Within u :=
  ⟨h'.tokens.trans h.tokens, h'.least.trans h.least, h.base.trans h'.base,
    h.opened.trans h'.opened⟩

theorem within_off : v.Within v.off := ⟨rfl, rfl, Nat.le_refl _, List.suffix_rfl⟩

theorem off_within : v.off.Within v := ⟨rfl, rfl, Nat.le_refl _, List.suffix_rfl⟩

theorem within_after {id : Nat} : v.Within (v.after id) :=
  ⟨rfl, rfl, Nat.le_max_left _ _, List.suffix_rfl⟩

theorem within_push {x : Slot} {hid hhosts} : v.Within (v.push x hid hhosts) :=
  ⟨rfl, rfl, Nat.le_refl _, List.suffix_cons _ _⟩

theorem fresh_after {id : Nat} (h : v.base ≤ id) : (v.after id).Fresh id :=
  ⟨fun x hx => Nat.lt_of_lt_of_le (v.earlier x hx) h, Nat.le_max_right _ _⟩

/-- Where drafts are not kept, nothing is asked. -/
theorem admits_of_keeps {k : Draft.Kind} (h : v.keeps = false) : v.Admits k :=
  fun hkeeps => absurd (h.symm.trans hkeeps) Bool.false_ne_true

theorem admits_of_opened {k : Draft.Kind} (h : v.opened = []) : v.Admits k := by
  simp [Admits, h]

theorem Admits.after {k : Draft.Kind} {id : Nat} (h : v.Admits k) : (v.after id).Admits k := h

theorem Admits.imp {k k' : Draft.Kind} (h : v.Admits k)
    (himp : ∀ x : Draft.Kind, x.hosts k = true → x.hosts k' = true) : v.Admits k' :=
  fun hkeeps x hx => himp _ (h hkeeps x hx)

theorem Inside.admits {x : Slot} {k : Draft.Kind} (h : v.Inside x) (hk : x.kind.hosts k = true) :
    v.Admits k := by
  intro hkeeps y hy
  rw [h.innermost hkeeps, Option.mem_def, Option.some.injEq] at hy
  exact hy ▸ hk

theorem inside_push {x : Slot} {hid hhosts} : (v.push x hid hhosts).Inside x :=
  ⟨fun _ => rfl, fun _ hy _ => (Option.some.inj hy).symm⟩

/-- A draft that was not opened is not innermost. -/
theorem Fresh.knows {x : Slot} (h : v.Fresh x.id) : v.Knows x := fun y hy hid =>
  absurd hid (Nat.ne_of_lt (h.1 y (List.mem_of_mem_head? hy)))

theorem Fresh.inside_off {x : Slot} (h : v.Fresh x.id) : v.off.Inside x :=
  ⟨fun hkeeps => Bool.noConfusion hkeeps, h.knows⟩

end Setting

/-- Drafts are kept, and are kept here. -/
def Context.keeps (c : Context) : Bool := !(c.recovering || c.inExpression)

/-- A context that keeps drafts only where the setting does. -/
def Setting.Suits (v : Setting) (c : Context) : Prop := c.keeps = true → v.keeps = true

/-- A word that can stand in a list of modifiers. -/
def isModifierWord (t : Token) : Bool :=
  t.isWord "sealed" || match t.kind with
    | .kwPublic | .kwProtected | .kwPrivate | .kwStatic | .kwFinal | .kwAbstract | .kwNative
    | .kwSynchronized | .kwTransient | .kwVolatile | .kwStrictfp | .nonSealed | .kwDefault => true
    | _ => false

/-- A modifier stands before a place, and from there on to the place stand only modifiers, up to the
first annotation. -/
def Setting.Given (v : Setting) (m : Modifier) (place : Nat) : Prop :=
  ∃ i < place, Modifier.ofName? (v.tokens.getD i default).literal = some m ∧
    ∀ k, i < k → k < place → isModifierWord (v.tokens.getD k default) = true ∨
      ∃ l, i < l ∧ l ≤ k ∧ (v.tokens.getD l default).kind = .at

/-- A modifier that was given before in its list. -/
def Setting.Repeats (v : Setting) (t : Token) : Prop :=
  ∃ j < v.tokens.size, v.tokens.getD j default = t ∧
    ∃ m, Modifier.ofName? t.literal = some m ∧ v.Given m j

/-- The problem of a modifier that is given again. -/
def repeatedModifier (file : Text) (t : Token) : Problem :=
  .new .syntaxErrorDeleteToken (.ofSpan file t.span) [t.literal]

theorem afterGreater?_ne_eof {k k' : Token.Kind} (h : afterGreater? k = some k') :
    k ≠ .eof ∧ k' ≠ .eof := by
  cases k <;> cases h <;> decide

namespace State

/-- An error is on record and counted. -/
def Recorded (s : State) : Prop := 0 < s.errorCount ∧ ∃ p ∈ s.problems, p.isError = true

/-- An error is on record, or something is missing at the end, which is reported later. -/
def Reported (s : State) : Prop := s.Recorded ∨ s.missingAtEnd.isEmpty = false

/-- The number of tokens before the end that are still to come. -/
def left (s : State) : Nat := s.tokens.size - 1 - s.pos

/-- A state that a parse in the given setting can be in. -/
structure Fits (v : Setting) (s : State) : Prop where
  tokens : s.tokens = v.tokens
  pos : s.pos < v.tokens.size
  behind : ∀ i, s.pos ≤ i → i < v.tokens.size →
    v.least ≤ (v.tokens.getD i default).span.start.offset
  splits : ∀ i t, s.splits.get? i = some t →
    (∃ k, afterGreater? k = some t.kind) ∧ i + 1 < v.tokens.size ∧ v.least ≤ t.span.start.offset
  ids : v.base ≤ s.nextId
  noted : s.lastError.isSome → s.Reported
  starts : ∀ d ∈ s.drafts, d.childStart < v.tokens.size
  opened : s.drafts.map (fun d => d.draft.slot) = v.opened

/-- Of two states of a parser that looks ahead: between them nothing was reported but modifiers
given again. -/
structure Quiet (v : Setting) (file : Text) (s s' : State) : Prop where
  lexer : s'.lexer = s.lexer
  lastError : s'.lastError = s.lastError
  missingAtEnd : s'.missingAtEnd = s.missingAtEnd
  reports : ∃ ts : List Token, (∀ t ∈ ts, v.Repeats t) ∧
    s'.problems = s.problems ++ (ts.map (repeatedModifier file)).toArray ∧
    s'.errorCount = s.errorCount + ts.length

/-- Of the states before and after looking ahead: nothing is left but numbers that were given out,
and reports of modifiers given again. -/
structure Traceless (v : Setting) (file : Text) (s s' : State) : Prop extends
    Quiet v file s s' where
  tokens : s'.tokens = s.tokens
  pos : s'.pos = s.pos
  splits : s'.splits = s.splits
  drafts : s'.drafts = s.drafts

/-- A later state. -/
structure Goes (v : Setting) (c : Context) (s s' : State) : Prop where
  fits : s'.Fits v
  recorded : s.Recorded → s'.Recorded
  missing : s.missingAtEnd.isEmpty = false → s'.missingAtEnd.isEmpty = false
  quiet : c.speculating = true → s.Quiet v c.file s'

/-- A state that a failure leaves, perhaps inside further drafts. -/
def Fails (v : Setting) (c : Context) (s s' : State) : Prop := ∃ w, v.Within w ∧ s.Goes w c s'

/-- A later state, with `δ` tokens taken at least. -/
structure Leads (v : Setting) (c : Context) (s s' : State) (δ : Nat) : Prop extends
    Goes v c s s' where
  taken : s'.left + δ ≤ s.left

/-- A later state at the same token. -/
structure Stays (v : Setting) (c : Context) (s s' : State) : Prop extends Goes v c s s' where
  pos : s'.pos = s.pos
  splits : s'.splits = s.splits

variable {v w : Setting} {c : Context} {s s' s'' : State}

/-- What is not reported leaves no trace. -/
theorem Quiet.silent {file : Text} (hlexer : s'.lexer = s.lexer)
    (hlast : s'.lastError = s.lastError) (hmissing : s'.missingAtEnd = s.missingAtEnd)
    (hproblems : s'.problems = s.problems) (hcount : s'.errorCount = s.errorCount) :
    s.Quiet v file s' :=
  ⟨hlexer, hlast, hmissing, [], by simp, by simpa using hproblems, hcount⟩

theorem Quiet.refl {file : Text} : s.Quiet v file s := .silent rfl rfl rfl rfl rfl

theorem Traceless.refl {file : Text} : s.Traceless v file s := ⟨.refl, rfl, rfl, rfl, rfl⟩

theorem Quiet.trans {file : Text} (h : s.Quiet v file s') (h' : s'.Quiet v file s'') :
    s.Quiet v file s'' := by
  obtain ⟨ts, hts, hproblems, hcount⟩ := h.reports
  obtain ⟨ts', hts', hproblems', hcount'⟩ := h'.reports
  refine ⟨h'.lexer.trans h.lexer, h'.lastError.trans h.lastError,
    h'.missingAtEnd.trans h.missingAtEnd, ts ++ ts', List.forall_mem_append.2 ⟨hts, hts'⟩, ?_, ?_⟩
  · simp [hproblems', hproblems]
  · rw [hcount', hcount, List.length_append, Nat.add_assoc]

/-- What is given again depends on the tokens only. -/
theorem Quiet.within {file : Text} (hw : w.tokens = v.tokens) (h : s.Quiet v file s') :
    s.Quiet w file s' := by
  obtain ⟨hlexer, hlast, hmissing, ts, hts, hreports⟩ := h
  refine ⟨hlexer, hlast, hmissing, ts, fun t ht => ?_, hreports⟩
  unfold Setting.Repeats Setting.Given
  rw [hw]
  exact hts t ht

theorem Goes.refl (hs : s.Fits v) : s.Goes v c s := ⟨hs, id, id, fun _ => .refl⟩

theorem Goes.trans (h : s.Goes v c s') (h' : s'.Goes v c s'') : s.Goes v c s'' :=
  ⟨h'.fits, h'.recorded ∘ h.recorded, h'.missing ∘ h.missing,
    fun hc => (h.quiet hc).trans (h'.quiet hc)⟩

theorem Goes.reported (h : s.Goes v c s') : s.Reported → s'.Reported := Or.imp h.recorded h.missing

/-- Looking ahead is quiet in every context. -/
theorem Goes.outside (h : s.Goes v { c with speculating := true } s') : s.Goes v c s' :=
  ⟨h.fits, h.recorded, h.missing, fun _ => h.quiet rfl⟩

/-- With the same drafts open a state fits a setting in which less has been numbered. -/
theorem Fits.widen (hw : v.Within w) (hopened : w.opened = v.opened) (h : s.Fits w) : s.Fits v where
  tokens := h.tokens.trans hw.tokens
  pos := hw.tokens ▸ h.pos
  behind := hw.tokens ▸ hw.least ▸ h.behind
  splits := hw.tokens ▸ hw.least ▸ h.splits
  ids := hw.base.trans h.ids
  noted := h.noted
  starts := hw.tokens ▸ h.starts
  opened := h.opened.trans hopened

theorem Goes.widen (hw : v.Within w) (hopened : w.opened = v.opened) (h : s.Goes w c s') :
    s.Goes v c s' :=
  ⟨h.fits.widen hw hopened, h.recorded, h.missing, fun hc => (h.quiet hc).within hw.tokens.symm⟩

theorem Goes.fails (h : s.Goes v c s') : s.Fails v c s' := ⟨v, .refl, h⟩

theorem Fails.widen (hw : v.Within w) (h : s.Fails w c s') : s.Fails v c s' := by
  obtain ⟨u, hu, hgoes⟩ := h
  exact ⟨u, hw.trans hu, hgoes⟩

theorem Goes.thenFails (h : s.Goes v c s') (h' : s'.Fails v c s'') : s.Fails v c s'' := by
  obtain ⟨w, hw, hgoes⟩ := h'
  exact ⟨w, hw, hgoes.fits, hgoes.recorded ∘ h.recorded, hgoes.missing ∘ h.missing, fun hc =>
    ((h.quiet hc).within hw.tokens).trans (hgoes.quiet hc)⟩

/-- A token that is not what is left of a longer one stands in the text. -/
theorem Fits.current_eq (h : s.Fits v) (hk : ∀ k, afterGreater? k ≠ some s.current.kind) :
    s.current = v.tokens.getD s.pos default := by
  have hpos := h.pos
  have hmin : min s.pos (s.tokens.size - 1) = s.pos := by
    rw [h.tokens]
    omega
  unfold current token at hk ⊢
  dsimp only at hk ⊢
  rw [hmin] at hk ⊢
  rw [← h.tokens]
  split at hk
  next hempty => rw [if_pos hempty]
  next hsome =>
    rw [if_neg hsome]
    cases hsplit : s.splits.get? s.pos with
    | none => rfl
    | some t =>
      obtain ⟨⟨k, hafter⟩, -⟩ := h.splits _ t hsplit
      rw [hsplit] at hk
      exact absurd hafter (hk k)

/-- Exactly the last token is the end. -/
theorem Fits.token_eof (h : s.Fits v) (i : Nat) :
    (s.token i).kind = .eof ↔ v.tokens.size ≤ i + 1 := by
  have hsize := v.nonempty
  have hplain : (s.tokens.getD (min i (s.tokens.size - 1)) default).kind = .eof ↔
      v.tokens.size ≤ i + 1 := by
    rw [h.tokens, v.closed _ (by omega)]
    omega
  unfold token
  dsimp only
  split
  · exact hplain
  · cases hsplit : s.splits.get? (min i (s.tokens.size - 1)) with
    | none => exact hplain
    | some t =>
      obtain ⟨⟨k, hafter⟩, hlt, -⟩ := h.splits _ t hsplit
      rw [h.tokens] at hlt
      exact iff_of_false (afterGreater?_ne_eof hafter).2 (by omega)

theorem Fits.least_le (h : s.Fits v) : v.least ≤ s.current.span.start.offset := by
  have hpos := h.pos
  have hmin : min s.pos (s.tokens.size - 1) = s.pos := by
    rw [h.tokens]
    omega
  have hbehind := h.behind s.pos (Nat.le_refl _) hpos
  unfold current token
  dsimp only
  rw [hmin, h.tokens]
  generalize v.tokens.getD s.pos default = t at hbehind ⊢
  split
  · exact hbehind
  · cases hsplit : s.splits.get? s.pos with
    | none => exact hbehind
    | some t => exact (h.splits _ t hsplit).2.2

theorem Fits.current_eof (h : s.Fits v) : s.current.kind = .eof ↔ s.left = 0 := by
  have hpos := h.pos
  rw [current, h.token_eof, left, h.tokens]
  omega

theorem Stays.current (hs : s.Fits v) (h : s.Stays v c s') : s'.current = s.current := by
  simp only [State.current, token, h.pos, h.splits, h.fits.tokens, hs.tokens]

theorem Stays.left_eq (hs : s.Fits v) (h : s.Stays v c s') : s'.left = s.left := by
  simp only [left, h.pos, h.fits.tokens, hs.tokens]

theorem Stays.leads (hs : s.Fits v) (h : s.Stays v c s') : s.Leads v c s' 0 :=
  ⟨h.toGoes, Nat.le_of_eq (h.left_eq hs)⟩

theorem Stays.refl (hs : s.Fits v) : s.Stays v c s := ⟨.refl hs, rfl, rfl⟩

theorem Stays.trans (h : s.Stays v c s') (h' : s'.Stays v c s'') : s.Stays v c s'' :=
  ⟨h.toGoes.trans h'.toGoes, h'.pos.trans h.pos, h'.splits.trans h.splits⟩

theorem Leads.refl (hs : s.Fits v) : s.Leads v c s 0 := ⟨.refl hs, Nat.le_refl _⟩

theorem Leads.trans {δ ε : Nat} (h : s.Leads v c s' δ) (h' : s'.Leads v c s'' ε) :
    s.Leads v c s'' (δ + ε) :=
  ⟨h.toGoes.trans h'.toGoes, by have := h.taken; have := h'.taken; omega⟩

theorem Leads.mono {δ ε : Nat} (h : s.Leads v c s' δ) (hle : ε ≤ δ) : s.Leads v c s' ε :=
  ⟨h.toGoes, by have := h.taken; omega⟩

end State

end Javelin.Parse
