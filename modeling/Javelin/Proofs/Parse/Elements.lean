import Javelin.Parse.Recovery
import Javelin.Proofs.Parse.Moves
import Mathlib.Data.List.Chain
import Mathlib.Data.List.Forall2

/-!
# What recovery keeps of open declarations

A draft grows while recovery goes on: children join it behind those that it has. When an element is
closed it joins the element around it, which had no other child meanwhile.

1. Drafts that grow, and drafts that a closed one has joined.
2. `Draft.Holds`: all that some nested drafts held, in the draft of the outermost one.
3. `Tracks`: how the stack of elements stands to the drafts that recovery began with.
-/

namespace Javelin.Parse

/-! ## Growing -/

/-- Some items with further ones behind them, which start at an offset or later. -/
def Adds {α : Type} (k : Nat) (info : α → Info) (l l' : List α) : Prop :=
  ∃ new, l' = l ++ new ∧ ∀ x ∈ new, k ≤ (info x).span.start.offset

namespace Adds

variable {α : Type} {k : Nat} {f : α → Info} {l l' l'' : List α}

theorem refl (l : List α) : Adds k f l l := ⟨[], by simp, by simp⟩

theorem trans (h : Adds k f l l') (h' : Adds k f l' l'') : Adds k f l l'' := by
  obtain ⟨new, rfl, hnew⟩ := h
  obtain ⟨new', rfl, hnew'⟩ := h'
  exact ⟨new ++ new', List.append_assoc .., List.forall_mem_append.2 ⟨hnew, hnew'⟩⟩

theorem one {a : α} (ha : k ≤ (f a).span.start.offset) : Adds k f l (l ++ [a]) :=
  ⟨[a], rfl, List.forall_mem_singleton.2 ha⟩

/-- The same item is added to the same ones. -/
theorem snoc (h : Adds k f l l') (h' : Adds k f l' l) (a : α) : Adds k f (l ++ [a]) (l' ++ [a]) := by
  obtain ⟨new, rfl, -⟩ := h
  obtain ⟨new', heq, -⟩ := h'
  obtain rfl : new = [] := by
    have hlength := congrArg List.length heq
    simp only [List.length_append] at hlength
    exact List.eq_nil_of_length_eq_zero (by omega)
  rw [List.append_nil]
  exact refl _

end Adds

/-- The same node, which may end elsewhere. -/
def Renews (i i' : Info) : Prop := i'.id = i.id ∧ i'.span.start = i.span.start

theorem Renews.refl (i : Info) : Renews i i := ⟨rfl, rfl⟩

theorem Renews.trans {i j l : Info} (h : Renews i j) (h' : Renews j l) : Renews i l :=
  ⟨h'.1.trans h.1, h'.2.trans h.2⟩

theorem Renews.symm {i j : Info} (h : Renews i j) : Renews j i := ⟨h.1.symm, h.2.symm⟩

namespace Draft

variable {k : Nat}

/-- The statements of a body. -/
def bodyStmts (b : Option Block) : List Stmt := (b.getD default).stmts

/-- The same declaration with further children behind those it had. They start at an offset or
later. -/
def Grows (k : Nat) : Draft → Draft → Prop
  | .unit u, .unit u' =>
    u'.info.id = u.info.id ∧ Adds k ImportDecl.info u.imports u'.imports ∧
      Adds k TypeDecl.info u.types u'.types
  | .type d, .type d' =>
    Renews d.info d'.info ∧ d'.name = d.name ∧ Adds k EnumConstant.info d.constants d'.constants ∧
      Adds k Member.info d.members d'.members
  | .method d, .method d' =>
    Renews d.info d'.info ∧ d'.name = d.name ∧
      Adds k Stmt.info (bodyStmts d.body) (bodyStmts d'.body)
  | .initializer i isStatic b, .initializer i' isStatic' b' =>
    Renews i i' ∧ isStatic' = isStatic ∧ Adds k Stmt.info b.stmts b'.stmts
  | .block b, .block b' => Renews b.info b'.info ∧ Adds k Stmt.info b.stmts b'.stmts
  | .field d, .field d' => Renews d.info d'.info
  | .locals d, .locals d' => Renews d.info d'.info
  | _, _ => False

theorem Grows.refl (d : Draft) : d.Grows k d := by
  cases d with
  | unit u => exact ⟨rfl, .refl _, .refl _⟩
  | type d => exact ⟨.refl _, rfl, .refl _, .refl _⟩
  | method d => exact ⟨.refl _, rfl, .refl _⟩
  | initializer i isStatic b => exact ⟨.refl _, rfl, .refl _⟩
  | block b => exact ⟨.refl _, .refl _⟩
  | field d => exact Renews.refl _
  | locals d => exact Renews.refl _

theorem Grows.trans {d e f : Draft} (h : d.Grows k e) (h' : e.Grows k f) : d.Grows k f := by
  cases d <;> cases e <;> (try exact h.elim) <;> cases f <;> (try exact h'.elim)
  case unit.unit.unit =>
    exact ⟨h'.1.trans h.1, h.2.1.trans h'.2.1, h.2.2.trans h'.2.2⟩
  case type.type.type =>
    exact ⟨h.1.trans h'.1, h'.2.1.trans h.2.1, h.2.2.1.trans h'.2.2.1, h.2.2.2.trans h'.2.2.2⟩
  case method.method.method =>
    exact ⟨h.1.trans h'.1, h'.2.1.trans h.2.1, h.2.2.trans h'.2.2⟩
  case initializer.initializer.initializer =>
    exact ⟨h.1.trans h'.1, h'.2.1.trans h.2.1, h.2.2.trans h'.2.2⟩
  case block.block.block => exact ⟨h.1.trans h'.1, h.2.trans h'.2⟩
  all_goals exact Renews.trans h h'

/-- Two versions of a draft with the same children. -/
def Same (k : Nat) (d e : Draft) : Prop := d.Grows k e ∧ e.Grows k d

theorem Same.trans {d e f : Draft} (h : d.Same k e) (h' : e.Same k f) : d.Same k f :=
  ⟨h.1.trans h'.1, h'.2.trans h.2⟩

/-- Marks and ends are no children. -/
theorem same_withInfo {f : Info → Info} (hf : ∀ i, Renews i (f i)) (d : Draft) :
    d.Same k (d.withInfo f) := by
  cases d with
  | unit u => exact ⟨⟨(hf _).1, .refl _, .refl _⟩, (hf _).1.symm, .refl _, .refl _⟩
  | type d =>
    exact ⟨⟨hf _, rfl, .refl _, .refl _⟩, (hf _).symm, rfl, .refl _, .refl _⟩
  | method d => exact ⟨⟨hf _, rfl, .refl _⟩, (hf _).symm, rfl, .refl _⟩
  | initializer i isStatic b => exact ⟨⟨hf _, rfl, .refl _⟩, (hf _).symm, rfl, .refl _⟩
  | block b => exact ⟨⟨hf _, .refl _⟩, (hf _).symm, .refl _⟩
  | field d => exact ⟨hf _, (hf _).symm⟩
  | locals d => exact ⟨hf _, (hf _).symm⟩

theorem same_flagged (m : NodeFlags) (d : Draft) : d.Same k (d.flagged m) :=
  same_withInfo (f := (·.withFlags m)) (fun _ => ⟨rfl, rfl⟩) d

theorem grows_ended (stop : Position) (d : Draft) : d.Grows k (d.ended stop) := by
  cases d with
  | method d =>
    refine ⟨⟨rfl, rfl⟩, rfl, ?_⟩
    show Adds k Stmt.info (bodyStmts d.body) (bodyStmts (d.body.map _))
    cases d.body <;> exact .refl _
  | initializer i isStatic b => exact ⟨⟨rfl, rfl⟩, rfl, .refl _⟩
  | unit u => exact .refl _
  | _ => exact (same_withInfo (f := (·.withStop stop)) (fun _ => ⟨rfl, rfl⟩) _).1

/-- Whether a draft is that of a source file. -/
def isUnit : Draft → Bool
  | .unit _ => true
  | _ => false

theorem isUnit_iff {d : Draft} : d.isUnit = true ↔ ∃ u, d = .unit u := by
  cases d <;> simp [isUnit]

theorem isUnit_iff_kind {d : Draft} : d.isUnit = true ↔ d.kind = .unit := by
  cases d <;> simp [isUnit, kind]

theorem isUnit_eq_of_kind {d e : Draft} (h : e.kind = d.kind) : e.isUnit = d.isUnit := by
  rw [Bool.eq_iff_iff, isUnit_iff_kind, isUnit_iff_kind, h]

theorem Grows.kind_eq {d e : Draft} (h : d.Grows k e) : e.kind = d.kind := by
  cases d <;> cases e <;> first | rfl | exact h.elim

theorem Grows.isUnit_eq {d e : Draft} (h : d.Grows k e) : e.isUnit = d.isUnit :=
  isUnit_eq_of_kind h.kind_eq

theorem Grows.of_type {d : Draft} {t : TypeDecl} (h : d.Grows k (.type t)) :
    ∃ t', d = .type t' := by
  cases d <;> first | exact ⟨_, rfl⟩ | exact h.elim

/-- The offset where a draft starts. -/
def start (d : Draft) : Nat := d.info.span.start.offset

/-- A declaration or block that grows starts where it did. -/
theorem Grows.start_eq {d e : Draft} (h : d.Grows k e) (hd : d.isUnit = false) :
    e.start = d.start := by
  have same {i i' : Info} (h : Renews i i') : i'.span.start.offset = i.span.start.offset :=
    congrArg Position.offset h.2
  cases d <;> cases e <;> (try exact h.elim)
  case unit.unit => cases hd
  case field.field | locals.locals => exact same h
  all_goals exact same h.1

/-! ## Joining -/

/-- A body with one more statement. -/
def withStmt : Draft → Stmt → Draft
  | .method d, s => .method { d with body := some (Block.append (d.body.getD default) s) }
  | .initializer i isStatic b, s => .initializer i isStatic (Block.append b s)
  | .block b, s => .block (Block.append b s)
  | d, _ => d

/-- A draft whose next child is another one; a local type stands in a statement with the information
`i`. -/
def joined (i : Info) : Draft → Draft → Draft
  | .unit u, .type d => .unit { u with types := u.types ++ [d] }
  | .type t, .type d => .type { t with members := t.members ++ [.type d] }
  | .type t, .method d => .type { t with members := t.members ++ [.method d] }
  | .type t, .initializer j isStatic b =>
    .type { t with members := t.members ++ [.initializer j isStatic b] }
  | outer, .block b => outer.withStmt (.block b)
  | outer, .type d => outer.withStmt (.localClass i { d with isLocal := true })
  | outer, _ => outer

/-- Whether one draft can stand in another. -/
def hosts (d inner : Draft) : Bool := d.kind.hosts inner.kind

theorem hosts_eq {d e inner inner' : Draft} (h : e.kind = d.kind) (h' : inner'.kind = inner.kind) :
    e.hosts inner' = d.hosts inner := by
  rw [hosts, hosts, h, h']

theorem grows_withStmt (d : Draft) {s : Stmt} (hs : k ≤ s.info.span.start.offset) :
    d.Grows k (d.withStmt s) := by
  cases d with
  | method d => exact ⟨.refl _, rfl, .one hs⟩
  | initializer i isStatic b => exact ⟨.refl _, rfl, .one hs⟩
  | block b => exact ⟨.refl _, .one hs⟩
  | _ => exact .refl _

theorem kind_joined (i : Info) (d inner : Draft) : (d.joined i inner).kind = d.kind := by
  cases d <;> cases inner <;> rfl

theorem Same.withStmt {d e : Draft} (h : d.Same k e) (s : Stmt) :
    (d.withStmt s).Grows k (e.withStmt s) := by
  obtain ⟨h, h'⟩ := h
  cases d <;> cases e <;> (try exact h.elim)
  case method.method => exact ⟨h.1, h.2.1, h.2.2.snoc h'.2.2 s⟩
  case initializer.initializer => exact ⟨h.1, h.2.1, h.2.2.snoc h'.2.2 s⟩
  case block.block => exact ⟨h.1, h.2.snoc h'.2 s⟩
  all_goals exact h

/-- A child that joins a draft which had no other one since. -/
theorem Same.joined {d e : Draft} (h : d.Same k e) (i : Info) (inner : Draft) :
    (d.joined i inner).Grows k (e.joined i inner) := by
  obtain ⟨hgrows, hback⟩ := h
  cases d <;> cases e <;> (try exact hgrows.elim)
  case unit.unit =>
    cases inner with
    | type d => exact ⟨hgrows.1, hgrows.2.1, hgrows.2.2.snoc hback.2.2 d⟩
    | _ => exact hgrows
  case type.type =>
    obtain ⟨hid, hname, hconstants, hmembers⟩ := hgrows
    cases inner with
    | type | method | initializer =>
      exact ⟨hid, hname, hconstants, hmembers.snoc hback.2.2.2 _⟩
    | _ => exact ⟨hid, hname, hconstants, hmembers⟩
  all_goals cases inner <;> first
    | exact hgrows
    | exact Same.withStmt ⟨hgrows, hback⟩ _

/-! ## Nested drafts in one draft -/

/-- `Holds k ds d`: the draft `d` of the first of some drafts, each the next child of the one before
it, holds all that they held. What came later stands behind, and starts at the offset `k` or later.
-/
inductive Holds (k : Nat) : List Draft → Draft → Prop
  | last {d e : Draft} : d.Grows k e → Holds k [d] e
  | more {d inner e : Draft} {ds : List Draft} (i : Info) : Holds k ds inner →
      (d.joined i inner).Grows k e → Holds k (d :: ds) e

theorem Holds.grows {ds : List Draft} {d e : Draft} (h : Holds k ds d) (hd : d.Grows k e) :
    Holds k ds e := by
  cases h with
  | last h => exact .last (h.trans hd)
  | more i h h' => exact .more i h (h'.trans hd)

theorem Holds.kind_eq {ds : List Draft} {d e : Draft} (h : Holds k (d :: ds) e) :
    e.kind = d.kind := by
  cases h with
  | last h => exact h.kind_eq
  | more i h h' => exact h'.kind_eq.trans (kind_joined i _ _)

end Draft

/-! ## The stack -/

/-- An element that starts at an offset or later. -/
def Element.Behind (k : Nat) (e : Element) : Prop :=
  k ≤ e.draft.start ∧ k ≤ e.openedSpan.start.offset

/-- The elements of a stack against some drafts, innermost first. Above the innermost draft that is
still open stand elements that recovery opened, at an offset or later; its own element holds the
drafts inside it that were closed; around it nothing has changed. -/
def Tracks (k : Nat) (ds : List Draft) (stack : List Element) : Prop :=
  ∃ fresh e kept closed d outer, ds = closed ++ d :: outer ∧ stack = fresh ++ e :: kept ∧
    (∀ x ∈ fresh, x.Behind k ∧ x.draft.isUnit = false) ∧
    Draft.Holds k (d :: closed.reverse) e.draft ∧
    List.Forall₂ (fun d e => d.Same k (Element.draft e)) outer kept ∧
    (d :: outer).IsChain fun inner outer => outer.hosts inner = true

section

variable {k : Nat} {ds : List Draft} {e e' : Element} {stack : List Element}

theorem Tracks.cons (h : Tracks k ds stack) (he : e.Behind k) (hunit : e.draft.isUnit = false) :
    Tracks k ds (e :: stack) := by
  obtain ⟨fresh, x, kept, closed, d, outer, hds, rfl, hfresh, hrest⟩ := h
  exact ⟨e :: fresh, x, kept, closed, d, outer, hds, rfl,
    List.forall_mem_cons.2 ⟨⟨he, hunit⟩, hfresh⟩, hrest⟩

/-- An element that grows starts where it did. -/
theorem Element.Behind.grows (h : e.Behind k) (hunit : e.draft.isUnit = false)
    (he : e.draft.Grows k e'.draft) (hspan : e'.openedSpan = e.openedSpan) : e'.Behind k :=
  ⟨(he.start_eq hunit).symm ▸ h.1, hspan ▸ h.2⟩

theorem Tracks.setTop (h : Tracks k ds (e :: stack)) (he : e.draft.Grows k e'.draft)
    (hspan : e'.openedSpan = e.openedSpan) : Tracks k ds (e' :: stack) := by
  obtain ⟨fresh, x, kept, closed, d, outer, hds, hstack, hfresh, hholds, hrest⟩ := h
  cases fresh with
  | nil =>
    cases hstack
    exact ⟨[], e', stack, closed, d, outer, hds, rfl, by simp, hholds.grows he, hrest⟩
  | cons y fresh =>
    cases hstack
    obtain ⟨⟨hbehind, hunit⟩, hfresh⟩ := List.forall_mem_cons.1 hfresh
    have hnew : e'.Behind k ∧ e'.draft.isUnit = false :=
      ⟨hbehind.grows hunit he hspan, he.isUnit_eq.trans hunit⟩
    exact ⟨e' :: fresh, x, kept, closed, d, outer, hds, rfl, List.forall_mem_cons.2 ⟨hnew, hfresh⟩,
      hholds, hrest⟩

/-- The innermost element joins the one around it. Only if recovery opened it is it a new child. -/
theorem Tracks.close {x y y' : Element} {d : Draft} (h : Tracks k ds (x :: y :: stack))
    (hx : x.draft.Grows k d) (hy : x.Behind k → y.draft.Grows k y'.draft)
    (hspan : y'.openedSpan = y.openedSpan)
    (hjoin : y.draft.hosts d = true → ∃ i, y'.draft = y.draft.joined i d) :
    Tracks k ds (y' :: stack) := by
  obtain ⟨fresh, e, kept, closed, d₀, outer, hds, hstack, hfresh, hholds, hkept, hchain⟩ := h
  cases fresh with
  | cons z fresh =>
    obtain ⟨rfl, htail⟩ := List.cons.inj hstack
    obtain ⟨⟨hbehind, -⟩, hfresh⟩ := List.forall_mem_cons.1 hfresh
    have hinner : Tracks k ds (y :: stack) :=
      ⟨fresh, e, kept, closed, d₀, outer, hds, htail, hfresh, hholds, hkept, hchain⟩
    exact hinner.setTop (hy hbehind) hspan
  | nil =>
    cases hstack
    cases hkept with
    | @cons d₁ _ outer _ hsame hkept =>
      obtain ⟨hhosts, hchain⟩ := List.isChain_cons_cons.1 hchain
      have hkind := hx.kind_eq.trans hholds.kind_eq
      obtain ⟨i, hi⟩ := hjoin ((Draft.hosts_eq hsame.1.kind_eq hkind).trans hhosts)
      refine ⟨[], y', stack, closed ++ [d₀], d₁, outer, by simp [hds], rfl, by simp, ?_, hkept,
        hchain⟩
      rw [List.reverse_append]
      exact .more i (hholds.grows hx) (hi ▸ hsame.joined i d)

theorem Tracks.flagged (h : Tracks k ds stack) (m : NodeFlags) :
    Tracks k ds (stack.map fun e => { e with draft := e.draft.flagged m }) := by
  obtain ⟨fresh, e, kept, closed, d, outer, hds, rfl, hfresh, hholds, hkept, hchain⟩ := h
  rw [List.map_append, List.map_cons]
  refine ⟨_, _, _, closed, d, outer, hds, rfl, ?_, hholds.grows (Draft.same_flagged m _).1, ?_,
    hchain⟩
  · intro y hy
    obtain ⟨x, hx, rfl⟩ := List.mem_map.1 hy
    obtain ⟨hbehind, hunit⟩ := hfresh x hx
    have hgrows := (Draft.same_flagged (k := k) m x.draft).1
    exact ⟨hbehind.grows hunit hgrows rfl, hgrows.isUnit_eq.trans hunit⟩
  · rw [List.forall₂_map_right_iff]
    exact hkept.imp fun _ _ h => h.trans (Draft.same_flagged m _)

/-- Nested drafts are tracked by elements of their own. -/
theorem tracks_self {d : Draft} {outer : List Draft} {kept : List Element}
    (hd : e.draft = d) (hkept : kept.map Element.draft = outer)
    (hchain : (d :: outer).IsChain fun inner outer => outer.hosts inner = true) :
    Tracks k (d :: outer) (e :: kept) := by
  refine ⟨[], e, kept, [], d, outer, rfl, rfl, by simp, .last (hd ▸ .refl _), ?_, hchain⟩
  rw [← hkept, List.forall₂_map_left_iff]
  exact List.forall₂_same.2 fun x _ => ⟨.refl _, .refl _⟩

/-- When only one element is left it holds everything. -/
theorem Tracks.single (h : Tracks k ds [e]) : Draft.Holds k ds.reverse e.draft := by
  obtain ⟨fresh, x, kept, closed, d, outer, rfl, hstack, -, hholds, hkept, -⟩ := h
  cases fresh with
  | nil =>
    cases hstack
    cases hkept
    rw [List.reverse_append]
    exact hholds
  | cons y fresh => simp at hstack

end

end Javelin.Parse
