import Javelin.Syntax.Node

/-!
# The size of nodes

The children of a node are smaller than the node, so what walks down a tree ends.
-/

namespace Javelin.Node

/-- Nodes that are all smaller than a bound. -/
def AllBelow (k : Nat) (ns : List Node) : Prop := ∀ c ∈ ns, sizeOf c < k

@[simp]
theorem allBelow_nil (k : Nat) : AllBelow k [] := by simp [AllBelow]

@[simp]
theorem allBelow_cons (k : Nat) (c : Node) (ns : List Node) :
    AllBelow k (c :: ns) ↔ sizeOf c < k ∧ AllBelow k ns := by
  simp [AllBelow]

@[simp]
theorem allBelow_append (k : Nat) (ms ns : List Node) :
    AllBelow k (ms ++ ns) ↔ AllBelow k ms ∧ AllBelow k ns := by
  simp [AllBelow, or_imp, forall_and]

/-- A node adds at most two levels to what it holds, and a member of a list is smaller than the
list. -/
theorem allBelow_map {α : Type} [SizeOf α] {f : α → Node} {k : Nat} (xs : List α)
    (hf : ∀ x, sizeOf (f x) ≤ 2 + sizeOf x) (hk : sizeOf xs + 2 ≤ k) : AllBelow k (xs.map f) := by
  intro c hc
  obtain ⟨x, hx, rfl⟩ := List.mem_map.1 hc
  have := List.sizeOf_lt_of_mem hx
  have := hf x
  omega

theorem allBelow_option {α : Type} [SizeOf α] {f : α → Node} {k : Nat} (o : Option α)
    (hf : ∀ x, sizeOf (f x) ≤ 2 + sizeOf x) (hk : sizeOf o + 2 ≤ k) :
    AllBelow k (o.map f).toList := by
  cases o with
  | none => simp
  | some x =>
    have := hf x
    simp at hk ⊢
    omega

/-- A node is one level above what it holds. -/
theorem level {n : Nat} : 1 + n ≤ 2 + n := Nat.add_le_add_right (by decide) n

theorem sizeOf_ofBlock (b : Block) : sizeOf (ofBlock b) ≤ 2 + sizeOf b := by
  simp only [ofBlock, Node.stmt.sizeOf_spec, Stmt.block.sizeOf_spec]
  omega

theorem sizeOf_ofMember (m : Member) : sizeOf (ofMember m) ≤ 2 + sizeOf m := by
  cases m <;> simp [ofMember]

theorem sizeOf_resourceNode (s : Stmt) : sizeOf s.resourceNode ≤ 2 + sizeOf s := by
  cases s with
  | expr i x =>
    simp only [Stmt.resourceNode, Node.expr.sizeOf_spec, Stmt.expr.sizeOf_spec]
    omega
  | _ => exact level

theorem sizeOf_info_pos (i : Info) : 0 < sizeOf i := by
  cases i
  simp only [Info.mk.sizeOf_spec]
  omega

theorem allBelow_ofVarDecl (d : VarDecl) : AllBelow (1 + sizeOf d) (ofVarDecl d) := by
  obtain ⟨i, m, t, vs, doc⟩ := d
  simp only [ofVarDecl, allBelow_append, allBelow_cons, allBelow_nil, and_true,
    Node.type.sizeOf_spec, VarDecl.mk.sizeOf_spec]
  exact ⟨⟨allBelow_option m (fun _ => level) (by omega), by omega⟩,
    allBelow_map vs (fun _ => level) (by omega)⟩

theorem allBelow_ofTypeNode (t : TypeNode) : AllBelow (1 + sizeOf t) (ofTypeNode t) := by
  cases t with
  | cls i annots q n args d =>
    simp only [ofTypeNode, allBelow_append, allBelow_cons, allBelow_nil, and_true,
      Node.ident.sizeOf_spec, TypeNode.cls.sizeOf_spec]
    exact ⟨⟨⟨allBelow_map annots (fun _ => level) (by omega),
      allBelow_option q (fun _ => level) (by omega)⟩, by omega⟩,
      allBelow_map args (fun _ => level) (by omega)⟩
  | array i t =>
    simp only [ofTypeNode, allBelow_cons, allBelow_nil, and_true, TypeNode.array.sizeOf_spec,
      Node.type.sizeOf_spec]
    omega
  | wildcard i t isLower =>
    exact allBelow_option t (fun _ => level) (by simp only [TypeNode.wildcard.sizeOf_spec]; omega)
  | union i ts =>
    exact allBelow_map ts (fun _ => level) (by simp only [TypeNode.union.sizeOf_spec]; omega)
  | intersection i ts =>
    exact allBelow_map ts (fun _ => level) (by simp only [TypeNode.intersection.sizeOf_spec]; omega)
  | _ => exact allBelow_nil _

theorem allBelow_ofExpr (x : Expr) : AllBelow (1 + sizeOf x) (ofExpr x) := by
  -- The size of the construct is written out once, and what it holds is compared with it.
  generalize hk : 1 + sizeOf x = k
  cases x with
  | instanceOf i x t p => cases p <;> simp [ofExpr] at hk ⊢ <;> omega
  | lambda i ps v b isExplicit =>
    simp only [Expr.lambda.sizeOf_spec] at hk
    simp only [ofExpr, allBelow_append]
    exact ⟨⟨allBelow_map ps (fun _ => level) (by omega),
      allBelow_option v (fun _ => level) (by omega)⟩, allBelow_option b sizeOf_ofBlock (by omega)⟩
  | annot a =>
    obtain ⟨i, n, args⟩ := a
    simp only [Expr.annot.sizeOf_spec, Annot.mk.sizeOf_spec] at hk
    simp only [ofExpr, allBelow_cons, Node.qualifiedName.sizeOf_spec]
    exact ⟨by omega, allBelow_map args (fun _ => level) (by omega)⟩
  | _ =>
    simp at hk
    simp only [ofExpr, allBelow_append, allBelow_cons, allBelow_nil, and_true,
      Node.expr.sizeOf_spec, Node.type.sizeOf_spec, Node.ident.sizeOf_spec]
    repeat' apply And.intro
    all_goals
      first
      | trivial
      | omega
      | exact allBelow_map _ (fun _ => level) (by omega)
      | exact allBelow_option _ (fun _ => level) (by omega)

theorem allBelow_ofStmt (s : Stmt) : AllBelow (1 + sizeOf s) (ofStmt s) := by
  have pos := sizeOf_info_pos s.info
  generalize hk : 1 + sizeOf s = k
  cases s with
  | locals d =>
    intro c hc
    have := allBelow_ofVarDecl d c hc
    simp only [Stmt.locals.sizeOf_spec] at hk
    omega
  | block b =>
    obtain ⟨i, sts⟩ := b
    simp only [Stmt.block.sizeOf_spec, Block.mk.sizeOf_spec] at hk
    exact allBelow_map sts (fun _ => level) (by omega)
  | «try» i rs b cs f =>
    have body := sizeOf_ofBlock b
    simp only [Stmt.info, Stmt.try.sizeOf_spec] at pos hk
    simp only [ofStmt, allBelow_append, allBelow_cons, allBelow_nil, and_true]
    exact ⟨⟨⟨allBelow_map rs sizeOf_resourceNode (by omega), by omega⟩,
      allBelow_map cs (fun _ => level) (by omega)⟩, allBelow_option f sizeOf_ofBlock (by omega)⟩
  | _ =>
    simp only [Stmt.info] at pos
    simp at hk
    simp only [ofStmt, ofBlock, ofLocals, allBelow_append, allBelow_cons, allBelow_nil, and_true,
      Node.expr.sizeOf_spec, Node.stmt.sizeOf_spec, Node.ident.sizeOf_spec,
      Node.typeDecl.sizeOf_spec, Stmt.block.sizeOf_spec, Stmt.locals.sizeOf_spec]
    repeat' apply And.intro
    all_goals
      first
      | trivial
      | omega
      | exact allBelow_map _ (fun _ => level) (by omega)
      | exact allBelow_option _ (fun _ => level) (by omega)

theorem allBelow_children (n : Node) : AllBelow (sizeOf n) n.children := by
  generalize hk : sizeOf n = k
  cases n with
  | stmt s => exact hk ▸ allBelow_ofStmt s
  | expr x => exact hk ▸ allBelow_ofExpr x
  | type t => exact hk ▸ allBelow_ofTypeNode t
  | field d => exact hk ▸ allBelow_ofVarDecl d
  | initializer i isStatic b =>
    have := sizeOf_info_pos i
    have := sizeOf_ofBlock b
    simp at hk
    simp only [children, allBelow_cons, allBelow_nil, and_true]
    omega
  | catchClause c =>
    obtain ⟨i, p, b⟩ := c
    have := sizeOf_info_pos i
    have := sizeOf_ofBlock b
    simp only [Node.catchClause.sizeOf_spec, CatchClause.mk.sizeOf_spec] at hk
    simp only [children, allBelow_cons, allBelow_nil, and_true, Node.param.sizeOf_spec]
    omega
  | ident n => exact allBelow_nil _
  | _ x =>
    cases x
    simp at hk
    simp only [children, ofTypeDecl, ofMethod, allBelow_append, allBelow_cons, allBelow_nil,
      and_true, Node.expr.sizeOf_spec, Node.ident.sizeOf_spec, Node.qualifiedName.sizeOf_spec]
    repeat' apply And.intro
    all_goals
      first
      | omega
      | exact allBelow_map _ (fun _ => level) (by omega)
      | exact allBelow_option _ (fun _ => level) (by omega)
      | exact allBelow_map _ sizeOf_ofMember (by omega)
      | exact allBelow_option _ sizeOf_ofBlock (by omega)

/-- A child is smaller than its parent, so a walk downward ends. -/
theorem sizeOf_lt_of_mem_children {c n : Node} (h : c ∈ n.children) : sizeOf c < sizeOf n :=
  allBelow_children n c h

end Javelin.Node
