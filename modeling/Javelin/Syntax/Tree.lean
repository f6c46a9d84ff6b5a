import Javelin.Syntax.Info
import Javelin.Syntax.Operator
import Javelin.Constant.Fold

/-!
# Syntax trees

The tree of a source file: types as written, expressions, statements and declarations. The four
groups contain each other (an expression may hold a class body, a type may hold annotations with
expressions), so they are defined together.

A node keeps what was written. What a name means, what type an expression has and whether a
statement can be reached is recorded in tables keyed by the number of the node.
-/

namespace Javelin

/-- The kinds of type declarations. -/
inductive TypeKind where
  | cls
  | interface
  | enum
  | record
  | annot
deriving DecidableEq, Inhabited, Repr

def TypeKind.name : TypeKind → String
  | .cls => "class"
  | .interface => "interface"
  | .enum => "enum"
  | .record => "record"
  | .annot => "@interface"

mutual

/-- A type as written. -/
inductive TypeNode where
  | primitive (info : Info) (type : BasicType)
  /-- A class type, possibly qualified; the qualifier names a package or an enclosing type. -/
  | cls (info : Info) (annots : List Annot) (qualifier : Option TypeNode) (name : Ident)
      (args : List TypeNode) (diamond : Bool)
  | array (info : Info) (elem : TypeNode)
  | wildcard (info : Info) (bound : Option TypeNode) (isLower : Bool)
  | union (info : Info) (alternatives : List TypeNode)
  | intersection (info : Info) (types : List TypeNode)
  /-- The inferred type of a local variable. -/
  | inferred (info : Info)

structure Annot where
  info : Info
  name : QName
  args : List ElementValue

/-- An argument of an annotation; the single-element form has no name. -/
structure ElementValue where
  info : Info
  name : Option Ident
  value : Expr

structure Modifiers where
  info : Info
  flags : ModifierSet
  annots : List Annot

/-- A parameter; an implicitly typed one has no type. -/
structure Param where
  info : Info
  modifiers : Option Modifiers
  type : Option TypeNode
  varargs : Bool
  name : Ident
  dims : Nat

/-- One name of a field or local variable declaration. -/
structure VarDeclarator where
  info : Info
  name : Ident
  dims : Nat
  init : Option Expr

/-- A declaration of fields or local variables. -/
structure VarDecl where
  info : Info
  modifiers : Option Modifiers
  type : TypeNode
  vars : List VarDeclarator
  doc : Option Comment

structure Block where
  info : Info
  stmts : List Stmt

structure TypeParam where
  info : Info
  annots : List Annot
  name : Ident
  bounds : List TypeNode

/-- One group of a switch; an arrow group has exactly one statement. -/
structure SwitchCase where
  info : Info
  labels : List Expr
  isDefault : Bool
  guard : Option Expr
  isArrow : Bool
  body : List Stmt

structure CatchClause where
  info : Info
  param : Param
  body : Block

structure EnumConstant where
  info : Info
  annots : List Annot
  name : Ident
  args : List Expr
  body : Option TypeDecl
  doc : Option Comment

/-- A class, interface, enum, record or annotation type; the body of an anonymous class has no
name. -/
structure TypeDecl where
  info : Info
  kind : TypeKind
  modifiers : Option Modifiers
  name : Option Ident
  typeParams : List TypeParam
  superclass : Option TypeNode
  interfaces : List TypeNode
  permits : List TypeNode
  components : List Param
  constants : List EnumConstant
  members : List Member
  doc : Option Comment
  isLocal : Bool
  isAnonymous : Bool
  bodyStart : Position

/-- A method or constructor; constructors have no result type. -/
structure MethodDecl where
  info : Info
  modifiers : Option Modifiers
  typeParams : List TypeParam
  result : Option TypeNode
  name : Ident
  receiver : Option Param
  params : List Param
  dims : Nat
  throws : List TypeNode
  body : Option Block
  isConstructor : Bool
  isCompact : Bool
  /-- The default of an annotation element. -/
  default : Option Expr
  doc : Option Comment

inductive Member where
  | field (decl : VarDecl)
  | method (decl : MethodDecl)
  | initializer (info : Info) (isStatic : Bool) (body : Block)
  | type (decl : TypeDecl)

inductive Expr where
  | literal (info : Info) (kind : Literal.Kind) (raw : Text)
  /-- A simple name; whether it denotes a variable, a type or a package is decided later. -/
  | name (info : Info) (name : Ident)
  | field (info : Info) (target : Expr) (name : Ident)
  | call (info : Info) (target : Option Expr) (typeArgs : List TypeNode) (name : Ident)
      (args : List Expr)
  | newObject (info : Info) (outer : Option Expr) (typeArgs : List TypeNode) (type : TypeNode)
      (args : List Expr) (body : Option TypeDecl)
  | newArray (info : Info) (elem : TypeNode) (dims : List Expr) (extraDims : Nat)
      (init : Option Expr)
  | arrayInit (info : Info) (elems : List Expr)
  | index (info : Info) (array index : Expr)
  | unary (info : Info) (op : Operator) (operand : Expr) (isPostfix : Bool)
  | binary (info : Info) (op : Operator) (left right : Expr)
  | assign (info : Info) (op : Operator) (target value : Expr)
  | conditional (info : Info) (cond yes no : Expr)
  | cast (info : Info) (type : TypeNode) (operand : Expr)
  | instanceOf (info : Info) (operand : Expr) (type : TypeNode) (pattern : Option Expr)
  | this (info : Info) (qualifier : Option QName)
  /-- Only the target of a field access, a call or a method reference. -/
  | super (info : Info) (qualifier : Option QName)
  | classLit (info : Info) (type : TypeNode)
  /-- The body is an expression or a block. -/
  | lambda (info : Info) (params : List Param) (value : Option Expr) (block : Option Block)
      (isExplicit : Bool)
  | methodRef (info : Info) (target : Expr) (typeArgs : List TypeNode) (name : Ident)
  | switch (info : Info) (selector : Expr) (cases : List SwitchCase)
  | paren (info : Info) (inner : Expr)
  | typePattern (info : Info) (modifiers : Option Modifiers) (type : TypeNode) (name : Ident)
  | recordPattern (info : Info) (type : TypeNode) (subs : List Expr)
  /-- A type where an expression stands, as in a method reference. -/
  | typeExpr (info : Info) (type : TypeNode)
  | bad (info : Info)
  | annot (decl : Annot)

inductive Stmt where
  | block (body : Block)
  | empty (info : Info)
  | locals (decl : VarDecl)
  | localClass (info : Info) (decl : TypeDecl)
  | expr (info : Info) (value : Expr)
  | ifElse (info : Info) (cond : Expr) (yes : Stmt) (no : Option Stmt)
  | while (info : Info) (cond : Expr) (body : Stmt)
  | doWhile (info : Info) (body : Stmt) (cond : Expr)
  | for (info : Info) (init : List Stmt) (cond : Option Expr) (update : List Expr) (body : Stmt)
  | forEach (info : Info) (var : VarDecl) (iterable : Expr) (body : Stmt)
  | return (info : Info) (value : Option Expr)
  | break (info : Info) (label : Option Ident)
  | continue (info : Info) (label : Option Ident)
  | yield (info : Info) (value : Expr)
  | throw (info : Info) (value : Expr)
  | switch (info : Info) (selector : Expr) (cases : List SwitchCase)
  /-- Each resource is a declaration of one variable or an expression statement that has the
  number and span of its expression. -/
  | try (info : Info) (resources : List Stmt) (body : Block) (catches : List CatchClause)
      (final : Option Block)
  | labeled (info : Info) (label : Ident) (body : Stmt)
  | sync (info : Info) (lock : Expr) (body : Block)
  | assert (info : Info) (cond : Expr) (message : Option Expr)
  /-- An explicit call of another constructor of the class or of its superclass. -/
  | constructorCall (info : Info) (isSuper : Bool) (qualifier : Option Expr)
      (typeArgs : List TypeNode) (args : List Expr)

end

instance : Inhabited TypeNode := ⟨.inferred {}⟩

instance : Inhabited Expr := ⟨.bad {}⟩

instance : Inhabited Stmt := ⟨.empty {}⟩

instance : Inhabited Block := ⟨⟨{}, []⟩⟩

instance : Inhabited Annot := ⟨⟨{}, default, []⟩⟩

instance : Inhabited Modifiers := ⟨⟨{}, {}, []⟩⟩

instance : Inhabited Param := ⟨⟨{}, none, none, false, default, 0⟩⟩

instance : Inhabited VarDeclarator := ⟨⟨{}, default, 0, none⟩⟩

instance : Inhabited VarDecl := ⟨⟨{}, none, default, [], none⟩⟩

instance : Inhabited TypeDecl :=
  ⟨⟨{}, .cls, none, none, [], none, [], [], [], [], [], none, false, false, {}⟩⟩

instance : Inhabited MethodDecl :=
  ⟨⟨{}, none, [], none, default, none, [], 0, [], none, false, false, none, none⟩⟩

instance : Inhabited Member := ⟨.type default⟩

/-! ## The information of a node -/

def TypeNode.info : TypeNode → Info
  | .primitive i .. | .cls i .. | .array i .. | .wildcard i .. | .union i .. | .intersection i ..
  | .inferred i => i

def Expr.info : Expr → Info
  | .literal i .. | .name i .. | .field i .. | .call i .. | .newObject i .. | .newArray i ..
  | .arrayInit i .. | .index i .. | .unary i .. | .binary i .. | .assign i .. | .conditional i ..
  | .cast i .. | .instanceOf i .. | .this i .. | .super i .. | .classLit i .. | .lambda i ..
  | .methodRef i .. | .switch i .. | .paren i .. | .typePattern i .. | .recordPattern i ..
  | .typeExpr i .. | .bad i => i
  | .annot a => a.info

def Stmt.info : Stmt → Info
  | .block b => b.info
  | .locals d => d.info
  | .empty i | .localClass i .. | .expr i .. | .ifElse i .. | .while i .. | .doWhile i ..
  | .for i .. | .forEach i .. | .return i .. | .break i .. | .continue i .. | .yield i ..
  | .throw i .. | .switch i .. | .try i .. | .labeled i .. | .sync i .. | .assert i ..
  | .constructorCall i .. => i

def Member.info : Member → Info
  | .field d => d.info
  | .method d => d.info
  | .initializer i .. => i
  | .type d => d.info

/-! ## Small views -/

def TypeDecl.nameText (d : TypeDecl) : Text := (d.name.map Ident.name).getD {}

def TypeDecl.isInterface (d : TypeDecl) : Bool := d.kind == .interface || d.kind == .annot

/-- Whether a declaration has a modifier. -/
def hasModifier (m : Option Modifiers) (f : Modifier) : Bool :=
  match m with
  | some m => m.flags.has f
  | none => false

/-- Whether an annotation with the given simple or qualified name is present. -/
def hasAnnot (m : Option Modifiers) (name : Text) : Bool :=
  match m with
  | some m => m.annots.any fun a => a.name.dotted == name || a.name.last == name
  | none => false

/-- The declaration that a member type is. -/
def Member.type? : Member → Option TypeDecl
  | .type d => some d
  | _ => none

def Member.method? : Member → Option MethodDecl
  | .method d => some d
  | _ => none

def Member.field? : Member → Option VarDecl
  | .field d => some d
  | _ => none

/-! ## Source files -/

structure PackageDecl where
  info : Info
  annots : List Annot
  name : QName
deriving Inhabited

structure ImportDecl where
  info : Info
  isStatic : Bool
  name : QName
  onDemand : Bool
deriving Inhabited

/-- A clause of a module declaration, named by its first word. -/
structure ModuleDirective where
  info : Info
  word : Text
  modifiers : List Text
  name : QName
  targets : List QName
deriving Inhabited

structure ModuleDecl where
  info : Info
  annots : List Annot
  isOpen : Bool
  name : QName
  directives : List ModuleDirective
deriving Inhabited

/-- A source file. `nodes` is larger than the number of every node in it. -/
structure CompilationUnit where
  info : Info := {}
  file : Text := {}
  package : Option PackageDecl := none
  imports : List ImportDecl := []
  types : List TypeDecl := []
  module : Option ModuleDecl := none
  comments : List Comment := []
  nodes : Nat := 0
deriving Inhabited

/-- The dotted name of the package, empty for the unnamed package. -/
def CompilationUnit.packageName (u : CompilationUnit) : Text :=
  match u.package with
  | some p => p.name.dotted
  | none => {}

end Javelin
