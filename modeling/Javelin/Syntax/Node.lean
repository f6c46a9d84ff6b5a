import Std.Data.HashMap
import Std.Data.HashSet
import Javelin.Syntax.Tree

/-!
# Nodes

A uniform view of syntax trees: every construct is a node with a kind, a place, attributes and
children in the order of the source. What walks over whole trees without caring for most constructs
is written against this view.

1. `Node` and its kinds.
2. `Node.children`.
3. `Node.attributes`, what a node holds besides its children.
4. `Node.preorder`, all nodes below a node.
-/

namespace Javelin

/-- Any node of a syntax tree. -/
inductive Node where
  | ident (name : Ident)
  | qualifiedName (name : QName)
  | unit (unit : CompilationUnit)
  | package (decl : PackageDecl)
  | import (decl : ImportDecl)
  | module (decl : ModuleDecl)
  | directive (directive : ModuleDirective)
  | typeDecl (decl : TypeDecl)
  | modifiers (modifiers : Modifiers)
  | field (decl : VarDecl)
  | declarator (var : VarDeclarator)
  | method (decl : MethodDecl)
  | param (param : Param)
  | initializer (info : Info) (isStatic : Bool) (body : Block)
  | constant (constant : EnumConstant)
  | typeParam (param : TypeParam)
  | annot (annot : Annot)
  | element (value : ElementValue)
  | switchCase (group : SwitchCase)
  | catchClause (clause : CatchClause)
  | stmt (stmt : Stmt)
  | expr (expr : Expr)
  | type (type : TypeNode)
deriving Inhabited

namespace TypeNode

def kind : TypeNode → String
  | .primitive .. => "PrimitiveType"
  | .cls .. => "ClassType"
  | .array .. => "ArrayType"
  | .wildcard .. => "WildcardType"
  | .union .. => "UnionType"
  | .intersection .. => "IntersectionType"
  | .inferred .. => "VarType"

end TypeNode

namespace Expr

def kind : Expr → String
  | .literal .. => "Literal"
  | .name .. => "Name"
  | .field .. => "FieldAccess"
  | .call .. => "MethodCall"
  | .newObject .. => "NewObject"
  | .newArray .. => "NewArray"
  | .arrayInit .. => "ArrayInit"
  | .index .. => "ArrayAccess"
  | .unary .. => "Unary"
  | .binary .. => "Binary"
  | .assign .. => "Assign"
  | .conditional .. => "Conditional"
  | .cast .. => "Cast"
  | .instanceOf .. => "InstanceOf"
  | .this .. => "This"
  | .super .. => "Super"
  | .classLit .. => "ClassLit"
  | .lambda .. => "Lambda"
  | .methodRef .. => "MethodRef"
  | .switch .. => "SwitchExpr"
  | .paren .. => "Paren"
  | .typePattern .. => "TypePattern"
  | .recordPattern .. => "RecordPattern"
  | .typeExpr .. => "TypeExpr"
  | .bad .. => "BadExpr"
  | .annot .. => "Annotation"

end Expr

namespace Stmt

def kind : Stmt → String
  | .block .. => "Block"
  | .empty .. => "EmptyStmt"
  | .locals .. => "LocalVarDecl"
  | .localClass .. => "LocalClassDecl"
  | .expr .. => "ExprStmt"
  | .ifElse .. => "IfStmt"
  | .while .. => "WhileStmt"
  | .doWhile .. => "DoStmt"
  | .for .. => "ForStmt"
  | .forEach .. => "ForEachStmt"
  | .return .. => "ReturnStmt"
  | .break .. => "BreakStmt"
  | .continue .. => "ContinueStmt"
  | .yield .. => "YieldStmt"
  | .throw .. => "ThrowStmt"
  | .switch .. => "SwitchStmt"
  | .try .. => "TryStmt"
  | .labeled .. => "LabeledStmt"
  | .sync .. => "SyncStmt"
  | .assert .. => "AssertStmt"
  | .constructorCall .. => "ConstructorCall"

/-- The node of a resource of a `try`: a declaration or a plain expression. -/
def resourceNode : Stmt → Node
  | .expr _ x => .expr x
  | s => .stmt s

end Stmt

namespace Node

/-! ## Kinds and places -/

def kind : Node → String
  | .ident _ => "Ident"
  | .qualifiedName _ => "QualifiedName"
  | .unit _ => "CompilationUnit"
  | .package _ => "PackageDecl"
  | .import _ => "ImportDecl"
  | .module _ => "ModuleDecl"
  | .directive _ => "ModuleDirective"
  | .typeDecl _ => "TypeDecl"
  | .modifiers _ => "Modifiers"
  | .field _ => "FieldDecl"
  | .declarator _ => "VarDeclarator"
  | .method _ => "MethodDecl"
  | .param _ => "Param"
  | .initializer .. => "Initializer"
  | .constant _ => "EnumConstant"
  | .typeParam _ => "TypeParam"
  | .annot _ => "Annotation"
  | .element _ => "ElementValue"
  | .switchCase _ => "SwitchCase"
  | .catchClause _ => "CatchClause"
  | .stmt s => s.kind
  | .expr x => x.kind
  | .type t => t.kind

def info : Node → Info
  | .ident n => n.info
  | .qualifiedName n => n.info
  | .unit u => u.info
  | .package d => d.info
  | .import d => d.info
  | .module d => d.info
  | .directive d => d.info
  | .typeDecl d => d.info
  | .modifiers m => m.info
  | .field d => d.info
  | .declarator v => v.info
  | .method d => d.info
  | .param p => p.info
  | .initializer i .. => i
  | .constant c => c.info
  | .typeParam p => p.info
  | .annot a => a.info
  | .element e => e.info
  | .switchCase c => c.info
  | .catchClause c => c.info
  | .stmt s => s.info
  | .expr x => x.info
  | .type t => t.info

/-! ## Children -/

def ofMember : Member → Node
  | .field d => .field d
  | .method d => .method d
  | .initializer i s b => .initializer i s b
  | .type d => .typeDecl d

def ofBlock (b : Block) : Node := .stmt (.block b)

def ofLocals (d : VarDecl) : Node := .stmt (.locals d)

/-- The children of a declaration of variables. -/
def ofVarDecl (d : VarDecl) : List Node :=
  (d.modifiers.map modifiers).toList ++ [.type d.type] ++ d.vars.map declarator

def ofTypeDecl (d : TypeDecl) : List Node :=
  (d.modifiers.map modifiers).toList ++ (d.name.map ident).toList ++ d.typeParams.map typeParam ++
    d.components.map param ++ (d.superclass.map type).toList ++ d.interfaces.map type ++
    d.permits.map type ++ d.constants.map constant ++ d.members.map ofMember

def ofMethod (d : MethodDecl) : List Node :=
  (d.modifiers.map modifiers).toList ++ d.typeParams.map typeParam ++
    (d.result.map type).toList ++ [.ident d.name] ++ (d.receiver.map param).toList ++
    d.params.map param ++ d.throws.map type ++ (d.body.map ofBlock).toList ++
    (d.default.map expr).toList

def ofTypeNode : TypeNode → List Node
  | .primitive .. | .inferred .. => []
  | .cls _ annots qualifier name args _ =>
    annots.map annot ++ (qualifier.map type).toList ++ [.ident name] ++ args.map type
  | .array _ elem => [.type elem]
  | .wildcard _ bound _ => (bound.map type).toList
  | .union _ ts => ts.map type
  | .intersection _ ts => ts.map type

def ofExpr : Expr → List Node
  | .literal .. | .bad .. => []
  | .name _ n => [.ident n]
  | .field _ x n => [.expr x, .ident n]
  | .call _ x ts n args => (x.map expr).toList ++ ts.map type ++ [.ident n] ++ args.map expr
  | .newObject _ outer ts t args body =>
    (outer.map expr).toList ++ ts.map type ++ [.type t] ++ args.map expr ++
      (body.map typeDecl).toList
  | .newArray _ elem dims _ init => [.type elem] ++ dims.map expr ++ (init.map expr).toList
  | .arrayInit _ xs => xs.map expr
  | .index _ x i => [.expr x, .expr i]
  | .unary _ _ x _ => [.expr x]
  | .binary _ _ x y => [.expr x, .expr y]
  | .assign _ _ x y => [.expr x, .expr y]
  | .conditional _ c x y => [.expr c, .expr x, .expr y]
  | .cast _ t x => [.type t, .expr x]
  | .instanceOf _ x t pattern => [.expr x, (pattern.map expr).getD (.type t)]
  | .this _ q => (q.map qualifiedName).toList
  | .super _ q => (q.map qualifiedName).toList
  | .classLit _ t => [.type t]
  | .lambda _ ps value block _ =>
    ps.map param ++ (value.map expr).toList ++ (block.map ofBlock).toList
  | .methodRef _ x ts n => [.expr x] ++ ts.map type ++ [.ident n]
  | .switch _ x cs => .expr x :: cs.map switchCase
  | .paren _ x => [.expr x]
  | .typePattern _ m t n => (m.map modifiers).toList ++ [.type t, .ident n]
  | .recordPattern _ t subs => .type t :: subs.map expr
  | .typeExpr _ t => [.type t]
  | .annot a => .qualifiedName a.name :: a.args.map element

def ofStmt : Stmt → List Node
  | .block b => b.stmts.map stmt
  | .empty _ => []
  | .locals d => ofVarDecl d
  | .localClass _ d => [.typeDecl d]
  | .expr _ x => [.expr x]
  | .ifElse _ c y n => [.expr c, .stmt y] ++ (n.map stmt).toList
  | .while _ c b => [.expr c, .stmt b]
  | .doWhile _ b c => [.stmt b, .expr c]
  | .for _ init c update b =>
    init.map stmt ++ (c.map expr).toList ++ update.map expr ++ [.stmt b]
  | .forEach _ v x b => [ofLocals v, .expr x, .stmt b]
  | .return _ x => (x.map expr).toList
  | .break _ l => (l.map ident).toList
  | .continue _ l => (l.map ident).toList
  | .yield _ x => [.expr x]
  | .throw _ x => [.expr x]
  | .switch _ x cs => .expr x :: cs.map switchCase
  | .try _ rs b cs f =>
    rs.map Stmt.resourceNode ++ [ofBlock b] ++ cs.map catchClause ++ (f.map ofBlock).toList
  | .labeled _ l b => [.ident l, .stmt b]
  | .sync _ x b => [.expr x, ofBlock b]
  | .assert _ c m => .expr c :: (m.map expr).toList
  | .constructorCall _ _ q ts xs => (q.map expr).toList ++ ts.map type ++ xs.map expr

/-- The children of a node in the order of the source. -/
def children : Node → List Node
  | .ident _ => []
  | .qualifiedName n => n.parts.map ident
  | .unit u =>
    (u.package.map package).toList ++ u.imports.map «import» ++ (u.module.map module).toList ++
      u.types.map typeDecl
  | .package d => d.annots.map annot ++ [.qualifiedName d.name]
  | .import d => [.qualifiedName d.name]
  | .module d => d.annots.map annot ++ [.qualifiedName d.name] ++ d.directives.map directive
  | .directive d => .qualifiedName d.name :: d.targets.map qualifiedName
  | .typeDecl d => ofTypeDecl d
  | .modifiers m => m.annots.map annot
  | .field d => ofVarDecl d
  | .declarator v => .ident v.name :: (v.init.map expr).toList
  | .method d => ofMethod d
  | .param p => (p.modifiers.map modifiers).toList ++ (p.type.map type).toList ++ [.ident p.name]
  | .initializer _ _ b => [ofBlock b]
  | .constant c =>
    c.annots.map annot ++ [.ident c.name] ++ c.args.map expr ++ (c.body.map typeDecl).toList
  | .typeParam p => p.annots.map annot ++ [.ident p.name] ++ p.bounds.map type
  | .annot a => .qualifiedName a.name :: a.args.map element
  | .element e => (e.name.map ident).toList ++ [.expr e.value]
  | .switchCase c => c.labels.map expr ++ (c.guard.map expr).toList ++ c.body.map stmt
  | .catchClause c => [.param c.param, ofBlock c.body]
  | .stmt s => ofStmt s
  | .expr x => ofExpr x
  | .type t => ofTypeNode t

/-! ## Attributes -/

/-- A detail of a node. -/
inductive Attribute where
  | set
  | number (n : Nat)
  | text (t : Text)
  | texts (ts : List Text)
  | offsets (ns : List Nat)
  | comments (cs : List Comment)
deriving Inhabited

/-- An attribute that is written only if it holds. -/
def flag (name : String) (b : Bool) : List (String × Attribute) :=
  if b then [(name, .set)] else []

/-- An attribute that is written only if it is not zero. -/
def count (name : String) (n : Nat) : List (String × Attribute) :=
  if n == 0 then [] else [(name, .number n)]

def docOf (doc : Option Comment) : List (String × Attribute) :=
  (doc.map fun c => ("Doc", .offsets [c.span.start.offset, c.span.stop.offset])).toList

/-- The word or token that a node stands for: what distinguishes it beyond its kind and children. -/
def spelling : Node → Text
  | .ident n => n.name
  | .expr (.literal _ _ raw) => raw
  | .expr (.unary _ op ..) => op.text
  | .expr (.binary _ op ..) => op.text
  | .expr (.assign _ op ..) => op.text
  | .modifiers m => m.flags.words
  | .typeDecl d => d.kind.name
  | .type (.primitive _ t) => t.name
  | _ => {}

def exprAttributes (x : Expr) : List (String × Attribute) :=
  match x with
  | .literal _ kind raw => [("Raw", .text raw), ("LitKind", .text kind.name)]
  | .unary _ op _ isPostfix => ("Op", .text op.text) :: flag "Postfix" isPostfix
  | .binary _ op .. => [("Op", .text op.text)]
  | .assign _ op .. => [("Op", .text op.text)]
  | .newArray _ _ _ extra _ => count "ExtraDims" extra
  | .lambda _ _ _ _ isExplicit => flag "Explicit" isExplicit
  | _ => []

/-- What a node holds besides its children, by name. -/
def attributes (n : Node) : List (String × Attribute) :=
  match n with
  | .ident _ => [("Name", .text n.spelling)]
  | .unit u =>
    ("File", .text u.file) ::
      (if u.comments.isEmpty then [] else [("Comments", .comments u.comments)])
  | .import d => flag "Static" d.isStatic ++ flag "OnDemand" d.onDemand
  | .module d => flag "Open" d.isOpen
  | .directive d =>
    ("Directive", .text d.word) ::
      (if d.modifiers.isEmpty then [] else [("Modifiers", .texts d.modifiers)])
  | .typeDecl d =>
    [("DeclKind", .text n.spelling)] ++ flag "Anonymous" d.isAnonymous ++ flag "Local" d.isLocal ++
      docOf d.doc ++
      (if d.bodyStart.line == 0 then [] else [("BodyStart", .number d.bodyStart.offset)])
  | .modifiers _ => [("Mods", .text n.spelling)]
  | .field d => docOf d.doc
  | .declarator v => count "Dims" v.dims
  | .method d =>
    count "Dims" d.dims ++ flag "Compact" d.isCompact ++ flag "Constructor" d.isConstructor ++
      docOf d.doc
  | .param p => count "Dims" p.dims ++ flag "Varargs" p.varargs
  | .initializer _ isStatic _ => flag "Static" isStatic
  | .constant c => docOf c.doc
  | .switchCase c => flag "Arrow" c.isArrow ++ flag "Default" c.isDefault
  | .stmt (.constructorCall _ isSuper ..) => flag "Super" isSuper
  | .expr x => exprAttributes x
  | .type (.primitive _ t) => [("Prim", .text t.name)]
  | .type (.cls _ _ _ _ _ diamond) => flag "Diamond" diamond
  | .type (.wildcard _ _ isLower) => flag "Super" isLower
  | _ => []

/-! ## Walks -/

/-- The nodes at most `depth` below a node, each before its children. -/
def preorder : Nat → Node → List Node
  | 0, _ => []
  | depth + 1, n => n :: n.children.flatMap (preorder depth)

end Node

/-- What analysis finds out about the nodes of a tree: those never run, and the `finally` blocks
that a jump passes through. -/
structure Notes where
  unreachable : Std.HashSet Nat := {}
  subroutines : Std.HashMap Nat (List Info) := {}
deriving Inhabited

namespace Notes

/-- The marks of a node, with those that analysis adds. -/
def flagsOf (notes : Notes) (i : Info) : NodeFlags :=
  if notes.unreachable.contains i.id then i.flags.union .unreachable else i.flags

/-- The attributes of a node, with those that analysis adds. -/
def attributesOf (notes : Notes) (n : Node) : List (String × Node.Attribute) :=
  let flags := notes.flagsOf n.info
  let passed := match n with
    | .stmt (.break i _) | .stmt (.continue i _) | .stmt (.yield i _) =>
      notes.subroutines.getD i.id []
    | _ => []
  Node.count "Flags" flags.bits.toNat ++ n.attributes ++
    if passed.isEmpty then [] else [("Subroutines", .offsets (passed.map (·.span.start.offset)))]

end Notes

end Javelin
