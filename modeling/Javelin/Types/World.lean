import Std.Data.HashMap
import Std.Data.HashSet
import Javelin.Problem.Basic
import Javelin.Types.Basic

/-!
# What is known about a program

`World` holds all types, methods, fields and variables that were met so far, the source files they
come from, and what was found out about the nodes of their syntax trees. It only grows.

1. `NameSource`, where types that are not being compiled come from.
2. `Scope`, the places a name can be looked up from.
3. `Findings`, what is known about nodes.
4. `World` and the monad `Lookup` of questions about it.
5. Rows of the tables.
-/

namespace Javelin

/-! ## Where types come from -/

/-- A source file that may be loaded. -/
structure SourceFile where
  name : Text
  contents : Text
deriving Inhabited

/-- What a type can be loaded from. -/
inductive Found where
  | binary (file : ClassFile)
  | source (file : SourceFile)

/-- The class path and the source path. -/
structure NameSource where
  /-- What declares the type whose name has the given parts; the last part may name a member type
  in binary form. -/
  find? : List Text → Option Found
  /-- Whether a package of the given name lies in the parent package. -/
  isPackage : List Text → Text → Bool

/-- Nothing can be loaded. -/
def NameSource.empty : NameSource := ⟨fun _ => none, fun _ _ => false⟩

instance : Inhabited NameSource := ⟨.empty⟩

/-- The first source that knows a name decides. -/
def NameSource.chain (sources : List NameSource) : NameSource where
  find? name := sources.findSome? (·.find? name)
  isPackage parent name := sources.any (·.isPackage parent name)

/-! ## Scopes -/

/-- The scope of a method, constructor, initializer or lambda. `result` is the type that return
statements must produce; `frame` holds the parameters and `body` counts the variables. -/
structure MethodScope where
  method : MethodId := .none
  isStatic : Bool := false
  isLambda : Bool := false
  typeVars : List TypeId := []
  result : TypeId := .none
  frame : Nat := 0
  body : Nat := 0
deriving Inhabited

/-- A lexical scope. Names are looked up from the innermost one outward. -/
inductive Scope where
  | unit (id : UnitId)
  | type (parent : Scope) (id : TypeId)
  | method (parent : Scope) (m : MethodScope)
  | block (parent : Scope) (frame : Nat)
deriving Inhabited

namespace Scope

/-- The innermost method, initializer or lambda. -/
def method? : Scope → Option MethodScope
  | unit _ => none
  | type p _ => p.method?
  | method _ m => some m
  | block p _ => p.method?

/-- The innermost class, none at the level of the file. -/
def currentType : Scope → TypeId
  | unit _ => .none
  | type _ t => t
  | method p _ => p.currentType
  | block p _ => p.currentType

/-- Whether code here has no instance of the innermost class. -/
def isStatic : Scope → Bool
  | unit _ => true
  | type .. => false
  | method p m => m.isStatic || (m.isLambda && p.isStatic)
  | block p _ => p.isStatic

/-- The frame that a declaration here goes to. -/
def frame? : Scope → Option Nat
  | method _ m => some m.frame
  | block _ f => some f
  | _ => none

end Scope

/-- The variables and local classes declared in one scope, the latest first. -/
structure Frame where
  locals : List (Text × LocalId) := []
  types : List (Text × TypeId) := []
deriving Inhabited

/-! ## Findings -/

/-- What is known about the nodes of syntax trees, by the numbers of the nodes. -/
structure Findings where
  /-- The types of expressions. -/
  types : Std.HashMap Nat TypeId := {}
  /-- The types that type nodes denote. -/
  typeRefs : Std.HashMap Nat TypeId := {}
  /-- What declaring identifiers declare. -/
  defs : Std.HashMap Nat Symbol := {}
  /-- What identifiers in expressions refer to. -/
  uses : Std.HashMap Nat Symbol := {}
  /-- The methods that calls invoke and lambdas implement. -/
  methods : Std.HashMap Nat MethodId := {}
  /-- The fields that expressions read or write. -/
  fields : Std.HashMap Nat FieldId := {}
  /-- The values of constant expressions. -/
  constants : Std.HashMap Nat Constant := {}
  /-- The types that expressions are converted to by their context. -/
  conversions : Std.HashMap Nat TypeId := {}
  /-- The types that local and anonymous class bodies declare. -/
  localTypes : Std.HashMap Nat TypeId := {}
  /-- The invocations that pass arguments through a variable arity parameter. -/
  varargs : Std.HashSet Nat := {}
  /-- The members whose bodies hold errors. -/
  erroneous : Std.HashSet Nat := {}
  /-- The members and types that were given up part way. -/
  aborted : Std.HashSet Nat := {}
deriving Inhabited

namespace Findings

/-- The type of an expression; none if it is unknown. -/
def typeOf (f : Findings) (i : Info) : TypeId := f.types.getD i.id .none

/-- The type of an expression after the conversion that its context applies. -/
def convertedType (f : Findings) (i : Info) : TypeId :=
  (f.conversions[i.id]?).getD (f.typeOf i)

end Findings

/-! ## Source files -/

/-- What the imports of a file bring into scope. -/
structure Imports where
  isDone : Bool := false
  single : Std.HashMap Text TypeId := {}
  packages : List Text := []
  types : List TypeId := []
  staticSingle : Std.HashMap Text (List TypeId) := {}
  staticTypes : List TypeId := []
deriving Inhabited

/-- A source file. Problems of a silent one are dropped, because it is not being compiled. -/
structure UnitEntry where
  unit : CompilationUnit := {}
  isSilent : Bool := false
  package : Text := {}
  types : List TypeId := []
  imports : Imports := {}
  isCompleted : Bool := false
  isResolved : Bool := false
deriving Inhabited

/-- The surroundings of what is being resolved. Quiet work reports nothing and leaves no findings
behind; it serves to evaluate the initializers of constants ahead of time. -/
structure Context where
  unit : UnitId
  isQuiet : Bool := false
  /-- The member whose body is being resolved. -/
  member : Option Nat := none
  /-- How deeply the expression is nested. -/
  depth : Nat := 0
  /-- The type expected of the values of the innermost switch expression. -/
  yieldTarget : Option TypeId := none
deriving Inhabited

/-- A parameterized type whose arguments are to be checked against the bounds of the variables. -/
structure BoundCheck where
  context : Context
  node : Info
  type : TypeId
deriving Inhabited

/-! ## The world -/

/-- The primitive types, `void` and the null type stand at fixed places of the table of types. -/
def baseTypes : List BasicType :=
  [.boolean, .byte, .char, .short, .int, .long, .float, .double, .void]

def firstTypes : Array TypeEntry :=
  ([Shape.absent] ++ baseTypes.map Shape.base ++ [Shape.null]).toArray.map fun s => { shape := s }

structure World where
  names : NameSource := .empty
  level : Level := .latest
  types : Array TypeEntry := firstTypes
  methods : Array MethodEntry := #[{}]
  fields : Array FieldEntry := #[{}]
  locals : Array LocalEntry := #[{}]
  units : Array UnitEntry := #[]
  packages : Std.HashSet Text := {}
  byBinaryName : Std.HashMap Text TypeId := {}
  byName : Std.HashMap Text TypeId := {}
  wellKnown : Std.HashMap Text TypeId := {}
  /-- The types named in class files and not looked up when they were met. -/
  placeholders : Std.HashMap Text TypeId := {}
  composites : Std.HashMap Composite TypeId := {}
  /-- Types that turned out to be other types. -/
  redirects : Std.HashMap TypeId TypeId := {}
  fieldCopies : Std.HashMap (TypeId × FieldId) FieldId := {}
  methodCopies : Std.HashMap (TypeId × MethodId) MethodId := {}
  inferences : Std.HashMap (MethodId × List TypeId) MethodId := {}
  arrayClones : Std.HashMap TypeId MethodId := {}
  arrayLength : FieldId := .none
  typeOfDecl : Std.HashMap Nat TypeId := {}
  methodOfDecl : Std.HashMap Nat MethodId := {}
  fieldOfDecl : Std.HashMap Nat FieldId := {}
  /-- How many local classes a class has so far. -/
  localCounts : Std.HashMap TypeId Nat := {}
  scopes : Std.HashMap TypeId Scope := {}
  boundChecks : Array BoundCheck := #[]
  frames : Array Frame := #[{}]
  /-- The next number of a variable, for each body. -/
  bodies : Array Nat := #[0]
  findings : Findings := {}
  /-- The findings of quiet work, the innermost first. -/
  trials : List Findings := []
  /-- The results of the innermost switch expression so far. -/
  yields : Array Expr := #[]
  reports : Array Problem := #[]
  nextNode : Nat := 1
deriving Inhabited

/-- A question about a growing world. An abort leaves the world as it was when it arose. -/
abbrev Lookup := EStateM Abort World

namespace Lookup

/-! ## Rows -/

/-- The row of a type as it stands, without following redirections. -/
def entry (t : TypeId) : Lookup TypeEntry := return (← get).types.getD t.index {}

def modifyEntry (t : TypeId) (f : TypeEntry → TypeEntry) : Lookup Unit :=
  modify fun w => { w with types := w.types.modify t.index f }

def modifyShape (t : TypeId) (f : Shape → Shape) : Lookup Unit :=
  modifyEntry t fun e => { e with shape := f e.shape }

/-- Changes a declared type and leaves all others alone. -/
def modifyDeclared (t : TypeId) (f : Declared → Declared) : Lookup Unit :=
  modifyShape t fun
    | .declared d => .declared (f d)
    | s => s

/-- Changes a type variable and leaves all other types alone. -/
def modifyVariable (t : TypeId) (f : Variable → Variable) : Lookup Unit :=
  modifyShape t fun
    | .variable v => .variable (f v)
    | .captured v => .captured (f v)
    | s => s

def addType (s : Shape) : Lookup TypeId := do
  let t : TypeId := ⟨(← get).types.size⟩
  modify fun w => { w with types := w.types.push { shape := s } }
  return t

def addMethod (m : MethodEntry) : Lookup MethodId := do
  let id : MethodId := ⟨(← get).methods.size⟩
  let m := if m.root.isSome then m else { m with root := id }
  modify fun w => { w with methods := w.methods.push m }
  return id

def addField (f : FieldEntry) : Lookup FieldId := do
  let id : FieldId := ⟨(← get).fields.size⟩
  let f := if f.root.isSome then f else { f with root := id }
  modify fun w => { w with fields := w.fields.push f }
  return id

def addLocal (l : LocalEntry) : Lookup LocalId := do
  let id : LocalId := ⟨(← get).locals.size⟩
  modify fun w => { w with locals := w.locals.push l }
  return id

def methodEntry (m : MethodId) : Lookup MethodEntry := return (← get).methods.getD m.index {}

def fieldEntry (f : FieldId) : Lookup FieldEntry := return (← get).fields.getD f.index {}

def localEntry (l : LocalId) : Lookup LocalEntry := return (← get).locals.getD l.index {}

def unitEntry (u : UnitId) : Lookup UnitEntry := return (← get).units.getD u.index {}

def modifyMethod (m : MethodId) (f : MethodEntry → MethodEntry) : Lookup Unit :=
  modify fun w => { w with methods := w.methods.modify m.index f }

def modifyField (id : FieldId) (f : FieldEntry → FieldEntry) : Lookup Unit :=
  modify fun w => { w with fields := w.fields.modify id.index f }

def modifyLocal (l : LocalId) (f : LocalEntry → LocalEntry) : Lookup Unit :=
  modify fun w => { w with locals := w.locals.modify l.index f }

def modifyUnit (u : UnitId) (f : UnitEntry → UnitEntry) : Lookup Unit :=
  modify fun w => { w with units := w.units.modify u.index f }

/-- The primitive type, `void` or null of the given name; none for other names. -/
def base (t : BasicType) : TypeId :=
  match baseTypes.idxOf? t with
  | some i => ⟨i + 1⟩
  | none => if t == .null then ⟨baseTypes.length + 1⟩ else .none

/-! ## Conditions with effects -/

/-- The second question is asked only if the answer to the first is yes. -/
def andAlso (a b : Lookup Bool) : Lookup Bool := do if ← a then b else return false

/-- The second question is asked only if the answer to the first is no. -/
def orElse (a b : Lookup Bool) : Lookup Bool := do if ← a then return true else b

def notM (a : Lookup Bool) : Lookup Bool := do return !(← a)

/-- Whether the answer is yes for all members; it asks no further than the first no. -/
def allM {α : Type} (p : α → Lookup Bool) : List α → Lookup Bool
  | [] => return true
  | a :: as => do if ← p a then allM p as else return false

/-- Whether the answer is yes for some member; it asks no further than the first yes. -/
def anyM {α : Type} (p : α → Lookup Bool) : List α → Lookup Bool
  | [] => return false
  | a :: as => do if ← p a then return true else anyM p as

/-! ## Problems and findings -/

/-- The findings that work in the given surroundings adds to. -/
def findings (c : Context) : Lookup Findings := do
  let w ← get
  return if c.isQuiet then w.trials.headD {} else w.findings

def modifyFindings (c : Context) (f : Findings → Findings) : Lookup Unit :=
  modify fun w =>
    if c.isQuiet then
      { w with trials := match w.trials with
          | [] => []
          | t :: ts => f t :: ts }
    else { w with findings := f w.findings }

/-- Reports a problem at a node and marks the member it lies in if it is an error. -/
def report (c : Context) (id : Problem.Id) (at_ : Info) (args : List Text) : Lookup Unit := do
  let u ← unitEntry c.unit
  let p := Problem.new id (.ofSpan u.unit.file at_.span) args
  if p.isError then
    if let some m := c.member then
      modifyFindings c fun f => { f with erroneous := f.erroneous.insert m }
  unless c.isQuiet || u.isSilent do
    modify fun w => { w with reports := w.reports.push p }

end Lookup

end Javelin
