import Javelin.Constant.Fold
import Javelin.Syntax.Node
import Javelin.Types.Members
import Javelin.Types.Spelling

/-!
# Descriptions of what is known

Types, members and the findings about the nodes of a tree as documents.
-/

namespace Javelin.Lookup

open JsonValue

variable [Answers]

/-- The name of a type with packages. -/
def describeName (t : TypeId) : Lookup JsonValue := return .string (← qualifiedName t)

def describeNames (ts : List TypeId) : Lookup JsonValue := return .array (← ts.mapM describeName)

/-- The kind and names of a type. -/
def describeType (t : TypeId) : Lookup JsonValue := do
  if t.isNone then
    return .null
  let (id, s) ← view t
  let isDegraded := (← parts id).2.2
  return record ([("kind", .string s.kindName), ("name", ← describeName t),
    ("short", .string (← typeName t))] ++ if isDegraded then [("degraded", .bool true)] else [])

def describeMethod (m : MethodId) : Lookup JsonValue := do
  if !m.isSome then
    return .null
  let e ← methodEntry m
  return .array [← describeName e.declaring, .string e.name, ← describeNames e.params,
    ← describeName e.result]

def describeField (f : FieldId) : Lookup JsonValue := do
  if !f.isSome then
    return .null
  let e ← fieldEntry f
  let owner ← if e.declaring.isNone then pure .null else describeName e.declaring
  return .array [owner, .string e.name, ← describeName e.type]

def describeSymbol : Symbol → Lookup JsonValue
  | .type t => return .array [.string "type", ← describeName t]
  | .method m => return .array [.string "method", ← describeMethod m]
  | .field f => return .array [.string "field", ← describeField f]
  | .var v => do
    let l ← localEntry v
    return .array [.string "local", .string l.name, ← describeName l.type, .nat l.index,
      .bool l.isFinal, .bool l.isEffectivelyFinal, .bool l.isParam, .bool l.isPattern,
      Constant.describe l.constant]

/-- A field for what is known, if something is. -/
def describeAs {α : Type} (key : String) (a : Option α) (f : α → Lookup JsonValue) :
    Lookup (List (String × JsonValue)) :=
  match a with
  | none => return []
  | some a => return [(key, ← f a)]

/-- All findings about a node with its kind and place, if there are any. -/
def describeNode (n : Node) : Lookup (Option JsonValue) := do
  let f := (← get).findings
  let i := n.info.id
  let mark (key : String) (s : Std.HashSet Nat) : List (String × JsonValue) :=
    if s.contains i then [(key, .bool true)] else []
  let localType (t : TypeId) : Lookup JsonValue := do
    return .array [← describeName t, .string (← binaryName t)]
  let found := [← describeAs "type" f.types[i]? describeName,
    ← describeAs "const" f.constants[i]? fun c => return Constant.describe (some c),
    ← describeAs "conv" f.conversions[i]? describeName,
    ← describeAs "ref" f.typeRefs[i]? describeName,
    ← describeAs "def" f.defs[i]? describeSymbol,
    ← describeAs "use" f.uses[i]? describeSymbol,
    ← describeAs "local_type" f.localTypes[i]? localType,
    ← describeAs "method" f.methods[i]? describeMethod,
    ← describeAs "field" f.fields[i]? describeField,
    mark "varargs" f.varargs, mark "erroneous" f.erroneous, mark "aborted" f.aborted].flatten
  let s := n.info.span
  if found.isEmpty then
    return none
  return some (.array [.string n.kind, .nat s.start.offset, .nat s.stop.offset, record found])

/-- The findings about all nodes of a source file. -/
def describeUnit (u : CompilationUnit) : Lookup JsonValue := do
  let depth := (← get).nextNode + 1
  return .array (← ((Node.unit u).preorder depth).filterMapM describeNode)

/-- A class or interface with its members. -/
def describeClass (t : TypeId) : Lookup JsonValue := do
  let _ ← findField t {}
  let d := (← shape t).declaredD
  let bits (x : Traits) : JsonValue := .nat x.bits.toNat
  let methods ← d.methods.mapM fun m => do
    let e ← methodEntry m
    return .array [.string (← methodName m), bits e.traits, .string (← methodDescriptor m),
      .string (← methodSignature m), ← describeNames e.throws]
  let fields ← d.fields.mapM fun f => do
    let e ← fieldEntry f
    return .array [.string e.name, bits e.traits, ← describeName e.type,
      Constant.describe (← fieldConstant f)]
  return record [("modifiers", bits d.traits), ("decl", .string d.kind.name),
    ("package", .string d.package), ("qualified", .string d.qualified),
    ("binary", .string d.binaryName), ("enclosing", ← describeType d.enclosing),
    ("super", ← describeType d.superclass), ("interfaces", ← describeNames d.interfaces),
    ("vars", ← describeNames d.typeVars), ("signature", .string (← classSignature t)),
    ("methods", .array methods), ("fields", .array fields),
    ("types", ← describeNames d.memberTypes)]

end Javelin.Lookup
