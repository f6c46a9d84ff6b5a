import Javelin.Types.Substitution

/-!
# Names, descriptors and signatures of types

A type has a name in messages, with or without packages, a descriptor that names its erasure in
class files, and a generic signature if it mentions type variables or type arguments.
-/

namespace Javelin

/-- The name of a declared type relative to its package. -/
def Declared.sourceName (d : Declared) : Text :=
  if d.package.isEmpty then d.qualified else d.qualified.dropStart (d.package ++ ".")

namespace Lookup

/-- The text with brackets around it, or nothing for an empty list. -/
def inAngles (ts : List Text) : Text :=
  if ts.isEmpty then {} else "<" ++ Text.join "," ts ++ ">"

variable [Answers]

/-! ## Names in messages -/

/-- The name of a declared type, with its type variables. -/
def declaredSpelling (qualified : Bool) (d : Declared) : Lookup Text := do
  let name ← if d.isAnonymous then do
      let super := d.interfaces.head?.getD d.superclass
      pure ("new " ++ (← ask (.spelling qualified super)) ++ "()\x7b\x7d")
    else pure (if qualified || d.isLocal then d.qualified else d.sourceName)
  let vars ← d.typeVars.mapM fun v => return (← entry v).shape.name
  return name ++ inAngles vars

/-- The name of a type in messages: type arguments are written without spaces. -/
def spellingRule (qualified : Bool) (t : TypeId) : Lookup Text := do
  let (id, s) ← view t
  let spell := fun u => ask (.spelling qualified u)
  let named := fun (d : Declared) => if qualified then d.qualified else d.sourceName
  match s with
  | .absent => return "<error>"
  | .base _ | .null | .variable _ | .captured _ => return s.name
  | .declared d => declaredSpelling qualified d
  | .composite (.raw g) => return named (← shape g).declaredD
  | .composite (.parameterized g ..) =>
    let d := (← shape g).declaredD
    let (args, outer, _) ← parts id
    let name ← if outer.isSome then do pure ((← spell outer) ++ "." ++ d.name)
      else pure (named d)
    return name ++ inAngles (← args.mapM spell)
  | .composite (.array e n) =>
    return (← spell e) ++ Text.concat (List.replicate n "[]")
  | .composite (.wildcard b .upper) => return "? extends " ++ (← spell b)
  | .composite (.wildcard b .lower) => return "? super " ++ (← spell b)
  | .composite (.wildcard ..) => return "?"
  | .composite (.intersection bs) => return Text.join " & " (← bs.mapM spell)
  | .unresolved parts _ => return Text.join "." parts

/-- A list of types in messages. -/
def typeNames (ts : List TypeId) : Lookup Text := do return Text.join ", " (← ts.mapM typeName)

/-- A method in messages: its name and its parameter types. -/
def methodName (m : MethodId) : Lookup Text := do
  if !m.isSome then
    return "<error>"
  let e ← methodEntry m
  let name ← if e.isConstructor then do pure (← shape e.declaring).name else pure e.name
  return name ++ "(" ++ (← typeNames e.params) ++ ")"

/-! ## Descriptors -/

/-- The descriptor of a type whose erasure has at most `n` layers of arrays. -/
def descriptorIn : Nat → TypeId → Lookup Text
  | 0, _ => return {}
  | n + 1, t => do
    match ← shape (← erasure t) with
    | .absent | .null => return "Ljava/lang/Object;"
    | .base b => return (b.letter?.map Text.singleton).getD (if b == .void then "V" else {})
    | .composite (.array e k) => return Text.replicate k '[' ++ (← descriptorIn n e)
    | .declared d => return "L" ++ d.binaryName ++ ";"
    | .unresolved parts _ => return "L" ++ internalName parts ++ ";"
    | _ => return "L;"

/-- The descriptor of the erasure of a type. -/
def descriptor (t : TypeId) : Lookup Text := do descriptorIn ((← get).types.size + 1) t

def descriptorOf (params : List TypeId) (result : TypeId) : Lookup Text := do
  return "(" ++ Text.concat (← params.mapM descriptor) ++ ")" ++ (← descriptor result)

/-- The descriptor of the declaration of a method. -/
def methodDescriptor (m : MethodId) : Lookup Text := do
  let e ← methodEntry m
  let e ← if e.root.isSome then methodEntry e.root else pure e
  descriptorOf e.params e.result

/-- The name that the pool of a class file has for the erasure of a reference type. -/
def binaryName (t : TypeId) : Lookup Text := do
  let t ← erasure t
  match ← shape t with
  | .absent => return "java/lang/Object"
  | .composite (.array ..) => descriptor t
  | .declared d => return d.binaryName
  | .unresolved parts _ => return internalName parts
  | _ => return {}

/-! ## Signatures -/

/-- Whether a type mentions type variables or arguments; the layers of arrays are at most `n`. -/
def isGenericIn : Nat → TypeId → Lookup Bool
  | 0, _ => return false
  | n + 1, t => do
    match ← shape t with
    | .variable _ | .captured _ => return true
    | .composite (.parameterized ..) | .composite (.wildcard ..) => return true
    | .composite (.array e _) => isGenericIn n e
    | _ => return false

/-- Whether a type needs a signature besides its descriptor. -/
def isGenericType (t : TypeId) : Lookup Bool := do isGenericIn ((← get).types.size + 1) t

/-- The generic signature of a type. -/
def signatureRule (t : TypeId) : Lookup Text := do
  let (id, s) ← view t
  let sign := fun u => ask (.signature u)
  match s with
  | .absent => return "Ljava/lang/Object;"
  | .variable v => return "T" ++ v.name ++ ";"
  | .captured _ | .composite (.intersection _) => sign (← erasure t)
  | .composite (.array e n) => return Text.replicate n '[' ++ (← sign e)
  | .composite (.wildcard b .upper) => return "+" ++ (← sign b)
  | .composite (.wildcard b .lower) => return "-" ++ (← sign b)
  | .composite (.wildcard ..) => return "*"
  | .composite (.parameterized g ..) =>
    let d := (← shape g).declaredD
    let (args, outer, _) ← parts id
    let head ← if (← shape outer).isParameterized then do
        pure ((← sign outer).dropEnd ";" ++ "." ++ d.name)
      else pure ("L" ++ d.binaryName)
    let args ← args.mapM sign
    return head ++ (if args.isEmpty then {} else "<" ++ Text.concat args ++ ">") ++ ";"
  | _ => descriptor t

def signature (t : TypeId) : Lookup Text := ask (.signature t)

/-- Whether a type is an interface or an instance of one. -/
def isInterfaceType (t : TypeId) : Lookup Bool := do
  match ← declarationShape t with
  | .declared d => return d.traits.has .interface
  | _ => return false

/-- Whether a type is a class or an instance of one. -/
def isClassType (t : TypeId) : Lookup Bool := do
  match ← declarationShape t with
  | .declared d => return !d.traits.has .interface
  | _ => return false

/-- The bounds of a type variable in a signature; a first bound that is an interface follows an
empty class bound. -/
def boundsSignature : List TypeId → Lookup Text
  | [] => return ":Ljava/lang/Object;"
  | b :: bs => do
    let isInterface ← andAlso (isInterfaceType b) do return !(← shape b).isVariable
    let rest ← bs.mapM fun b => do return ":" ++ (← signature b)
    return (if isInterface then "::" else ":") ++ (← signature b) ++ Text.concat rest

def typeParamsSignature (vars : List TypeId) : Lookup Text := do
  if vars.isEmpty then
    return {}
  let ps ← vars.mapM fun v => do
    let s ← shape v
    return s.name ++ (← boundsSignature (s.bounds?.getD []))
  return "<" ++ Text.concat ps ++ ">"

/-- The signature of a class, empty if neither it nor a supertype is generic. -/
def classSignature (t : TypeId) : Lookup Text := do
  let (id, _) ← view t
  ensureSupertypes t
  let d := (← entry id).shape.declaredD
  let needed ← orElse (pure !d.typeVars.isEmpty)
    (orElse (isGenericType d.superclass) (anyM isGenericType d.interfaces))
  unless needed do
    return {}
  let params ← typeParamsSignature d.typeVars
  let super ← if d.superclass.isSome then signature d.superclass else pure "Ljava/lang/Object;"
  return params ++ super ++ Text.concat (← d.interfaces.mapM signature)

/-- The signature of a method, empty if its descriptor says everything. -/
def methodSignature (m : MethodId) : Lookup Text := do
  let e ← methodEntry m
  let needed ← orElse (pure !e.typeVars.isEmpty)
    (orElse (isGenericType e.result) (anyM isGenericType e.params))
  let throwsGeneric ← anyM (fun x => do return (← shape x).isVariable) e.throws
  unless needed || throwsGeneric do
    return {}
  let params ← typeParamsSignature e.typeVars
  let formals ← e.params.mapM signature
  let result ← signature e.result
  let throws ← if throwsGeneric then e.throws.mapM fun x => do return "^" ++ (← signature x)
    else pure []
  return params ++ "(" ++ Text.concat formals ++ ")" ++ result ++ Text.concat throws

/-- The signature of a field of the given type, empty if its descriptor says everything. -/
def fieldSignature (t : TypeId) : Lookup Text := do
  if ← isGenericType t then signature t else return {}

end Lookup

end Javelin
