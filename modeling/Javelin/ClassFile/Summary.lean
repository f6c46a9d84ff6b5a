import Javelin.ClassFile.Basic
import Javelin.ClassFile.Descriptor
import Javelin.Text.JsonValue

/-!
# Summaries of class files

What a class declares, for readers: one line for the class and each member with the columns divided
by tabs, or a JSON document.
-/

namespace Javelin.ClassFile

/-! ## Words -/

/-- The words of the flags that are set. -/
def flagWords (f : AccessFlags) (table : List (AccessFlags × String)) : List Text :=
  table.filterMap fun (g, w) => if f.has g then some (w : Text) else none

def kindWord (c : ClassFile) : Text :=
  if c.flags.has .annot then "annotation"
  else if c.flags.has .enum then "enum"
  else if c.flags.has .interface then "interface"
  else if c.flags.has .module then "module"
  else if c.superName == "java/lang/Record" then "record"
  else "class"

def visibility (f : AccessFlags) : Text :=
  if f.has .public then "public"
  else if f.has .protected then "protected"
  else if f.has .private then "private"
  else "package"

def classWords (f : AccessFlags) : List Text :=
  let abstractWord : List Text := if f.has .abstract && !f.has .interface then ["abstract"] else []
  abstractWord ++ flagWords f [(.final, "final"), (.synthetic, "synthetic")]

def fieldWords (f : AccessFlags) : List Text :=
  flagWords f [(.static, "static"), (.final, "final"), (.volatile, "volatile"),
    (.transient, "transient"), (.enum, "enum"), (.synthetic, "synthetic")]

def methodWords (f : AccessFlags) : List Text :=
  flagWords f [(.static, "static"), (.final, "final"), (.abstract, "abstract"),
    (.synchronized, "synchronized"), (.native, "native"), (.varargs, "varargs"),
    (.bridge, "bridge"), (.synthetic, "synthetic")]

/-- The source form of a field descriptor; what is none stays as it is. -/
def fieldTypeName (d : Text) : Text :=
  match Descriptor.Field.ofText d with
  | .ok f => f.sourceName
  | .error _ => d

/-- The source forms of the result and the parameters of a method descriptor. -/
def methodTypeNames (d : Text) : Text × List Text :=
  match Descriptor.Method.ofText d with
  | .ok m => ((m.result.map Descriptor.Field.sourceName).getD "void",
      m.params.map Descriptor.Field.sourceName)
  | .error _ => (d, [])

/-! ## Lines -/

/-- Items between commas, or a dash if there are none. -/
def orDash (items : List Text) : Text := if items.isEmpty then "-" else Text.join "," items

def row (columns : List Text) : Text := Text.join "\t" columns ++ "\n"

def classRow (c : ClassFile) : Text :=
  row [kindWord c, c.name.dotted, visibility c.flags, orDash (classWords c.flags),
    if c.superName.isEmpty then "-" else c.superName.dotted,
    orDash (c.interfaceNames.map Text.dotted)]

def fieldRow (p : Pool) (f : Member) : Text :=
  row ["field", f.nameText p, fieldTypeName (f.descriptorText p), visibility f.flags,
    orDash (fieldWords f.flags)]

def methodRow (p : Pool) (m : Member) : Text :=
  let (result, params) := methodTypeNames (m.descriptorText p)
  row ["method", m.nameText p, result, orDash params, visibility m.flags,
    orDash (methodWords m.flags)]

/-- One line for the class and each member. -/
def lines (c : ClassFile) : Text :=
  classRow c ++ Text.concat (c.fields.map (fieldRow c.pool)) ++
    Text.concat (c.methods.map (methodRow c.pool))

/-! ## Documents -/

/-- A number that has no JSON form. -/
inductive NotFinite where
  | nan
  | infinite (negative : Bool)
deriving DecidableEq, Repr

def NotFinite.message : NotFinite → Text
  | .nan => "json: unsupported value: NaN"
  | .infinite s => if s then "json: unsupported value: -Inf" else "json: unsupported value: +Inf"

/-- The digits of a finite number: positional from one millionth up to 10 ^ 21. -/
def numberText (digits : List Char) (exponent : Int) : String :=
  if exponent < -6 || 21 ≤ exponent then
    let fraction := if digits.length ≤ 1 then "" else "." ++ String.ofList (digits.drop 1)
    let sign := if exponent < 0 then "-" else "+"
    String.ofList (digits.take 1) ++ fraction ++ "e" ++ sign ++ toString exponent.natAbs
  else if exponent < 0 then
    "0." ++ String.ofList (List.replicate (-exponent - 1).toNat '0' ++ digits)
  else
    let point := exponent.toNat + 1
    if digits.length ≤ point then
      String.ofList (digits ++ List.replicate (point - digits.length) '0')
    else String.ofList (digits.take point) ++ "." ++ String.ofList (digits.drop point)

def floatingDocument (f : Number.Format) (bits : Nat) : Except NotFinite JsonValue :=
  match Number.decode f bits with
  | .nan => .error .nan
  | .infinite s => .error (.infinite s)
  | .finite s m e =>
    let body :=
      if m == 0 then "0"
      else
        let (digits, exponent) := Number.shortest f m e
        numberText (Number.trimZeros digits) exponent
    .ok (.number (if s then "-" ++ body else body))

def constantDocument : Constant → Except NotFinite JsonValue
  | .float b => floatingDocument Number.single b.toNat
  | .double b => floatingDocument Number.double b.toNat
  | .string t => .ok (.string t)
  | c => .ok (.number c.render)

def fieldDocument (p : Pool) (f : Member) : Except NotFinite JsonValue := do
  let constant ← match f.constantValue? p with
    | some c => pure (JsonValue.field "constant" (← constantDocument c))
    | none => pure []
  let d := f.descriptorText p
  return .object (JsonValue.field "name" (.string (f.nameText p)) ++
    JsonValue.field "type" (.string (fieldTypeName d)) ++
    JsonValue.field "descriptor" (.string d) ++
    JsonValue.field "visibility" (.string (visibility f.flags)) ++
    JsonValue.listField "modifiers" ((fieldWords f.flags).map .string) ++ constant)

def codeDocument (c : Code) : JsonValue :=
  .object (JsonValue.field "maxStack" (.nat c.maxStack.toNat) ++
    JsonValue.field "maxLocals" (.nat c.maxLocals.toNat) ++
    JsonValue.field "length" (.nat c.bytes.size) ++
    JsonValue.countField "handlers" c.handlers.length)

def methodDocument (p : Pool) (m : Member) : JsonValue :=
  let d := m.descriptorText p
  let (result, params) := methodTypeNames d
  .object (JsonValue.field "name" (.string (m.nameText p)) ++
    JsonValue.field "returnType" (.string result) ++
    JsonValue.listField "parameters" (params.map .string) ++
    JsonValue.field "descriptor" (.string d) ++
    JsonValue.field "visibility" (.string (visibility m.flags)) ++
    JsonValue.listField "modifiers" ((methodWords m.flags).map .string) ++
    JsonValue.listField "exceptions"
      ((m.exceptionNames p).map fun n => .string n.dotted) ++
    match m.code? p with
    | some c => JsonValue.field "code" (codeDocument c)
    | none => [])

/-- The document of a class; a constant without a JSON form has none. -/
def document (c : ClassFile) : Except NotFinite JsonValue := do
  let fields ← c.fields.mapM (fieldDocument c.pool)
  let version := JsonValue.field "major" (.nat c.major.toNat) ++
    JsonValue.field "minor" (.nat c.minor.toNat)
  return .object (JsonValue.field "name" (.string c.name.dotted) ++
    JsonValue.textField "superClass" c.superName.dotted ++
    JsonValue.listField "interfaces" (c.interfaceNames.map fun n => .string n.dotted) ++
    JsonValue.field "visibility" (.string (visibility c.flags)) ++
    JsonValue.field "kind" (.string (kindWord c)) ++
    JsonValue.listField "modifiers" ((classWords c.flags).map .string) ++
    JsonValue.textField "signature" c.signature ++
    JsonValue.textField "sourceFile" c.sourceFile ++
    JsonValue.field "version" (.object version) ++
    JsonValue.listField "fields" fields ++
    JsonValue.listField "methods" (c.methods.map (methodDocument c.pool)))

end Javelin.ClassFile
