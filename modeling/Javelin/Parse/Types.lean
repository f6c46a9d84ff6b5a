import Javelin.Parse.Basic

/-!
# Types, annotations, modifiers and parameters
-/

namespace Javelin.Parse

/-- A dotted name; a point before something else than an identifier is left alone. -/
def qualifiedName : Parser QName := do
  let start ← startPos
  let first ← ident
  let dotted := return (← check .dot) && (← checkAt 1 .identifier)
  let rest ← manyWhile dotted do
    let _ ← advance
    ident
  return ⟨← infoFrom start, first :: rest⟩

def annotsHere (g : Grammar) : Parser (List Annot) := manyWhile (check .at) g.annot

/-! ## Annotations -/

/-- A named argument of an annotation. -/
def namedValue (g : Grammar) : Parser ElementValue := do
  let start ← startPos
  let name ← ident
  expect_ .assign
  let value ← g.elementValue
  return ⟨← infoFrom start, some name, value⟩

/-- The arguments of an annotation between its parentheses. -/
def annotArgs (g : Grammar) : Parser (List ElementValue) := do
  if ← check .rparen then return []
  if (← check .identifier) && (← checkAt 1 .assign) then commaSeparated (namedValue g)
  else
    let start ← startPos
    let value ← g.elementValue
    return [⟨← infoFrom start, none, value⟩]

def annotRule (g : Grammar) : Parser Annot := do
  let start ← startPos
  expect_ .at
  let name ← qualifiedName
  let args ← if ← accept .lparen then
      let args ← annotArgs g
      expect_ .rparen
      pure args
    else pure []
  return ⟨← infoFrom start, name, args⟩

/-- Items up to a closing brace; a comma may stand behind the last one. -/
def bracedItems {α : Type} (item : Parser α) (acc : Array α) : Nat → Parser (List α)
  | 0 => throw .exhausted
  | fuel + 1 => do
    if ← check .rbrace then return acc.toList
    let acc := acc.push (← item)
    if ← accept .comma then bracedItems item acc fuel else return acc.toList

def elementValueRule (g : Grammar) : Parser Expr := do
  if ← check .at then return .annot (← g.annot)
  else if ← check .lbrace then
    let start ← startPos
    let _ ← advance
    let elems ← bracedItems g.elementValue #[] (← remaining)
    expect_ .rbrace
    return .arrayInit (← infoFrom start) elems
  else untracked g.conditional

/-! ## Types -/

def primitiveOf? : Token.Kind → Option BasicType
  | .kwBoolean => some .boolean
  | .kwByte => some .byte
  | .kwChar => some .char
  | .kwShort => some .short
  | .kwInt => some .int
  | .kwLong => some .long
  | .kwFloat => some .float
  | .kwDouble => some .double
  | _ => none

/-- Whether `[` and `]` follow. -/
def emptyBrackets : Parser Bool := return (← check .lbracket) && (← checkAt 1 .rbracket)

def skipBrackets : Parser Unit := do
  let _ ← advance
  let _ ← advance

/-- The number of pairs of brackets here. -/
def dimCount : Parser Nat := return (← manyWhile emptyBrackets skipBrackets).length

/-- One dimension behind an element type, if there is one; annotations may stand before it. -/
def dimension (g : Grammar) : Parser Bool := do
  if ← check .at then
    let follows ← lookahead do
      let _ ← annotsHere g
      expect_ .lbracket
      expect_ .rbracket
    if !follows then return false
    let _ ← annotsHere g
  if ← emptyBrackets then
    skipBrackets
    return true
  else return false

/-- The array type with the dimensions that follow a type. -/
def dimensionsOf (g : Grammar) (t : TypeNode) : Nat → Parser TypeNode
  | 0 => throw .exhausted
  | fuel + 1 => do
    if ← dimension g then
      let info ← newInfo ⟨t.info.start, (← get).prevEnd⟩
      dimensionsOf g (.array info t) fuel
    else return t

def dimensions (g : Grammar) (t : TypeNode) : Parser TypeNode := do dimensionsOf g t (← remaining)

/-- A type argument: a type or a wildcard. -/
def typeArg (g : Grammar) : Parser TypeNode := do
  let start ← startPos
  let _ ← annotsHere g
  if ← accept .question then
    let (bound, isLower) ← do
      if ← accept .kwExtends then pure (some (← g.type), false)
      else if ← accept .kwSuper then pure (some (← g.type), true)
      else pure (none, false)
    return .wildcard (← infoFrom start) bound isLower
  else g.type

/-- Type arguments between angle brackets; the flag tells the empty ones. -/
def typeArgs (g : Grammar) (allowDiamond : Bool) : Parser (List TypeNode × Bool) := do
  expect_ .less
  if allowDiamond && (← check .greater) then
    let _ ← advance
    return ([], true)
  let args ← commaSeparated (typeArg g)
  expectGreater
  return (args, false)

/-- The segments of a class type from behind a point. -/
def classTypeFrom (g : Grammar) (allowDiamond : Bool) (start : Position)
    (qualifier : Option TypeNode) : Nat → Parser TypeNode
  | 0 => throw .exhausted
  | fuel + 1 => do
    let annots ← annotsHere g
    let name ← ident
    let (args, diamond) ← if ← check .less then typeArgs g allowDiamond else pure ([], false)
    let t := TypeNode.cls (← infoFrom start) annots qualifier name args diamond
    if (← check .dot) && ((← checkAt 1 .identifier) || (← checkAt 1 .at)) then
      let _ ← advance
      classTypeFrom g allowDiamond start (some t) fuel
    else return t

def classType (g : Grammar) (allowDiamond : Bool) : Parser TypeNode := do
  classTypeFrom g allowDiamond (← startPos) none (← remaining)

/-- Annotations in front of a class type belong to its last segment. -/
def withAnnots (annots : List Annot) : TypeNode → TypeNode
  | .cls i own q n args d => .cls i (annots ++ own) q n args d
  | t => t

def typeRule (g : Grammar) : Parser TypeNode := do
  let annots ← annotsHere g
  let t ← match primitiveOf? (← peek).kind with
    | some p => do
      let t ← advance
      pure (TypeNode.primitive (← newInfo t.span) p)
    | none => return ← dimensions g (withAnnots annots (← classType g false))
  dimensions g t

def resultType (g : Grammar) : Parser TypeNode := do
  if ← check .kwVoid then
    let t ← advance
    return .primitive (← newInfo t.span) .void
  else g.type

/-- The type of a local variable: the word `var` alone is the inferred type from release 10 on. -/
def localType (t : TypeNode) : Parser TypeNode := do
  match t with
  | .cls i _ none name [] _ =>
    if name.name == "var" && (← read).level.atLeast 10 then return .inferred (← newInfo i.span)
    else return t
  | _ => return t

def typeList (g : Grammar) : Parser (List TypeNode) := commaSeparated (classType g false)

/-- One type parameter with its bounds. -/
def typeParam (g : Grammar) : Parser TypeParam := do
  let start ← startPos
  let annots ← annotsHere g
  let name ← ident
  let bounds ← if ← accept .kwExtends then
      let first ← g.type
      pure (first :: (← moreSeparated .amp g.type))
    else pure []
  return ⟨← infoFrom start, annots, name, bounds⟩

def typeParams (g : Grammar) : Parser (List TypeParam) := do
  expect_ .less
  let params ← commaSeparated (typeParam g)
  expectGreater
  return params

/-! ## Modifiers and parameters -/

/-- The tokens that go on with a declaration behind the word `sealed`. -/
def afterSealed : List Token.Kind :=
  [.kwClass, .kwInterface, .kwAbstract, .kwPublic, .kwProtected, .kwPrivate, .kwStatic,
    .kwStrictfp, .at]

def isModifierStart : Parser Bool := do
  match (← peek).kind with
  | .kwPublic | .kwProtected | .kwPrivate | .kwStatic | .kwFinal | .kwAbstract | .kwNative
  | .kwSynchronized | .kwTransient | .kwVolatile | .kwStrictfp | .nonSealed => return true
  | .kwDefault => return !(← checkAt 1 .colon) && !(← checkAt 1 .arrow)
  | .at => return !(← checkAt 1 .kwInterface)
  | .identifier => return (← checkWord "sealed") && afterSealed.contains (← peekAt 1).kind
  | _ => return false

/-- The loop of `modifiers`. A modifier given twice is reported, even when looking ahead. -/
def modifiersFrom (g : Grammar) (flags : ModifierSet) (annots : List Annot) :
    Nat → Parser (ModifierSet × List Annot)
  | 0 => throw .exhausted
  | fuel + 1 => do
    if !(← isModifierStart) then return (flags, annots)
    if ← check .at then
      let a ← g.annot
      modifiersFrom g flags (annots ++ [a]) fuel
    else
      let t ← advance
      match Modifier.ofName? t.literal with
      | none => modifiersFrom g flags annots fuel
      | some m =>
        if flags.has m then report t .syntaxErrorDeleteToken [t.literal]
        modifiersFrom g (flags.insert m) annots fuel

def modifiers (g : Grammar) : Parser Modifiers := do
  let start ← startPos
  let (flags, annots) ← modifiersFrom g {} [] (← remaining)
  return ⟨← infoFrom start, flags, annots⟩

def param (g : Grammar) : Parser Param := do
  let start ← startPos
  let mods ← modifiers g
  let type ← g.type
  let _ ← annotsHere g
  let varargs ← accept .ellipsis
  let name ← ident
  let dims ← dimCount
  return ⟨← infoFrom start, some mods, some type, varargs, name, dims⟩

end Javelin.Parse
