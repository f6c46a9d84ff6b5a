import Javelin.Parse.Types

/-!
# Expressions

1. Lambdas. An identifier or a parenthesized list before an arrow starts one.
2. Assignment, conditional, binary and unary expressions, by precedence.
3. Casts. A parenthesis opens a cast if a type and an operand follow that cannot go on a binary
   expression.
4. Primary expressions and the selectors behind them.
5. Creation of objects and arrays.
-/

namespace Javelin.Parse

def expressionRule (g : Grammar) : Parser Expr := untracked g.assignment

/-! ## Lambdas -/

/-- Whether the parenthesis at index `i`, with `depth` open before it, is closed before an arrow. -/
def arrowBehindParens (s : State) (i depth : Nat) : Nat → Bool
  | 0 => false
  | fuel + 1 =>
    if i < s.tokens.size then
      match (s.token i).kind with
      | .lparen => arrowBehindParens s (i + 1) (depth + 1) fuel
      | .rparen =>
        if depth == 1 then i + 1 < s.tokens.size && (s.token (i + 1)).kind == .arrow
        else arrowBehindParens s (i + 1) (depth - 1) fuel
      | .lbrace | .rbrace | .semicolon | .eof => false
      | _ => arrowBehindParens s (i + 1) depth fuel
    else false

def isLambdaStart : Parser Bool := do
  let s ← get
  match s.current.kind with
  | .identifier => checkAt 1 .arrow
  | .lparen => return arrowBehindParens s s.pos 0 (s.tokens.size - s.pos)
  | _ => return false

/-- A lambda parameter without a type. -/
def implicitParam : Parser Param := do
  let name ← ident
  return ⟨← newInfo name.info.span, none, none, false, name, 0⟩

/-- A lambda parameter with a type. -/
def explicitParam (g : Grammar) : Parser Param := do
  let p ← param g
  match p.type with
  | some t => return { p with type := some (← localType t) }
  | none => return p

/-- The parameters of a lambda and whether they have types. -/
def lambdaParams (g : Grammar) : Parser (List Param × Bool) := do
  if ← check .identifier then return ([← implicitParam], false)
  let implicit := (← checkAt 1 .identifier) && ((← checkAt 2 .comma) || (← checkAt 2 .rparen))
  let params ← parenthesized (if implicit then implicitParam else explicitParam g)
  return (params, !implicit && !params.isEmpty)

def lambda (g : Grammar) : Parser Expr := do
  let start ← startPos
  let (params, isExplicit) ← lambdaParams g
  expect_ .arrow
  if ← check .lbrace then
    let body ← g.block false
    return .lambda (← infoFrom start) params none (some body) isExplicit
  else
    let value ← g.expression
    return .lambda (← infoFrom start) params (some value) none isExplicit

/-! ## Operators -/

def assignmentRule (g : Grammar) : Parser Expr := do
  if ← isLambdaStart then return ← lambda g
  let start ← startPos
  let target ← g.conditional
  match Operator.ofAssignToken? (← peek).kind with
  | none => return target
  | some op =>
    let _ ← advance
    let value ← g.assignment
    return .assign (← infoFrom start) op target value

def conditionalRule (g : Grammar) : Parser Expr := do
  let start ← startPos
  let cond ← g.binary 1
  if !(← accept .question) then return cond
  let yes ← g.expression
  expect_ .colon
  let no ← if ← isLambdaStart then lambda g else g.conditional
  return .conditional (← infoFrom start) cond yes no

/-- The nested patterns of a record pattern, in parentheses. -/
def subPatterns (g : Grammar) : Parser (List Expr) := parenthesized g.pattern

/-- The type a pattern tests for. -/
def patternType : Expr → TypeNode
  | .typePattern _ _ t _ => t
  | .recordPattern _ t _ => t
  | _ => default

/-- What follows the word `instanceof`: a type or a pattern. -/
def instanceOfRest (g : Grammar) (start : Position) (x : Expr) : Parser Expr := do
  if (← check .kwFinal) || (← check .at) then
    let p ← g.pattern
    return .instanceOf (← infoFrom start) x (patternType p) (some p)
  let type ← g.type
  let pattern ← do
    if ← check .lparen then
      let subs ← subPatterns g
      pure (some (Expr.recordPattern (← infoFrom type.info.start) type subs))
    else if (← check .identifier) && !(← checkWord "when") then
      let name ← ident
      pure (some (Expr.typePattern (← infoFrom type.info.start) none type name))
    else pure none
  return .instanceOf (← infoFrom start) x type pattern

/-- The precedence of `instanceof` among the binary operators. -/
def instanceOfPrecedence : Nat := 7

/-- Operators of at least the given precedence behind a left operand. -/
def binaryRest (g : Grammar) (least : Nat) (start : Position) (x : Expr) : Nat → Parser Expr
  | 0 => throw .exhausted
  | fuel + 1 => do
    if ← check .kwInstanceof then
      if instanceOfPrecedence < least then return x
      let _ ← advance
      binaryRest g least start (← instanceOfRest g start x) fuel
    else
      match Operator.ofBinaryToken? (← peek).kind with
      | none => return x
      | some op =>
        if op.precedence < least then return x
        let _ ← advance
        let y ← g.binary (op.precedence + 1)
        binaryRest g least start (.binary (← infoFrom start) op x y) fuel

def binaryRule (g : Grammar) (least : Nat) : Parser Expr := do
  let start ← startPos
  let x ← g.unary
  binaryRest g least start x (← remaining)

def unaryOf? : Token.Kind → Option Operator
  | .increment => some .inc
  | .decrement => some .dec
  | .plus => some .pos
  | .minus => some .neg
  | .bang => some .not
  | .tilde => some .bitNot
  | _ => none

/-- Increments and decrements behind an operand. -/
def postfixRest (start : Position) (x : Expr) : Nat → Parser Expr
  | 0 => throw .exhausted
  | fuel + 1 => do
    if ← accept .increment then
      postfixRest start (.unary (← infoFrom start) .inc x true) fuel
    else if ← accept .decrement then
      postfixRest start (.unary (← infoFrom start) .dec x true) fuel
    else return x

/-! ## Casts -/

/-- The tokens that can only start an operand, never go on a binary expression. -/
def operandStarts : List Token.Kind :=
  [.identifier, .intLiteral, .floatLiteral, .charLiteral, .stringLiteral, .textBlock, .kwTrue,
    .kwFalse, .kwNull, .lparen, .bang, .tilde, .kwThis, .kwSuper, .kwNew, .kwSwitch, .kwBoolean,
    .kwByte, .kwChar, .kwShort, .kwInt, .kwLong, .kwFloat, .kwDouble, .kwVoid]

/-- Whether the parenthesis here opens a cast. -/
def isCast (g : Grammar) : Parser Bool := do
  let next := (← peekAt 1).kind
  if (primitiveOf? next).isSome then
    lookahead do
      let _ ← advance
      let _ ← g.type
      expect_ .rparen
  else if next == .identifier || next == .at then
    lookahead do
      let _ ← advance
      let _ ← g.type
      let _ ← moreSeparated .amp g.type
      expect_ .rparen
      if !(← checkAny operandStarts) && !(← isLambdaStart) then fail "Expression"
  else return false

def cast (g : Grammar) (start : Position) : Parser Expr := do
  expect_ .lparen
  let first ← g.type
  let type ← if ← check .amp then
      let more ← moreSeparated .amp g.type
      pure (TypeNode.intersection (← infoFrom first.info.start) (first :: more))
    else pure first
  expect_ .rparen
  let x ← if ← isLambdaStart then lambda g else g.unary
  return .cast (← infoFrom start) type x

/-! ## Selectors -/

def arguments (g : Grammar) : Parser (List Expr) := parenthesized g.expression

/-- The class type written by a dotted name. -/
def classTypeOf? : Expr → Parser (Option TypeNode)
  | .name i n => return some (.cls (← newInfo i.span) [] none n [] false)
  | .field i x n => do
    match ← classTypeOf? x with
    | some q => return some (.cls (← newInfo i.span) [] (some q) n [] false)
    | none => return none
  | _ => return none

/-- The parts of a dotted name. -/
def nameParts? : Expr → Option (List Ident)
  | .name _ n => some [n]
  | .field _ x n => (nameParts? x).map (· ++ [n])
  | _ => none

def qualifiedNameOf? (x : Expr) : Parser (Option QName) := do
  match nameParts? x with
  | some parts => return some ⟨← newInfo x.info.span, parts⟩
  | none => return none

/-- What follows the two colons of a method reference. -/
def methodRefRest (g : Grammar) (start : Position) (x : Expr) : Parser Expr := do
  let targs ← if ← check .less then pure (← typeArgs g false).1 else pure []
  let name ← if ← check .kwNew then
      let t ← advance
      identToken t "new"
    else ident
  return .methodRef (← infoFrom start) x targs name

/-- Creation of an array from behind its element type. -/
def arrayCreatorDims (g : Grammar) (dims : List Expr) (extra : Nat) :
    Nat → Parser (List Expr × Nat)
  | 0 => throw .exhausted
  | fuel + 1 => do
    if !(← check .lbracket) then return (dims, extra)
    if ← checkAt 1 .rbracket then
      skipBrackets
      arrayCreatorDims g dims (extra + 1) fuel
    else
      if extra > 0 then fail "]"
      let _ ← advance
      let d ← g.expression
      expect_ .rbracket
      arrayCreatorDims g (dims ++ [d]) extra fuel

def arrayInit (g : Grammar) : Parser Expr := do
  let start ← startPos
  expect_ .lbrace
  let elems ← untracked (do bracedItems g.initializer #[] (← remaining))
  expect_ .rbrace
  return .arrayInit (← infoFrom start) elems

def arrayCreatorRest (g : Grammar) (start : Position) (elem : TypeNode) : Parser Expr := do
  let (dims, extra) ← arrayCreatorDims g [] 0 (← remaining)
  let init ← if dims.isEmpty then
      if !(← check .lbrace) then fail "\x7b"
      pure (some (← arrayInit g))
    else pure none
  return .newArray (← infoFrom start) elem dims extra init

/-- The body of an anonymous class, if one follows. -/
def anonymousBody (g : Grammar) : Parser (Option TypeDecl) := do
  if !(← check .lbrace) then return none
  let start ← startPos
  let id ← freshId
  let body ← g.typeBody false { (default : TypeDecl) with info := { id }, isAnonymous := true }
  let span ← spanFrom start
  return some { body with info := body.info.withSpan span }

/-- Creation of an object or an array, behind an optional outer instance. -/
def creator (g : Grammar) (outer : Option Expr) (start : Position) : Parser Expr := do
  expect_ .kwNew
  let targs ← if ← check .less then pure (← typeArgs g false).1 else pure []
  match primitiveOf? (← peek).kind with
  | some p =>
    let t ← advance
    let elem := TypeNode.primitive (← newInfo t.span) p
    if !(← check .lbracket) then fail "["
    arrayCreatorRest g start elem
  | none =>
    let annots ← annotsHere g
    let type := withAnnots annots (← classType g true)
    if ← check .lbracket then arrayCreatorRest g start type
    else
      let args ← arguments g
      let body ← anonymousBody g
      return .newObject (← infoFrom start) outer targs type args body

/-- What follows a point. -/
def dotSelector (g : Grammar) (start : Position) (x : Expr) : Parser Expr := do
  match (← peek).kind with
  | .identifier =>
    let name ← ident
    if ← check .lparen then
      let args ← arguments g
      return .call (← infoFrom start) (some x) [] name args
    else return .field (← infoFrom start) x name
  | .less =>
    let targs := (← typeArgs g false).1
    let name ← ident
    let args ← arguments g
    return .call (← infoFrom start) (some x) targs name args
  | .kwNew => creator g (some x) start
  | .kwThis =>
    let _ ← advance
    match ← qualifiedNameOf? x with
    | some q => return .this (← infoFrom start) (some q)
    | none => fail "Identifier"
  | .kwSuper =>
    let _ ← advance
    match ← qualifiedNameOf? x with
    | some q =>
      if !(← check .dot) && !(← check .colonColon) then fail "."
      return .super (← infoFrom start) (some q)
    | none => fail "Identifier"
  | .kwClass =>
    let _ ← advance
    match ← classTypeOf? x with
    | some t => return .classLit (← infoFrom start) t
    | none => fail "Identifier"
  | _ => fail "Identifier"

/-- The outcome of one selector: it may be the last one. -/
inductive Selected where
  | more (x : Expr)
  | last (x : Expr)

/-- What follows a type in an expression: `.class` or a method reference. -/
def typeSelector (g : Grammar) (start : Position) (type : TypeNode) : Parser Selected := do
  let type ← dimensions g type
  if ← accept .colonColon then
    let x := Expr.typeExpr (← newInfo type.info.span) type
    return .last (← methodRefRest g start x)
  expect_ .dot
  expect_ .kwClass
  return .more (.classLit (← infoFrom start) type)

/-- One selector behind an expression. -/
def selector (g : Grammar) (start : Position) (x : Expr) : Parser Selected := do
  match (← peek).kind with
  | .dot =>
    let _ ← advance
    return .more (← dotSelector g start x)
  | .lbracket =>
    if ← checkAt 1 .rbracket then
      match ← classTypeOf? x with
      | some t => typeSelector g start t
      | none => fail "Expression"
    else
      let _ ← advance
      let i ← g.expression
      expect_ .rbracket
      return .more (.index (← infoFrom start) x i)
  | .colonColon =>
    let _ ← advance
    return .last (← methodRefRest g start x)
  | _ => return .last x

def selectors (g : Grammar) (start : Position) (x : Expr) : Nat → Parser Expr
  | 0 => throw .exhausted
  | fuel + 1 => do
    match ← selector g start x with
    | .more y => selectors g start y fuel
    | .last y => return y

/-- A type in an expression with all its selectors. -/
def typeInExpr (g : Grammar) (start : Position) (type : TypeNode) : Parser Expr := do
  match ← typeSelector g start type with
  | .more y => do selectors g start y (← remaining)
  | .last y => return y

/-! ## Primary expressions -/

/-- The kind of literal a token is. -/
def literalKind? (t : Token) : Option Literal.Kind :=
  match t.kind with
  | .intLiteral => some (if Literal.hasLongSuffix t.literal then .long else .int)
  | .floatLiteral => some (if Literal.hasFloatSuffix t.literal then .float else .double)
  | .charLiteral => some .char
  | .stringLiteral => some .string
  | .textBlock => some .textBlock
  | .kwTrue | .kwFalse => some .boolean
  | .kwNull => some .null
  | _ => none

/-- Whether a parameterized type and two colons follow, as in `List<String>::new`. -/
def isGenericTypeRef (g : Grammar) : Parser Bool :=
  lookahead do
    let _ ← g.type
    expect_ .colonColon

def switchExpr (g : Grammar) : Parser Expr := do
  let start ← startPos
  expect_ .kwSwitch
  expect_ .lparen
  let selector ← g.expression
  expect_ .rparen
  let cases ← g.switchBody true
  return .switch (← infoFrom start) selector cases

/-- A primary expression that may have selectors. -/
def primaryHead (g : Grammar) (start : Position) : Parser Expr := do
  let t ← peek
  match literalKind? t with
  | some k =>
    let _ ← advance
    return .literal (← newInfo t.span) k t.literal
  | none =>
    match t.kind with
    | .kwThis =>
      let _ ← advance
      return .this (← newInfo t.span) none
    | .kwSuper =>
      let _ ← advance
      if !(← check .dot) && !(← check .colonColon) then fail "."
      return .super (← newInfo t.span) none
    | .kwNew => creator g none start
    | .lparen =>
      let _ ← advance
      let inner ← g.expression
      expect_ .rparen
      return .paren (← infoFrom start) inner
    | .kwSwitch => switchExpr g
    | .identifier =>
      let name ← ident
      if ← check .lparen then
        let args ← arguments g
        return .call (← infoFrom start) none [] name args
      else return .name (← newInfo name.info.span) name
    | _ => fail "Expression"

/-- The keywords of types that may stand where an expression stands. -/
def isTypeKeyword (k : Token.Kind) : Bool := (primitiveOf? k).isSome || k == .kwVoid

def primary (g : Grammar) : Parser Expr := do
  let start ← startPos
  let t ← peek
  let isTypeRef ←
    andAlso (t.kind == .identifier && (← peekAt 1).kind == .less) (isGenericTypeRef g)
  if isTypeKeyword t.kind then
    let type ← resultType g
    typeInExpr g start type
  else if isTypeRef then
    let type ← g.type
    typeInExpr g start type
  else
    let x ← primaryHead g start
    selectors g start x (← remaining)

def unaryRule (g : Grammar) : Parser Expr := do
  let start ← startPos
  let t ← peek
  match unaryOf? t.kind with
  | some op =>
    let _ ← advance
    let x ← g.unary
    return .unary (← infoFrom start) op x false
  | none =>
    if ← andAlso (t.kind == .lparen) (isCast g) then cast g start
    else
      let x ← primary g
      postfixRest x.info.start x (← remaining)

/-- An expression or an array initializer. -/
def initializerRule (g : Grammar) : Parser Expr := do
  if ← check .lbrace then arrayInit g else g.expression

end Javelin.Parse
