import Javelin.Parse.Expressions

/-!
# Statements

1. Blocks and what may stand in them: local types, local variables and statements.
2. Statements by their first token.
3. Switches and patterns.
4. Explicit constructor calls.
-/

namespace Javelin.Parse

/-! ## Blocks -/

/-- Statements up to a closing brace, added to a body; `wrap` makes the draft the body belongs to.
-/
def blockStatements (g : Grammar) (wrap : Block → Draft) (body : Block) : Nat → Parser Block
  | 0 => throw .exhausted
  | fuel + 1 => do
    if ← checkAny [.rbrace, .eof] then return body
    let s ← g.blockStatement
    let body := { body with stmts := body.stmts ++ [s] }
    noteChild (wrap body)
    blockStatements g wrap body fuel

/-- The draft of a block that starts here. -/
def emptyBlock : Parser Block := do
  let start ← startPos
  return ⟨← newInfo ⟨start, start⟩, []⟩

/-- A block with its final span. -/
def finishBlock (b : Block) : Parser Block := do
  let span ← spanFrom b.info.start
  return { b with info := b.info.withSpan span }

def blockRule (g : Grammar) (track : Bool) : Parser Block := do
  let b ← emptyBlock
  expect_ .lbrace
  if track then openDraft (.block b)
  let b ← blockStatements g .block b (← remaining)
  expect_ .rbrace
  if track then closeDraft (.block b)
  finishBlock b

/-- Whether a type declaration starts here, behind its modifiers. -/
def isTypeKeywordHere : Parser Bool := do
  match (← peek).kind with
  | .kwClass | .kwInterface | .kwEnum => return true
  | .at => checkAt 1 .kwInterface
  | .identifier =>
    return (← read).level.atLeast 16 && (← checkWord "record") && (← checkAt 1 .identifier)
  | _ => return false

def isLocalType (g : Grammar) : Parser Bool := do
  let look := lookahead do
    let _ ← modifiers g
    if !(← isTypeKeywordHere) then fail "class"
  match (← peek).kind with
  | .kwClass | .kwInterface | .kwEnum => return true
  | .kwAbstract | .kwFinal | .kwStatic | .kwStrictfp | .at | .nonSealed => look
  | .identifier => do
    if (← checkWord "record") || (← checkWord "sealed") then look else return false
  | _ => return false

/-- The tokens that may follow the name of a declared variable. -/
def afterVariable : List Token.Kind := [.assign, .semicolon, .comma, .lbracket, .colon]

/-- Whether modifiers, a type, a name and what may follow it stand here. -/
def isLocalVar (g : Grammar) : Parser Bool := do
  let t ← peek
  let starts := t.kind == .identifier || t.kind == .kwFinal || t.kind == .at ||
    (primitiveOf? t.kind).isSome
  let isYield := t.isWord "yield" && (← read).level.atLeast 14
  andAlso (starts && !isYield) (lookahead do
    let _ ← modifiers g
    let _ ← g.type
    let _ ← ident
    if !(← checkAny afterVariable) then fail "=")

/-- An initializer behind an equals sign. -/
def optionalInit (g : Grammar) : Parser (Option Expr) := do
  if ← accept .assign then return some (← g.initializer) else return none

def declarator (g : Grammar) : Parser VarDeclarator := do
  let start ← startPos
  let name ← ident
  let dims ← dimCount
  let init ← optionalInit g
  return ⟨← infoFrom start, name, dims, init⟩

/-- The declarators of a declaration whose first name is consumed. -/
def declaratorsFrom (g : Grammar) (first : Ident) : Parser (List VarDeclarator) := do
  let dims ← dimCount
  let init ← optionalInit g
  let info ← newInfo ⟨first.info.start, (← get).prevEnd⟩
  let more ← moreSeparated .comma (declarator g)
  return ⟨info, first, dims, init⟩ :: more

/-- A local variable declaration without its semicolon. -/
def localVars (g : Grammar) : Parser VarDecl := do
  let start ← startPos
  let mods ← modifiers g
  let type ← localType (← g.type)
  let name ← ident
  let vars ← declaratorsFrom g name
  return ⟨← infoFrom start, some mods, type, vars, none⟩

def blockStatementRule (g : Grammar) : Parser Stmt := do
  let start ← startPos
  if ← isLocalType g then
    let doc ← docBefore start.offset
    let mods ← modifiers g
    let d ← g.typeRest start mods doc
    return .localClass (← newInfo d.info.span) { d with isLocal := true }
  if ← isLocalVar g then
    let d ← localVars g
    expect_ .semicolon
    let span ← spanFrom start
    return .locals { d with info := d.info.withSpan span }
  g.statement

/-! ## Statements by their first token -/

/-- A condition in parentheses. -/
def inParens (g : Grammar) : Parser Expr := do
  expect_ .lparen
  let x ← g.expression
  expect_ .rparen
  return x

/-- The expressions that are statements. -/
def isStatementExpr : Expr → Bool
  | .assign .. | .call .. | .newObject .. => true
  | .unary _ op _ _ => op == .inc || op == .dec
  | _ => false

def notAStatement (t : Token) : Parser Unit :=
  reportSoft t .syntaxErrorInsertToComplete ["AssignmentOperator Expression", "Expression"]

def exprStatement (g : Grammar) : Parser Stmt := do
  let start ← startPos
  let t ← peek
  let x ← g.expression
  if !isStatementExpr x then notAStatement t
  expect_ .semicolon
  return .expr (← infoFrom start) x

def ifStatement (g : Grammar) (start : Position) : Parser Stmt := do
  let cond ← inParens g
  let yes ← g.statement
  let no ← if ← accept .kwElse then pure (some (← g.statement)) else pure none
  return .ifElse (← infoFrom start) cond yes no

def whileStatement (g : Grammar) (start : Position) : Parser Stmt := do
  let cond ← inParens g
  let body ← g.statement
  return .while (← infoFrom start) cond body

def doStatement (g : Grammar) (start : Position) : Parser Stmt := do
  let body ← g.statement
  expect_ .kwWhile
  let cond ← inParens g
  expect_ .semicolon
  return .doWhile (← infoFrom start) body cond

/-- The variable of an enhanced for statement. -/
def forEachVar (g : Grammar) : Parser VarDecl := do
  let start ← startPos
  let mods ← modifiers g
  let type ← localType (← g.type)
  let name ← ident
  let v : VarDeclarator := ⟨← newInfo name.info.span, name, 0, none⟩
  return ⟨← infoFrom start, some mods, type, [v], none⟩

/-- The first part of a for statement: declarations or expressions. -/
def forInit (g : Grammar) : Parser (List Stmt) := do
  if ← check .semicolon then return []
  if ← isLocalVar g then return [.locals (← localVars g)]
  commaSeparated do
    let start ← startPos
    let x ← g.expression
    return .expr (← infoFrom start) x

def forStatement (g : Grammar) (start : Position) : Parser Stmt := do
  expect_ .lparen
  let isForEach ← lookahead do
    let _ ← modifiers g
    let _ ← g.type
    let _ ← ident
    expect_ .colon
  if isForEach then
    let v ← forEachVar g
    expect_ .colon
    let iterable ← g.expression
    expect_ .rparen
    let body ← g.statement
    return .forEach (← infoFrom start) v iterable body
  let init ← forInit g
  expect_ .semicolon
  let cond ← if ← check .semicolon then pure none else pure (some (← g.expression))
  expect_ .semicolon
  let update ← if ← check .rparen then pure [] else commaSeparated g.expression
  expect_ .rparen
  let body ← g.statement
  return .for (← infoFrom start) init cond update body

/-- A resource: a variable with an initializer, or an expression. -/
def resource (g : Grammar) : Parser Stmt := do
  let isDecl ← lookahead do
    let _ ← modifiers g
    let _ ← g.type
    let _ ← ident
    expect_ .assign
  if isDecl then
    let start ← startPos
    let mods ← modifiers g
    let type ← localType (← g.type)
    let v ← declarator g
    return .locals ⟨← infoFrom start, some mods, type, [v], none⟩
  else
    let x ← g.expression
    return .expr x.info x

/-- Resources between semicolons, up to a closing parenthesis. -/
def resourcesFrom (g : Grammar) (acc : Array Stmt) : Nat → Parser (List Stmt)
  | 0 => throw .exhausted
  | fuel + 1 => do
    if ← check .rparen then return acc.toList
    let acc := acc.push (← resource g)
    if ← accept .semicolon then resourcesFrom g acc fuel else return acc.toList

def catchClause (g : Grammar) : Parser CatchClause := do
  let start ← startPos
  expect_ .kwCatch
  expect_ .lparen
  let paramStart ← startPos
  let mods ← modifiers g
  let first ← g.type
  let type ← if ← check .bar then
      let more ← moreSeparated .bar g.type
      pure (TypeNode.union (← infoFrom first.info.start) (first :: more))
    else pure first
  let name ← ident
  let info ← infoFrom paramStart
  expect_ .rparen
  let body ← g.block true
  return ⟨← infoFrom start, ⟨info, some mods, some type, false, name, 0⟩, body⟩

def tryStatement (g : Grammar) (start : Position) (tryToken : Token) : Parser Stmt := do
  let resources ← if ← accept .lparen then
      let rs ← resourcesFrom g #[] (← remaining)
      expect_ .rparen
      pure rs
    else pure []
  let body ← g.block true
  let catches ← manyWhile (check .kwCatch) (catchClause g)
  let final ← if ← accept .kwFinally then pure (some (← g.block true)) else pure none
  if catches.isEmpty && final.isNone && resources.isEmpty then
    reportSoft tryToken .syntaxErrorInsertToComplete ["Finally", "TryStatement"]
  return .try (← infoFrom start) resources body catches final

def optionalLabel : Parser (Option Ident) := do
  if ← check .identifier then return some (← ident) else return none

/-- A jump to an optional label. -/
def jumpStatement (make : Info → Option Ident → Stmt) (start : Position) : Parser Stmt := do
  let label ← optionalLabel
  expect_ .semicolon
  return make (← infoFrom start) label

/-- Tokens behind the word `yield` that make it a name. -/
def afterYieldName : List Token.Kind :=
  [.assign, .plusAssign, .minusAssign, .starAssign, .slashAssign, .percentAssign, .ampAssign,
    .barAssign, .caretAssign, .shiftLeftAssign, .shiftRightAssign, .shiftRightZeroAssign, .dot,
    .lbracket, .colonColon, .semicolon, .increment, .decrement, .eof]

def isYieldStatement : Parser Bool := do
  let c ← read
  let next := (← peekAt 1).kind
  return (← checkWord "yield") && c.level.atLeast 14 && !afterYieldName.contains next &&
    (next != .lparen || c.inSwitch)

/-! ## Constructor calls -/

/-- The rest of a qualified constructor call behind its first name, looking ahead. -/
def qualifiedSuperAhead (g : Grammar) : Nat → Parser Unit
  | 0 => throw .exhausted
  | fuel + 1 => do
    if !(← accept .dot) then fail "super"
    if ← accept .kwSuper then expect_ .lparen
    else if ← check .less then
      let _ ← typeArgs g false
      expect_ .kwSuper
      expect_ .lparen
    else
      let _ ← ident
      qualifiedSuperAhead g fuel

/-- Whether `this(…)`, `super(…)`, one of them behind type arguments, or a qualified super call
stands here. -/
def isConstructorCall (g : Grammar) : Parser Bool := do
  match (← peek).kind with
  | .kwThis | .kwSuper => checkAt 1 .lparen
  | .less => lookahead do
    let _ ← typeArgs g false
    if !(← checkAny [.kwThis, .kwSuper]) then fail "this"
  | .identifier => lookahead do
    let _ ← ident
    qualifiedSuperAhead g (← remaining)
  | _ => return false

/-- The qualifier of a constructor call; the last point is consumed. -/
def callQualifier (start : Position) (x : Expr) : Nat → Parser Expr
  | 0 => throw .exhausted
  | fuel + 1 => do
    if !(← accept .dot) then return x
    if !(← check .identifier) then return x
    let name ← ident
    callQualifier start (.field (← newInfo ⟨start, name.info.span.stop⟩) x name) fuel

def constructorCall (g : Grammar) : Parser Stmt := do
  let start ← startPos
  let qualifier ← if ← check .identifier then
      let name ← ident
      let x := Expr.name (← newInfo name.info.span) name
      pure (some (← callQualifier start x (← remaining)))
    else pure none
  let targs ← if ← check .less then pure (← typeArgs g false).1 else pure []
  let isSuper ← accept .kwSuper
  if !isSuper then expect_ .kwThis
  let args ← arguments g
  expect_ .semicolon
  return .constructorCall (← infoFrom start) isSuper qualifier targs args

/-! ## The rule for statements -/

def returnStatement (g : Grammar) (start : Position) : Parser Stmt := do
  let value ← if ← check .semicolon then pure none else pure (some (← g.expression))
  expect_ .semicolon
  return .return (← infoFrom start) value

def syncStatement (g : Grammar) (start : Position) : Parser Stmt := do
  let lock ← inParens g
  let body ← g.block true
  return .sync (← infoFrom start) lock body

def assertStatement (g : Grammar) (start : Position) : Parser Stmt := do
  let cond ← g.expression
  let message ← if ← accept .colon then pure (some (← g.expression)) else pure none
  expect_ .semicolon
  return .assert (← infoFrom start) cond message

/-- A statement that starts with a keyword, whose token is consumed. -/
def keywordStatement (g : Grammar) (t : Token) (start : Position) : Parser Stmt := do
  let _ ← advance
  match t.kind with
  | .semicolon => return .empty (← infoFrom start)
  | .kwIf => ifStatement g start
  | .kwWhile => whileStatement g start
  | .kwDo => doStatement g start
  | .kwFor => forStatement g start
  | .kwTry => tryStatement g start t
  | .kwSwitch =>
    let selector ← inParens g
    let cases ← g.switchBody false
    return .switch (← infoFrom start) selector cases
  | .kwReturn => returnStatement g start
  | .kwBreak => jumpStatement .break start
  | .kwContinue => jumpStatement .continue start
  | .kwThrow =>
    let x ← g.expression
    expect_ .semicolon
    return .throw (← infoFrom start) x
  | .kwSynchronized => syncStatement g start
  | _ => assertStatement g start

/-- The tokens of `keywordStatement`. -/
def statementKeywords : List Token.Kind :=
  [.semicolon, .kwIf, .kwWhile, .kwDo, .kwFor, .kwTry, .kwSwitch, .kwReturn, .kwBreak,
    .kwContinue, .kwThrow, .kwSynchronized, .kwAssert]

/-- The keywords that only go on other statements. -/
def strayKeywords : List Token.Kind := [.kwElse, .kwCatch, .kwFinally, .kwCase, .kwDefault]

def statementRule (g : Grammar) : Parser Stmt := do
  let start ← startPos
  let t ← peek
  if t.kind == .lbrace then return .block (← g.block true)
  if statementKeywords.contains t.kind then return ← keywordStatement g t start
  if t.kind == .identifier && (← peekAt 1).kind == .colon then
    let label ← ident
    let _ ← advance
    let body ← g.statement
    return .labeled (← infoFrom start) label body
  if ← isYieldStatement then
    let _ ← advance
    let x ← g.expression
    expect_ .semicolon
    return .yield (← infoFrom start) x
  if strayKeywords.contains t.kind then fail ""
  if ← isConstructorCall g then constructorCall g else exprStatement g

/-! ## Switches and patterns -/

def patternRule (g : Grammar) : Parser Expr := do
  let start ← startPos
  let mods ← modifiers g
  let type ← localType (← g.type)
  if ← check .lparen then
    let subs ← subPatterns g
    return .recordPattern (← infoFrom start) type subs
  let name ← ident
  return .typePattern (← infoFrom start) (some mods) type name

def isPatternStart (g : Grammar) : Parser Bool :=
  lookahead do
    let _ ← modifiers g
    let _ ← g.type
    if !(← check .lparen) then
      let _ ← ident

def caseLabel (g : Grammar) : Parser Expr := do
  if ← andAlso ((← read).level.atLeast 16) (isPatternStart g) then g.pattern
  else untracked g.conditional

/-- One label of a case: the word `default` has no expression. -/
def caseLabelOrDefault (g : Grammar) : Parser (Option Expr) := do
  if ← accept .kwDefault then return none else return some (← caseLabel g)

/-- The labels of a group, whether it is the default, and its guard. -/
def caseHead (g : Grammar) : Parser (List Expr × Bool × Option Expr) := do
  if ← accept .kwDefault then return ([], true, none)
  if !(← accept .kwCase) then fail "case"
  let labels ← commaSeparated (caseLabelOrDefault g)
  let guard ← if ← checkWord "when" then
      let _ ← advance
      pure (some (← g.expression))
    else pure none
  return (labels.filterMap id, labels.any Option.isNone, guard)

/-- What stands behind the arrow of a case. -/
def arrowBody (g : Grammar) (isExpr : Bool) : Parser Stmt := do
  let start ← startPos
  if ← check .lbrace then return .block (← g.block !isExpr)
  if ← check .kwThrow then return ← g.statement
  let x ← g.expression
  expect_ .semicolon
  if isExpr then return .yield (← infoFrom start) x
  if !isStatementExpr x then notAStatement (← previous)
  return .expr (← infoFrom start) x

def switchCase (g : Grammar) (isExpr : Bool) : Parser SwitchCase := do
  let start ← startPos
  let (labels, isDefault, guard) ← caseHead g
  if ← accept .arrow then
    let s ← arrowBody g isExpr
    return ⟨← infoFrom start, labels, isDefault, guard, true, [s]⟩
  expect_ .colon
  let body ← manyWhile (return !(← checkAny [.kwCase, .kwDefault, .rbrace, .eof])) g.blockStatement
  return ⟨← infoFrom start, labels, isDefault, guard, false, body⟩

def switchBodyRule (g : Grammar) (isExpr : Bool) : Parser (List SwitchCase) := do
  expect_ .lbrace
  inContext (fun c => { c with inSwitch := true }) do
    let cases ← manyWhile (return !(← checkAny [.rbrace, .eof])) (switchCase g isExpr)
    expect_ .rbrace
    return cases

end Javelin.Parse
