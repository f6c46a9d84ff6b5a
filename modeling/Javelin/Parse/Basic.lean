import Std.Data.TreeMap
import Javelin.Syntax.Tree

/-!
# Parsers

A parser walks over the tokens of a source and either returns a value or fails; the state survives
a failure, because recovery goes on from where a parse failed.

1. The state. `drafts` is the stack of declarations whose bodies are being parsed, with the children
   parsed so far.
2. Reporting. One syntax error is reported for each offset; looking ahead reports none.
3. Speculation: `lookahead` always goes back, `attempt` and `orRewind` go back after a failure.
4. Tokens. A closing angle bracket may be the first character of a longer token, which is then
split. -/

namespace Javelin.Parse

/-! ## State -/

/-- A declaration or block that is being built. -/
inductive Draft where
  | unit (unit : CompilationUnit)
  | type (decl : TypeDecl)
  | method (decl : MethodDecl)
  | initializer (info : Info) (isStatic : Bool) (body : Block)
  | block (block : Block)
  | field (decl : VarDecl)
  | locals (decl : VarDecl)
deriving Inhabited

def Draft.info : Draft → Info
  | .unit u => u.info
  | .type d => d.info
  | .method d => d.info
  | .initializer i .. => i
  | .block b => b.info
  | .field d => d.info
  | .locals d => d.info

/-- A draft and the place where its next child starts. -/
structure OpenDraft where
  draft : Draft
  childStart : Nat
deriving Inhabited

/-- What holds for a part of a parse. -/
structure Context where
  file : Text
  level : Level
  /-- The parser only looks ahead. -/
  speculating : Bool := false
  /-- Recovery has taken over. -/
  recovering : Bool := false
  /-- Inside an expression no drafts are kept. -/
  inExpression : Bool := false
  inSwitch : Bool := false

structure State where
  lexer : Lexer
  tokens : Array Token
  /-- What is left of tokens that were split. -/
  splits : Std.TreeMap Nat Token := {}
  pos : Nat := 0
  drafts : List OpenDraft := []
  problems : Array Problem := #[]
  errorCount : Nat := 0
  /-- The offset of the last syntax error. -/
  lastError : Option Nat := none
  /-- What was first missing at the end of the source. -/
  missingAtEnd : Text := {}
  nextId : Nat := 0

/-- Why a parser gives no value. -/
inductive Failure where
  /-- The tokens do not fit the grammar. -/
  | badSyntax
  /-- A repetition went through more rounds, or the rules into one another deeper, than the tokens
  to come can account for. -/
  | exhausted
deriving DecidableEq

end Parse

/-- A parser. The state survives a failure. -/
abbrev Parser := ReaderT Parse.Context (EStateM Parse.Failure Parse.State)

namespace Parse

/-! ## Tokens -/

/-- The token at an index; past the end it is the end token. -/
def State.token (s : State) (i : Nat) : Token :=
  let i := min i (s.tokens.size - 1)
  if s.splits.isEmpty then s.tokens.getD i default
  else (s.splits.get? i).getD (s.tokens.getD i default)

def State.current (s : State) : Token := s.token s.pos

def peek : Parser Token := return (← get).current

def peekAt (n : Nat) : Parser Token := do
  let s ← get
  return s.token (s.pos + n)

/-- The token before the current one. -/
def previous : Parser Token := do
  let s ← get
  return s.token (s.pos - 1)

def check (k : Token.Kind) : Parser Bool := return (← get).current.kind == k

def checkAt (n : Nat) (k : Token.Kind) : Parser Bool := return (← peekAt n).kind == k

def checkAny (ks : List Token.Kind) : Parser Bool := return ks.contains (← get).current.kind

def checkWord (w : Text) : Parser Bool := return (← get).current.isWord w

/-- Consumes the current token; the end token stays. -/
def advance : Parser Token := do
  let s ← get
  if s.pos + 1 < s.tokens.size then set { s with pos := s.pos + 1 }
  return s.current

/-- Consumes the current token if it has the given kind. -/
def accept (k : Token.Kind) : Parser Bool := do
  if ← check k then
    let _ ← advance
    return true
  else return false

def startPos : Parser Position := return (← get).current.span.start

/-- The end of the last token consumed. -/
def State.prevEnd (s : State) : Position :=
  if s.pos == 0 then s.current.span.start else (s.token (s.pos - 1)).span.stop

/-- The span from a start to the last token consumed. -/
def spanFrom (start : Position) : Parser Span := do
  let stop := (← get).prevEnd
  return ⟨start, if stop.offset < start.offset then start else stop⟩

/-- A number that no node has yet. -/
def freshId : Parser Nat := do
  let s ← get
  set { s with nextId := s.nextId + 1 }
  return s.nextId

def newInfo (span : Span) : Parser Info := return { id := ← freshId, span }

/-- The information of a node that ends with the last token consumed. -/
def infoFrom (start : Position) : Parser Info := do newInfo (← spanFrom start)

/-- The number of tokens still to come, as a bound for loops. -/
def remaining : Parser Nat := do
  let s ← get
  return s.tokens.size - s.pos + 1

/-! ## Reporting -/

/-- The state after a report. -/
def State.reporting (s : State) (p : Problem) : State :=
  { s with problems := s.problems.push p, errorCount := s.errorCount + 1 }

def report (t : Token) (id : Problem.Id) (args : List Text) : Parser Unit := do
  let file := (← read).file
  modify (·.reporting (.new id (.ofSpan file t.span) args))

/-- Reports a problem that does not end the parse. -/
def reportSoft (t : Token) (id : Problem.Id) (args : List Text) : Parser Unit := do
  unless (← read).speculating do report t id args

/-- Reports a syntax error at a token, unless one was reported there. At the end of the source the
report waits until it is known what is open. -/
def reportSyntax (t : Token) (expected : Text) : Parser Unit := do
  if (← read).speculating then return
  let s ← get
  if s.lastError == some t.span.start.offset then return
  modify fun s => { s with lastError := some t.span.start.offset }
  if t.kind == .eof then
    if s.missingAtEnd.isEmpty then modify fun s => { s with missingAtEnd := expected }
  else if expected.isEmpty then report t .syntaxErrorDeleteToken [t.literal]
  else report t .syntaxErrorOnToken [t.literal, expected]

/-- Reports a syntax error at the current token and fails. -/
def fail {α : Type} (expected : Text) : Parser α := do
  reportSyntax (← peek) expected
  throw .badSyntax

def expect (k : Token.Kind) : Parser Token := do
  if ← check k then advance else fail k.name

def expect_ (k : Token.Kind) : Parser Unit := do
  let _ ← expect k

def identToken (t : Token) (name : Text) : Parser Ident := return ⟨← newInfo t.span, name⟩

def ident : Parser Ident := do
  let t ← peek
  if t.kind != .identifier then fail "Identifier"
  let _ ← advance
  identToken t t.literal

/-! ## Speculation -/

/-- The state after a failed or merely speculative parse: tokens and drafts are as before, what was
reported stays reported. -/
def State.rewound (s saved : State) : State :=
  { s with pos := saved.pos, splits := saved.splits, drafts := saved.drafts }

/-- Runs a parser in another context. -/
def inContext {α : Type} (f : Context → Context) (p : Parser α) : Parser α := fun c => p (f c)

/-- Whether a parser would succeed here. -/
def lookahead (p : Parser Unit) : Parser Bool := fun c saved =>
  match p { c with speculating := true } saved with
  | .ok _ s => .ok true (s.rewound saved)
  | .error .badSyntax s => .ok false (s.rewound saved)
  | .error .exhausted s => .error .exhausted s

/-- The result of a parser that reports nothing, or nothing consumed. -/
def attempt {α : Type} (p : Parser α) : Parser (Option α) := fun c saved =>
  match p { c with speculating := true } saved with
  | .ok a s => .ok (some a) s
  | .error .badSyntax s => .ok none (s.rewound saved)
  | .error .exhausted s => .error .exhausted s

/-- The result of a parser, or its report and nothing consumed. -/
def orRewind {α : Type} (p : Parser α) : Parser (Option α) := fun c saved =>
  match p c saved with
  | .ok a s => .ok (some a) s
  | .error .badSyntax s => .ok none (s.rewound saved)
  | .error .exhausted s => .error .exhausted s

/-- The answer of a test that is made only if the first one holds. -/
def andAlso (b : Bool) (p : Parser Bool) : Parser Bool := if b then p else return false

/-- Runs a parser without keeping drafts, so that recovery resumes at the enclosing member. -/
def untracked {α : Type} (p : Parser α) : Parser α :=
  inContext (fun c => { c with inExpression := true }) p

/-! ## Angle brackets -/

/-- What is left of a token when its first character is taken away. -/
def afterGreater? : Token.Kind → Option Token.Kind
  | .shiftRight => some .greater
  | .shiftRightZero => some .shiftRight
  | .greaterEq => some .assign
  | .shiftRightAssign => some .greaterEq
  | .shiftRightZeroAssign => some .shiftRightAssign
  | _ => none

/-- A token without its first byte. -/
def shorten (t : Token) (kind : Token.Kind) : Token :=
  let p := t.span.start
  { kind, literal := t.literal.drop 1
    span := ⟨⟨p.offset + 1, p.line, p.column + 1⟩, t.span.stop⟩ }

/-- Consumes a closing angle bracket, which may be the start of a longer token. -/
def expectGreater : Parser Unit := do
  let t ← peek
  if t.kind == .greater then
    let _ ← advance
  else match afterGreater? t.kind with
    | some k => modify fun s => { s with splits := s.splits.insert s.pos (shorten t k) }
    | none => fail ">"

/-! ## Repetition -/

/-- Runs a step as long as it returns something; `fuel` bounds the rounds. -/
def repeated {α : Type} (step : Parser (Option α)) (acc : Array α) : Nat → Parser (List α)
  | 0 => throw .exhausted
  | fuel + 1 => do
    match ← step with
    | some a => repeated step (acc.push a) fuel
    | none => return acc.toList

/-- As many items as satisfy the test in front of them. -/
def manyWhile {α : Type} (test : Parser Bool) (item : Parser α) : Parser (List α) := do
  repeated (do if ← test then return some (← item) else return none) #[] (← remaining)

/-- Consumes tokens as long as they satisfy the test. -/
def skipWhile (test : Parser Bool) : Parser Unit := do
  let _ ← manyWhile test advance

/-- Further items, each behind a separator. -/
def moreSeparated {α : Type} (sep : Token.Kind) (item : Parser α) : Parser (List α) :=
  manyWhile (accept sep) item

/-- One or more items between commas. -/
def commaSeparated {α : Type} (item : Parser α) : Parser (List α) := do
  let first ← item
  return first :: (← moreSeparated .comma item)

/-- Items between parentheses and commas, possibly none. -/
def parenthesized {α : Type} (item : Parser α) : Parser (List α) := do
  expect_ .lparen
  let items ← if ← check .rparen then pure [] else commaSeparated item
  expect_ .rparen
  return items

/-! ## Drafts and doc comments -/

/-- Starts a draft, where drafts are kept. -/
def openDraft (d : Draft) : Parser Unit := do
  let c ← read
  unless c.recovering || c.inExpression do
    modify fun s => { s with drafts := ⟨d, s.pos⟩ :: s.drafts }

/-- Whether the innermost draft is the one given, perhaps with fewer children. -/
def State.isInnermost (s : State) (d : Draft) : Bool :=
  match s.drafts with
  | top :: _ => top.draft.info.id == d.info.id
  | [] => false

/-- Ends a draft. -/
def closeDraft (d : Draft) : Parser Unit :=
  modify fun s => if s.isInnermost d then { s with drafts := s.drafts.tail } else s

/-- Records the children of the innermost draft after a complete child. -/
def noteChild (d : Draft) : Parser Unit :=
  modify fun s =>
    if s.isInnermost d then { s with drafts := ⟨d, s.pos⟩ :: s.drafts.tail } else s

/-- The last doc comment before an offset, of those not taken before. -/
def docBefore (offset : Nat) : Parser (Option Comment) := do
  if (← read).speculating then return none
  let s ← get
  let (cs, lexer) := s.lexer.takeComments offset
  set { s with lexer }
  return (cs.filter fun c => c.kind == .doc).getLast?

end Parse

end Javelin

/-!
## The rules that refer to each other

The grammar is circular: types hold annotations, annotations hold expressions, expressions hold
class bodies and blocks. Each rule is written as a parser over a `Grammar`, the parsers to use for
the rules it refers to; the circle is closed in one place, by recursion on a number of steps. -/

namespace Javelin.Parse

/-- The parsers for the circular rules. -/
structure Grammar where
  type : Parser TypeNode
  annot : Parser Annot
  elementValue : Parser Expr
  expression : Parser Expr
  assignment : Parser Expr
  conditional : Parser Expr
  /-- Binary expressions of at least the given precedence. -/
  binary : Nat → Parser Expr
  unary : Parser Expr
  pattern : Parser Expr
  /-- An expression or an array initializer. -/
  initializer : Parser Expr
  /-- A block, of which a draft is kept or not. -/
  block : Bool → Parser Block
  blockStatement : Parser Stmt
  statement : Parser Stmt
  /-- The groups of a switch, of an expression or of a statement. -/
  switchBody : Bool → Parser (List SwitchCase)
  /-- The body of a type, of which a draft is kept or not. -/
  typeBody : Bool → TypeDecl → Parser TypeDecl
  /-- A type declaration from behind its modifiers. -/
  typeRest : Position → Modifiers → Option Comment → Parser TypeDecl

/-- A grammar that accepts nothing. -/
def Grammar.nothing : Grammar where
  type := throw .exhausted
  annot := throw .exhausted
  elementValue := throw .exhausted
  expression := throw .exhausted
  assignment := throw .exhausted
  conditional := throw .exhausted
  binary _ := throw .exhausted
  unary := throw .exhausted
  pattern := throw .exhausted
  initializer := throw .exhausted
  block _ := throw .exhausted
  blockStatement := throw .exhausted
  statement := throw .exhausted
  switchBody _ := throw .exhausted
  typeBody _ _ := throw .exhausted
  typeRest _ _ _ := throw .exhausted

end Javelin.Parse
