import Javelin.Parse.Declarations

/-!
# Recovery from syntax errors

After the first syntax error of a source file the drafts that were open become a stack of elements.
Every token is offered to the innermost element, which absorbs it, opens a nested element or closes
itself and leaves the token to its parent. An element joins its parent's children when it closes;
while it is open the parent gets no other child, so the children keep their order.

1. Elements and how they join their parents.
2. Braces.
3. Headers of declarations that did not parse as a whole.
4. What each kind of element does with a token.
5. The end of the source.
-/

namespace Javelin.Parse

/-! ## Elements -/

/-- A partly parsed declaration, block or variable. -/
structure Element where
  /-- Tells elements apart. -/
  serial : Nat
  draft : Draft
  /-- The braces opened and not yet closed; variables end at a semicolon and open none. -/
  balance : Nat := 0
  /-- The initializer of a variable is complete. -/
  initDone : Bool := false
  /-- The constants of an enum are parsed. -/
  constantsDone : Bool := true
  /-- The span when the element was opened. -/
  openedSpan : Span := {}
deriving Inhabited

/-- The stack of elements, innermost first; the last one is the source file. -/
structure Recovery where
  stack : List Element
  /-- How many elements were opened so far. -/
  opened : Nat
deriving Inhabited

abbrev Recover := StateT Recovery Parser

/-- What can join the children of an element. -/
inductive Child where
  | import (decl : ImportDecl)
  | module (decl : ModuleDecl)
  | type (decl : TypeDecl) (span : Span)
  | member (m : Member)
  | stmt (s : Stmt)

def Draft.withInfo (f : Info → Info) : Draft → Draft
  | .unit u => .unit { u with info := f u.info }
  | .type d => .type { d with info := f d.info }
  | .method d => .method { d with info := f d.info }
  | .initializer i s b => .initializer (f i) s b
  | .block b => .block { b with info := f b.info }
  | .field d => .field { d with info := f d.info }
  | .locals d => .locals { d with info := f d.info }

/-- Adds marks to a draft. -/
def Draft.flagged (f : NodeFlags) (d : Draft) : Draft := d.withInfo (·.withFlags f)

/-- Sets the end of a draft and of its body. -/
def Draft.ended (stop : Position) : Draft → Draft
  | .unit u => .unit u
  | .method d =>
    .method { d with info := d.info.withStop stop
                     body := d.body.map fun b => { b with info := b.info.withStop stop } }
  | .initializer i s b =>
    .initializer (i.withStop stop) s { b with info := b.info.withStop stop }
  | d => d.withInfo (·.withStop stop)

def Draft.isVariable : Draft → Bool
  | .field _ | .locals _ => true
  | _ => false

/-- A block with one more statement. -/
def Block.append (b : Block) (s : Stmt) : Block := { b with stmts := b.stmts ++ [s] }

/-- The statement that a child is inside a body. -/
def Child.statement? : Child → Parser (Option Stmt)
  | .stmt s => return some s
  | .type d span => return some (.localClass (← newInfo span) { d with isLocal := true })
  | _ => return none

/-- Joins a child to the children of a draft. What has no place there is dropped. -/
def Draft.attach (parent : Draft) (c : Child) : Parser Draft := do
  match parent, c with
  | .unit u, .import d => return .unit { u with imports := u.imports ++ [d] }
  | .unit u, .module d => return .unit { u with module := some d }
  | .unit u, .type d _ => return .unit { u with types := u.types ++ [d] }
  | .type t, .type d _ => return .type { t with members := t.members ++ [.type d] }
  | .type t, .member m => return .type { t with members := t.members ++ [m] }
  | .method d, c =>
    match ← c.statement? with
    | some s => return .method { d with body := some (Block.append (d.body.getD default) s) }
    | none => return parent
  | .initializer i st b, c =>
    match ← c.statement? with
    | some s => return .initializer i st (Block.append b s)
    | none => return parent
  | .block b, c =>
    match ← c.statement? with
    | some s => return .block (Block.append b s)
    | none => return parent
  | _, _ => return parent

/-- The child that a closed element is. -/
def Element.child? (e : Element) : Option Child :=
  match e.draft with
  | .unit _ => none
  | .type d => some (.type d e.openedSpan)
  | .method d => some (.member (.method d))
  | .initializer i s b => some (.member (.initializer i s b))
  | .block b => some (.stmt (.block b))
  | .field d => some (.member (.field d))
  | .locals d => some (.stmt (.locals d))

def top : Recover Element := return ((← get).stack.head?).getD default

def setTop (e : Element) : Recover Unit :=
  modify fun r => { r with stack := e :: r.stack.tail }

/-- Replaces the draft of the innermost element. -/
def setDraft (d : Draft) : Recover Unit := do setTop { ← top with draft := d }

/-- Marks all elements as holding errors. -/
def Recovery.flagged (r : Recovery) : Recovery :=
  { r with stack := r.stack.map fun e => { e with draft := e.draft.flagged .hasErrors } }

/-- Marks the innermost element and all around it as holding errors. -/
def flagErrors : Recover Unit := modify Recovery.flagged

/-- Joins a complete child to the innermost element. -/
def add (c : Child) : Recover Unit := do
  let e ← top
  setDraft (← e.draft.attach c)

/-- Opens an element inside the innermost one. -/
def push (d : Draft) (balance : Nat) (constantsDone : Bool) : Recover Unit :=
  modify fun r =>
    let d := d.flagged .recovered
    { stack := { serial := r.opened, draft := d, balance, constantsDone
                 openedSpan := d.info.span } :: r.stack
      opened := r.opened + 1 }

/-- Opens an element whose brace was consumed. -/
def pushBraced (d : Draft) : Recover Unit :=
  push d 1 (match d with
    | .type t => t.kind != .enum
    | _ => true)

def pushVariable (d : Draft) : Recover Unit := push d 0 true

/-- Closes the innermost element. -/
def closeTop (stop : Position) (malformed : Bool) : Recover Unit := do
  let e ← top
  let d := e.draft.ended stop
  let d := if malformed then d.flagged .malformed else d
  modify fun r => { r with stack := r.stack.tail }
  match Element.child? { e with draft := d } with
  | some c => add c
  | none => pure ()

def prevEnd : Recover Position := return (← getThe State).prevEnd

/-! ## Braces -/

/-- The draft of an initializer whose parts start at the given places. -/
def initializerDraft (start bodyStart : Position) (isStatic : Bool) : Parser Draft := do
  let body : Block := ⟨← newInfo ⟨bodyStart, bodyStart⟩, []⟩
  return .initializer (← newInfo ⟨start, start⟩) isStatic body

/-- Consumes an opening brace that the innermost element has no use for. -/
def openingBrace : Recover Unit := do
  let e ← top
  if e.draft.isVariable then closeTop (← prevEnd) !e.initDone
  let start ← startPos
  match (← top).draft with
  | .type _ =>
    discard advance
    pushBraced (← initializerDraft start start false)
  | .unit _ =>
    reportSyntax (← peek) {}
    discard advance
  | _ =>
    discard advance
    pushBraced (.block ⟨← newInfo ⟨start, start⟩, []⟩)

/-- Consumes a closing brace for the innermost element with braces; a variable is closed first. -/
def closingBrace : Recover Unit := do
  let e ← top
  match e.draft with
  | .unit _ =>
    reportSyntax (← peek) {}
    discard advance
  | _ =>
    if e.balance == 0 then closeTop (← prevEnd) !e.initDone
    else
      let t ← advance
      setTop { e with balance := e.balance - 1 }
      if e.balance == 1 then closeTop t.span.stop false

/-! ## Skipping -/

def skipTo (stop : List Token.Kind) : Parser Unit :=
  skipWhile (return !(← checkAny (.eof :: stop)))

/-- Whether a top level declaration may start here. -/
def startsTopLevel (more : List Token.Kind) : Parser Bool :=
  return (← isModifierStart) || (← isTypeKeywordHere) || (← checkAny more)

/-- Drops a broken package or import declaration. -/
def skipUnitStatement : Parser Unit := do
  discard advance
  let more : List Token.Kind :=
    [.eof, .semicolon, .kwImport, .kwPackage, .lbrace, .rbrace]
  skipWhile (return !(← startsTopLevel more))
  discard (accept .semicolon)

/-- Drops tokens up to something that can begin a top level declaration. -/
def skipToTypeStart : Parser Unit := do
  discard advance
  skipWhile (return !(← startsTopLevel [.eof, .kwImport, .kwPackage]))

/-- Drops a case label with its colon or arrow. -/
def skipCaseLabel (depth : Int) : Nat → Parser Unit
  | 0 => throw .exhausted
  | fuel + 1 => do
    match (← peek).kind with
    | .eof | .semicolon | .lbrace | .rbrace => pure ()
    | .lparen =>
      discard advance
      skipCaseLabel (depth + 1) fuel
    | .rparen =>
      discard advance
      skipCaseLabel (depth - 1) fuel
    | .colon | .arrow =>
      discard advance
      if depth > 0 then skipCaseLabel depth fuel
    | _ =>
      discard advance
      skipCaseLabel depth fuel

/-- Drops tokens through the next semicolon outside parentheses; stops before braces. -/
def skipStatement (depth : Nat) : Nat → Parser Unit
  | 0 => throw .exhausted
  | fuel + 1 => do
    match (← peek).kind with
    | .eof | .lbrace | .rbrace => pure ()
    | .lparen =>
      discard advance
      skipStatement (depth + 1) fuel
    | .rparen =>
      discard advance
      skipStatement (depth - 1) fuel
    | .semicolon =>
      discard advance
      if depth > 0 then skipStatement depth fuel
    | _ =>
      discard advance
      skipStatement depth fuel

/-- Drops tokens up to one of the given kinds outside brackets, or up to a closing brace that leaves
the nesting here. -/
def skipBalanced (stop : List Token.Kind) (depth : Nat) : Nat → Parser Unit
  | 0 => throw .exhausted
  | fuel + 1 => do
    let k := (← peek).kind
    if k == .eof || (depth == 0 && (stop.contains k || k == .rbrace)) then pure ()
    else
      discard advance
      match k with
      | .lparen | .lbrace | .lbracket => skipBalanced stop (depth + 1) fuel
      | .rparen | .rbracket | .rbrace => skipBalanced stop (depth - 1) fuel
      | _ => skipBalanced stop depth fuel

/-- Consumes tokens through the parenthesis that matches one consumed before. -/
def skipParens (depth : Nat) : Nat → Parser Unit
  | 0 => throw .exhausted
  | fuel + 1 => do
    if ← check .eof then fail ")"
    match (← advance).kind with
    | .lparen => skipParens (depth + 1) fuel
    | .rparen => if depth == 1 then pure () else skipParens (depth - 1) fuel
    | _ => skipParens depth fuel

/-! ## Broken headers -/

/-- The modifiers, keyword and name of a type. -/
def typeStart (g : Grammar) (start : Position) : Parser TypeDecl := do
  let mods ← modifiers g
  if !(← isTypeKeywordHere) then fail "class"
  let info ← newInfo ⟨start, start⟩
  let (kind, name) ← typeKindAndName
  return { (default : TypeDecl) with info, kind, modifiers := some mods, name := some name }

/-- A type whose header can be read at least up to its name. -/
def recoverTypeHeader (g : Grammar) : Recover Bool := do
  let start ← startPos
  match ← attempt (typeStart g start) with
  | none => return false
  | some d =>
    let d ← match ← attempt (typeHeaderRest g d) with
      | some d => pure d
      | none => do
        skipTo [.lbrace, .semicolon, .rbrace]
        pure d
    if ← check .lbrace then
      let bodyStart ← startPos
      discard advance
      let span ← spanFrom start
      pushBraced (.type { d with info := d.info.withSpan span, bodyStart })
    else
      let span ← spanFrom start
      let info := ((d.info.withSpan span).withFlags .malformed).withFlags .recovered
      add (.type { d with info } span)
    return true

/-- The header of a method up to its parameters. -/
def methodStart (g : Grammar) (ownerName : Text) : Parser MethodDecl := do
  let mods ← modifiers g
  let ps ← if ← check .less then typeParams g else pure []
  let d := { (default : MethodDecl) with
    info := ← newInfo {}, modifiers := some mods, typeParams := ps }
  let d ← if (← check .identifier) && (← checkAt 1 .lparen) then
      let name ← ident
      pure { d with name, isConstructor := name.name == ownerName }
    else
      let type ← resultType g
      let name ← ident
      pure { d with result := some type, name }
  if !(← check .lparen) then fail "("
  return d

/-- A method whose header can be read at least up to its parameters. -/
def recoverMethodHeader (g : Grammar) (ownerName : Text) : Recover Bool := do
  let start ← startPos
  match ← attempt (methodStart g ownerName) with
  | none => return false
  | some d =>
    let d ← match ← attempt (methodRest g d) with
      | some d => pure d
      | none => do
        skipTo [.lbrace, .semicolon, .rbrace]
        pure { d with info := d.info.withFlags .malformed }
    let span ← spanFrom start
    let d := { d with info := d.info.withSpan span }
    if ← check .lbrace then
      let body ← emptyBlock
      discard advance
      pushBraced (.method { d with body := some body })
    else
      let flags ← if ← accept .semicolon then pure NodeFlags.recovered
        else pure (NodeFlags.recovered.union .malformed)
      let span ← spanFrom start
      add (.member (.method { d with info := (d.info.withSpan span).withFlags flags }))
    return true

/-- A declarator without its initializer. -/
def bareDeclarator : Parser VarDeclarator := do
  let name ← ident
  let dims ← dimCount
  return ⟨← infoFrom name.info.start, name, dims, none⟩

/-- A field declaration up to its first initializer. -/
def recoverFieldHeader (g : Grammar) : Recover Bool := do
  let start ← startPos
  let header : Parser VarDecl := do
    let mods ← modifiers g
    let type ← g.type
    let v ← bareDeclarator
    return ⟨← infoFrom start, some mods, type, [v], none⟩
  match ← attempt header with
  | none => return false
  | some d =>
    pushVariable (.field d)
    return true

/-- A local variable declaration up to its first initializer. -/
def recoverLocalHeader (g : Grammar) : Recover Bool := do
  let start ← startPos
  let header : Parser VarDecl := do
    let mods ← modifiers g
    let type ← localType (← g.type)
    let v ← bareDeclarator
    if !(← checkAny [.assign, .comma, .semicolon]) then fail "="
    return ⟨← infoFrom start, some mods, type, [v], none⟩
  match ← attempt header with
  | none => return false
  | some d =>
    pushVariable (.locals d)
    return true

/-! ## Tokens inside each kind of element -/

/-- Adds the mark of recovery to a node's information. -/
def asRecovered (i : Info) : Info := i.withFlags .recovered

def Member.recovered : Member → Member
  | .field d => .field { d with info := asRecovered d.info }
  | .method d => .method { d with info := asRecovered d.info }
  | .initializer i s b => .initializer (asRecovered i) s b
  | .type d => .type { d with info := asRecovered d.info }

def recoverPackage (g : Grammar) : Recover Unit := do
  match ← orRewind (packageDecl g) with
  | some p =>
    match (← top).draft with
    | .unit u => setDraft (.unit { u with package := some { p with info := asRecovered p.info } })
    | _ => pure ()
  | none =>
    flagErrors
    skipUnitStatement

def recoverImport : Recover Unit := do
  match ← orRewind importDecl with
  | some d => add (.import { d with info := asRecovered d.info })
  | none =>
    flagErrors
    match ← attempt importHeader with
    | some d =>
      add (.import { d with info := (asRecovered d.info).withFlags .malformed })
      discard (accept .semicolon)
    | none => skipUnitStatement

def recoverModule (g : Grammar) : Recover Unit := do
  match ← orRewind (moduleDecl g) with
  | some d => add (.module { d with info := asRecovered d.info })
  | none =>
    flagErrors
    skipToTypeStart

def recoverTopLevelType (g : Grammar) : Recover Unit := do
  match ← orRewind (typeDecl g) with
  | some d => add (.type { d with info := asRecovered d.info } d.info.span)
  | none =>
    flagErrors
    if !(← recoverTypeHeader g) then skipToTypeStart

def recoverInUnit (g : Grammar) : Recover Unit := do
  match (← peek).kind with
  | .semicolon => discard advance
  | .rbrace => closingBrace
  | .lbrace => openingBrace
  | k =>
    let isPackage ← if k == .kwPackage then pure true else isAnnotatedPackage g
    if isPackage then recoverPackage g
    else if k == .kwImport then recoverImport
    else if ← isModule g then recoverModule g
    else recoverTopLevelType g

/-- The constants of an enum, one at a time; those that fail are dropped. -/
def recoverConstants (g : Grammar) : Nat → Recover Unit
  | 0 => throw .exhausted
  | fuel + 1 => do
    if ← checkAny [.eof, .rbrace] then return
    if ← accept .semicolon then return
    match ← orRewind (enumConstant g) with
    | some c =>
      match (← top).draft with
      | .type d =>
        let c := { c with info := asRecovered c.info }
        setDraft (.type { d with constants := d.constants ++ [c] })
      | _ => pure ()
    | none =>
      flagErrors
      skipTo [.comma, .semicolon, .rbrace]
    if ← accept .comma then recoverConstants g fuel else discard (accept .semicolon)

def recoverMember (g : Grammar) (d : TypeDecl) : Recover Unit := do
  match ← orRewind (member g d.kind d.nameText) with
  | some (some m) =>
    match Member.recovered m with
    | .type d => add (.type d d.info.span)
    | m => add (.member m)
  | some none => pure ()
  | none =>
    flagErrors
    if ← recoverTypeHeader g then return
    if ← recoverMethodHeader g d.nameText then return
    if ← recoverFieldHeader g then return
    discard advance

def recoverInType (g : Grammar) (e : Element) (d : TypeDecl) : Recover Unit := do
  if !e.constantsDone then
    setTop { e with constantsDone := true }
    recoverConstants g (← remaining)
    return
  match (← peek).kind with
  | .rbrace => closingBrace
  | .lbrace => openingBrace
  | k =>
    if k == .kwStatic && (← peekAt 1).kind == .lbrace then
      let start ← startPos
      discard advance
      let bodyStart ← startPos
      discard advance
      pushBraced (← initializerDraft start bodyStart true)
    else recoverMember g d

/-- Whether the tokens ahead can only start a member: an access modifier, or the header of a method
and its body. -/
def isMemberHeader (g : Grammar) : Parser Bool := do
  if ← checkAny [.kwPublic, .kwProtected, .kwPrivate] then return true
  lookahead do
    discard (modifiers g)
    if ← check .less then discard (typeParams g)
    discard (resultType g)
    discard ident
    expect_ .lparen
    skipParens 1 (← remaining)
    if !(← checkAny [.lbrace, .kwThrows]) then fail "\x7b"

/-- Gives up the bodies around here, so that the enclosing type sees the next member. -/
def closeBodies : Nat → Recover Unit
  | 0 => throw .exhausted
  | fuel + 1 => do
    match (← top).draft with
    | .type _ | .unit _ => pure ()
    | _ =>
      closeTop (← prevEnd) true
      closeBodies fuel

/-- Marks a statement as recovered. -/
def Stmt.recovered : Stmt → Stmt
  | .block b => .block { b with info := asRecovered b.info }
  | .empty i => .empty (asRecovered i)
  | .locals d => .locals { d with info := asRecovered d.info }
  | .localClass i d => .localClass (asRecovered i) d
  | .expr i x => .expr (asRecovered i) x
  | .ifElse i c y n => .ifElse (asRecovered i) c y n
  | .while i c b => .while (asRecovered i) c b
  | .doWhile i b c => .doWhile (asRecovered i) b c
  | .for i s c u b => .for (asRecovered i) s c u b
  | .forEach i v x b => .forEach (asRecovered i) v x b
  | .return i x => .return (asRecovered i) x
  | .break i l => .break (asRecovered i) l
  | .continue i l => .continue (asRecovered i) l
  | .yield i x => .yield (asRecovered i) x
  | .throw i x => .throw (asRecovered i) x
  | .switch i x cs => .switch (asRecovered i) x cs
  | .try i rs b cs f => .try (asRecovered i) rs b cs f
  | .labeled i l b => .labeled (asRecovered i) l b
  | .sync i x b => .sync (asRecovered i) x b
  | .assert i c m => .assert (asRecovered i) c m
  | .constructorCall i s q ts xs => .constructorCall (asRecovered i) s q ts xs

def recoverInBody (g : Grammar) : Recover Unit := do
  match (← peek).kind with
  | .rbrace => closingBrace
  | .lbrace => openingBrace
  | .kwCase | .kwDefault => skipCaseLabel 0 (← remaining)
  | _ =>
    match ← orRewind g.blockStatement with
    | some s => add (.stmt (Stmt.recovered s))
    | none =>
      flagErrors
      if ← isMemberHeader g then closeBodies (← get).stack.length
      else if ← recoverLocalHeader g then return
      else skipStatement 0 (← remaining)

/-- An array initializer, element by element; an element that fails is replaced. -/
def recoverElements (g : Grammar) (acc : Array Expr) (bad : Bool) :
    Nat → Parser (List Expr × Bool)
  | 0 => throw .exhausted
  | fuel + 1 => do
    if ← checkAny [.rbrace, .eof] then return (acc.toList, bad)
    let start ← startPos
    let elem ← orRewind do
      let x ← g.initializer
      if !(← checkAny [.comma, .rbrace]) then fail "\x7d"
      return x
    let (x, bad) ← match elem with
      | some x => pure (x, bad)
      | none => do
        skipBalanced [.comma] 0 (← remaining)
        let info ← infoFrom start
        pure (Expr.bad (info.withFlags .malformed), true)
    let acc := acc.push x
    if ← accept .comma then recoverElements g acc bad fuel else return (acc.toList, bad)

def recoverArrayInit (g : Grammar) : Parser Expr := do
  let start ← startPos
  discard advance
  let (elems, bad) ← recoverElements g #[] false (← remaining)
  let closed ← accept .rbrace
  let info ← infoFrom start
  let info := if bad then info.withFlags .hasErrors else info
  let info := if closed then info else info.withFlags .malformed
  return .arrayInit info elems

/-- The variables of a draft, changed. -/
def Draft.withVars (f : List VarDeclarator → List VarDeclarator) : Draft → Draft
  | .field d => .field { d with vars := f d.vars }
  | .locals d => .locals { d with vars := f d.vars }
  | d => d

def Draft.varDecl? : Draft → Option VarDecl
  | .field d => some d
  | .locals d => some d
  | _ => none

/-- The declarator whose initializer is pending: the last one. -/
def Draft.pending? (d : Draft) : Option VarDeclarator := d.varDecl?.bind fun v => v.vars.getLast?

/-- Changes the last declarator. -/
def Draft.withPending (f : VarDeclarator → VarDeclarator) (d : Draft) : Draft :=
  d.withVars fun vs =>
    match vs.getLast? with
    | some v => vs.dropLast ++ [f v]
    | none => vs

/-- Ends the pending declarator with the last token consumed, but not before its start. -/
def extendPending (e : Element) : Recover Unit := do
  let stop ← prevEnd
  let extend (v : VarDeclarator) : VarDeclarator :=
    { v with info := v.info.withStop (if stop.offset < v.info.start.offset then v.info.start
                                      else stop) }
  setTop { e with draft := e.draft.withPending extend, initDone := true }

/-- Whether a brace behind an equals sign can be an array initializer. -/
def isArrayDecl (d : Draft) : Bool :=
  match d.varDecl? with
  | none => false
  | some v =>
    (match v.vars.getLast? with
      | some w => w.dims > 0
      | none => false) ||
    (match v.type with
      | .array .. => true
      | _ => false)

def setPendingInit (e : Element) (x : Expr) : Element :=
  { e with draft := e.draft.withPending fun v => { v with init := some x } }

def recoverInVariable (g : Grammar) (e : Element) : Recover Unit := do
  match (← peek).kind with
  | .assign =>
    discard advance
    if ← check .lbrace then return
    match ← attempt g.expression with
    | some x => extendPending (setPendingInit e x)
    | none =>
      skipBalanced [.comma, .semicolon] 0 (← remaining)
      extendPending { e with draft := e.draft.flagged .malformed }
  | .lbrace =>
    let hasInit := (e.draft.pending?.bind VarDeclarator.init).isSome
    if e.initDone || hasInit || !isArrayDecl e.draft || (← previous).kind != .assign then
      openingBrace
    else
      let x ← recoverArrayInit g
      extendPending (setPendingInit e x)
  | .comma =>
    discard advance
    match ← attempt bareDeclarator with
    | none => closeTop (← prevEnd) true
    | some v => setTop { e with draft := e.draft.withVars (· ++ [v]), initDone := false }
  | .semicolon =>
    discard advance
    closeTop (← prevEnd) false
  | .rbrace => closingBrace
  | _ =>
    reportSyntax (← peek) ";"
    closeTop (← prevEnd) true

/-! ## The loop and the end -/

def recoverStep (g : Grammar) : Recover Unit := do
  let e ← top
  match e.draft with
  | .unit _ => recoverInUnit g
  | .type d => recoverInType g e d
  | .method _ | .initializer .. | .block _ => recoverInBody g
  | .field _ | .locals _ => recoverInVariable g e

/-- Offers every token to the innermost element. A token that changes nothing is dropped. -/
def recoverLoop (g : Grammar) : Nat → Recover Unit
  | 0 => throw .exhausted
  | fuel + 1 => do
    if ← check .eof then return
    let pos := (← getThe State).pos
    let serial := (← top).serial
    let opened := (← get).opened
    recoverStep g
    if (← getThe State).pos == pos && (← top).serial == serial && (← get).opened == opened then
      reportSyntax (← peek) {}
      discard advance
    recoverLoop g fuel

/-- What a missing brace or token would complete. -/
def Draft.construct : Draft → Text
  | .type _ => "ClassBody"
  | .method _ => "MethodBody"
  | .field _ => "FieldDeclaration"
  | .locals _ => "LocalVariableDeclarationStatement"
  | .unit _ => "CompilationUnit"
  | _ => "Block"

/-- Reports what is missing at the end of the source. -/
def reportEnd : Recover Unit := do
  let s ← getThe State
  let last := if s.tokens.size > 1 then s.token (s.tokens.size - 2) else s.current
  let stack := (← get).stack
  match stack.dropLast.find? fun e => e.balance > 0 with
  | some e => report last .syntaxErrorInsertToComplete ["\x7d", e.draft.construct]
  | none =>
    if !s.missingAtEnd.isEmpty then
      report last .syntaxErrorInsertToComplete [s.missingAtEnd, (← top).draft.construct]

/-- Closes all elements but the source file. -/
def closeAll (stop : Position) : Nat → Recover Unit
  | 0 => throw .exhausted
  | fuel + 1 => do
    if (← get).stack.length ≤ 1 then return
    let e ← top
    let malformed := e.balance > 0 || (e.draft.isVariable && !e.initDone)
    if malformed then setTop { e with draft := e.draft.flagged .hasErrors }
    closeTop stop malformed
    closeAll stop fuel

/-- The element that an open draft becomes. The constants of an enum that failed are parsed again.
-/
def elementOf (s : State) (serial : Nat) (d : OpenDraft) : Element :=
  let base : Element :=
    { serial, draft := d.draft, openedSpan := d.draft.info.span, balance := 1 }
  match d.draft with
  | .unit _ => { base with balance := 0 }
  | .type t =>
    if t.kind == .enum && d.childStart > 0 && (s.token (d.childStart - 1)).kind == .lbrace then
      { base with draft := .type { t with constants := [] }, constantsDone := false }
    else base
  | _ => base

/-- The stack that the open drafts become. -/
def Recovery.ofState (s : State) : Recovery :=
  let n := s.drafts.length
  { stack := s.drafts.zipIdx.map fun (d, i) => elementOf s (n - 1 - i) d
    opened := n }

/-- The state in which recovery takes over: where the next child of the innermost draft starts. -/
def State.resumed (s : State) : State :=
  { s with pos := (s.drafts.head?.map OpenDraft.childStart).getD 0, splits := {}, drafts := [] }

/-- A bound on the rounds of recovery from a state. -/
def roundsFor (s : State) : Nat := 4 * (s.tokens.size + s.drafts.length + 4)

/-- Reports what is missing and closes all elements but the source file. -/
def finishRecovery : Recover Unit := do
  reportEnd
  let stop ← prevEnd
  closeAll stop (← get).stack.length

/-- Parses the rest of a source file whose first part failed. -/
def recoverUnit (g : Grammar) (u : CompilationUnit) : Parser CompilationUnit := do
  let s ← get
  set s.resumed
  let (_, r) ← (do
    recoverLoop g (roundsFor s)
    finishRecovery : Recover Unit).run (Recovery.ofState s).flagged
  let span ← unitSpan
  match r.stack with
  | [{ draft := .unit u, .. }] =>
    return { u with info := (u.info.withSpan span).withFlags .hasErrors }
  | _ => return u

end Javelin.Parse

/-!
## Parsing a text

A text is parsed as a source file, as one expression or as one statement. The parse of a source file
always gives a tree: after the first syntax error recovery builds the rest of it. An expression or a
statement with a syntax error gives a malformed placeholder.
-/

namespace Javelin.Parse

/-- What a parse gives: the tree, the problems in the order of their reports, the number of errors
and the first number that no node has. -/
structure Result (α : Type) where
  tree : α
  problems : List Problem
  errorCount : Nat
  nextId : Nat

/-- What a parse is told about its text. -/
structure Options where
  file : Text := {}
  level : Level := .latest
  /-- Every comment is kept with the tree of a source file. -/
  keepComments : Bool := false
  /-- The number of the first node. -/
  firstId : Nat := 0

/-- The problem of a malformed token. -/
def lexicalProblem (file : Text) (t : Token) (id : Problem.Id) : Problem :=
  let args := if id == .invalidCharacter || id == .invalidOctalLiteral then [t.literal] else []
  .new id (.ofSpan file t.span) args

/-- Whether a token means something to the grammar. -/
def isSignificant (t : Token) : Bool :=
  match t.kind with
  | .whitespace | .blockComment | .lineComment | .invalid => false
  | _ => true

/-- The state at the start of a text: its tokens are read and their faults are reported. -/
def start (source : Text) (o : Options) : State :=
  let (ts, lexer) := (Lexer.new source o.file o.level).run
  let faults := ts.toList.filterMap fun t => t.fault.map fun id => (t, id)
  { lexer, tokens := ts.filter isSignificant
    problems := (faults.map fun (t, id) => lexicalProblem o.file t id).toArray
    errorCount := faults.countP fun (_, id) => id != .underscoreAsIdentifier
    nextId := o.firstId }

def contextOf (o : Options) : Context := { file := o.file, level := o.level }

def resultOf {α : Type} (tree : α) (s : State) : Result α :=
  ⟨tree, s.problems.toList, s.errorCount, s.nextId⟩

/-- The grammar with steps enough for the tokens of a state. -/
def grammarFor (s : State) : Grammar := grammar (stepsFor s.tokens.size)

/-- A source file whose parts are not parsed yet. -/
def emptyUnit (o : Options) : CompilationUnit := { info := { id := o.firstId }, file := o.file }

/-- The strict parse of a source file, which has the first number. -/
def strictUnit (source : Text) (o : Options) : EStateM.Result Failure State CompilationUnit :=
  let s := start source o
  unit (grammarFor s) (emptyUnit o) (contextOf o) { s with nextId := o.firstId + 1 }

/-- The recovery of a source file from the state that the strict parse left. -/
def recoveredUnit (o : Options) (s : State) : EStateM.Result Failure State CompilationUnit :=
  recoverUnit (grammarFor s) (emptyUnit o) { contextOf o with recovering := true } s

/-- The tree of a source file and the state behind it. -/
def treeOf (source : Text) (o : Options) : CompilationUnit × State :=
  match strictUnit source o with
  | .ok u s => (u, s)
  | .error _ s =>
    match recoveredUnit o s with
    | .ok u s => (u, s)
    | .error _ s => (emptyUnit o, s)

/-- A source file. -/
def unitOf (source : Text) (o : Options) : Result CompilationUnit :=
  let (u, s) := treeOf source o
  let u := if o.keepComments then { u with comments := s.lexer.allComments } else u
  let u := if s.errorCount > 0 then { u with info := u.info.withFlags .hasErrors } else u
  resultOf { u with nodes := s.nextId } s

/-- The strict parse of a text that is one phrase of the grammar. -/
def strictPhrase {α : Type} (rule : Grammar → Parser α) (source : Text) (o : Options) :
    EStateM.Result Failure State α :=
  let s := start source o
  (do
    let a ← rule (grammarFor s)
    expect_ .eof
    return a : Parser α) (contextOf o) s

/-- The state after what is missing at the end is reported. -/
def State.ended (o : Options) (s : State) : State :=
  if s.missingAtEnd.isEmpty then s
  else s.reporting (.new .syntaxErrorInsertToComplete (.ofSpan o.file s.current.span)
    [s.missingAtEnd, "Expression"])

/-- A text that is one phrase of the grammar. -/
def phraseOf {α : Type} (rule : Grammar → Parser α) (bad : Info → α) (source : Text)
    (o : Options) : Result α :=
  let (a, s) := match strictPhrase rule source o with
    | .ok a s => (some a, s)
    | .error _ s => (none, s)
  let s := s.ended o
  let placeholder := bad { id := s.nextId, flags := .malformed }
  resultOf (a.getD placeholder) { s with nextId := s.nextId + 1 }

/-- One expression. -/
def expressionOf (source : Text) (o : Options) : Result Expr :=
  phraseOf Grammar.expression .bad source o

/-- One statement of a block. -/
def statementOf (source : Text) (o : Options) : Result Stmt :=
  phraseOf Grammar.blockStatement .empty source o

end Javelin.Parse
