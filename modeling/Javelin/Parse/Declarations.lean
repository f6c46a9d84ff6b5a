import Javelin.Parse.Statements

/-!
# Declarations

1. Headers and bodies of types.
2. Members: initializers, nested types, constructors, methods and fields.
3. Packages, imports and modules.
4. The closed grammar, `grammar n` with at most `n` nested uses of circular rules.
5. Whole source files.
-/

namespace Javelin.Parse

/-! ## Types -/

/-- The keyword of a type declaration and its name. -/
def typeKindAndName : Parser (TypeKind × Ident) := do
  let kind ← do
    if ← accept .kwClass then pure TypeKind.cls
    else if ← accept .kwInterface then pure .interface
    else if ← accept .kwEnum then pure .enum
    else if ← accept .at then
      expect_ .kwInterface
      pure .annot
    else if ← checkWord "record" then
      let _ ← advance
      pure .record
    else fail "class"
  return (kind, ← ident)

/-- The `extends`, `implements` and `permits` clauses, in any order. -/
def typeClauses (g : Grammar) (d : TypeDecl) : Nat → Parser TypeDecl
  | 0 => throw .exhausted
  | fuel + 1 => do
    if ← accept .kwExtends then
      if d.kind == .interface then
        let ts ← typeList g
        typeClauses g { d with interfaces := d.interfaces ++ ts } fuel
      else
        let t ← classType g false
        typeClauses g { d with superclass := some t } fuel
    else if ← accept .kwImplements then
      let ts ← typeList g
      typeClauses g { d with interfaces := d.interfaces ++ ts } fuel
    else if ← checkWord "permits" then
      let _ ← advance
      let ts ← typeList g
      typeClauses g { d with permits := d.permits ++ ts } fuel
    else return d

/-- The header of a type from behind its name. -/
def typeHeaderRest (g : Grammar) (d : TypeDecl) : Parser TypeDecl := do
  let ps ← if ← check .less then typeParams g else pure []
  let cs ← if d.kind == .record then parenthesized (param g) else pure []
  typeClauses g { d with typeParams := ps, components := cs } (← remaining)

def enumConstant (g : Grammar) : Parser EnumConstant := do
  let start ← startPos
  let doc ← docBefore start.offset
  let annots ← annotsHere g
  let name ← ident
  let args ← if ← check .lparen then arguments g else pure []
  let body ← untracked (anonymousBody g)
  return ⟨← infoFrom start, annots, name, args, body, doc⟩

/-- The constants at the start of an enum body. -/
def enumConstantsFrom (g : Grammar) (acc : Array EnumConstant) :
    Nat → Parser (List EnumConstant)
  | 0 => throw .exhausted
  | fuel + 1 => do
    if ← checkAny [.semicolon, .rbrace] then return acc.toList
    let acc := acc.push (← enumConstant g)
    if ← accept .comma then enumConstantsFrom g acc fuel else return acc.toList

/-- The list of constants and the semicolon behind it, which may be missing before a brace. -/
def enumConstants (g : Grammar) : Parser (List EnumConstant) := do
  let cs ← enumConstantsFrom g #[] (← remaining)
  if !(← check .rbrace) then expect_ .semicolon
  return cs

/-! ## Members -/

def initializerBlock (g : Grammar) : Parser Member := do
  let start ← startPos
  let info ← newInfo ⟨start, start⟩
  let isStatic ← accept .kwStatic
  let body ← emptyBlock
  expect_ .lbrace
  openDraft (.initializer info isStatic body)
  let body ← blockStatements g (.initializer info isStatic) body (← remaining)
  expect_ .rbrace
  closeDraft (.initializer info isStatic body)
  let body ← finishBlock body
  let span ← spanFrom start
  return .initializer (info.withSpan span) isStatic body

/-- The qualified receiver names before `this`. -/
def receiverQualifier : Parser Unit :=
  discard (manyWhile (return (← check .identifier) && (← checkAt 1 .dot)) skipBrackets)

def isReceiver (g : Grammar) : Parser Bool :=
  lookahead do
    let _ ← annotsHere g
    let _ ← g.type
    receiverQualifier
    expect_ .kwThis

def receiverParam (g : Grammar) : Parser Param := do
  let start ← startPos
  let mods ← modifiers g
  let type ← g.type
  receiverQualifier
  let t ← expect .kwThis
  let name ← identToken t "this"
  return ⟨← infoFrom start, some mods, some type, false, name, 0⟩

/-- A receiver (left) or an ordinary parameter (right). -/
def formalParam (g : Grammar) : Parser (Param ⊕ Param) := do
  if ← isReceiver g then return .inl (← receiverParam g) else return .inr (← param g)

/-- The parameters, dimensions and thrown types of a method. -/
def methodRest (g : Grammar) (d : MethodDecl) : Parser MethodDecl := do
  let ps ← parenthesized (formalParam g)
  let dims ← manyWhile (check .lbracket) do
    let _ ← advance
    expect_ .rbracket
  let throws ← if ← accept .kwThrows then typeList g else pure []
  return { d with
    receiver := (ps.filterMap fun | .inl p => some p | .inr _ => none).getLast?
    params := ps.filterMap fun | .inl _ => none | .inr p => some p
    dims := dims.length, throws }

/-- The body of a method, or the semicolon in its place. -/
def methodBody (g : Grammar) (d : MethodDecl) : Parser MethodDecl := do
  if ← accept .semicolon then return d
  let body ← emptyBlock
  expect_ .lbrace
  let wrap (b : Block) : Draft := .method { d with body := some b }
  openDraft (wrap body)
  let body ← blockStatements g wrap body (← remaining)
  expect_ .rbrace
  closeDraft (wrap body)
  return { d with body := some (← finishBlock body) }

def finishMethod (start : Position) (d : MethodDecl) : Parser Member := do
  let span ← spanFrom start
  return .method { d with info := d.info.withSpan span }

/-- A constructor, a compact constructor, or a method without a result type. -/
def constructorMember (g : Grammar) (ownerName : Text) (start : Position) (d : MethodDecl) :
    Parser Member := do
  let name ← ident
  let d := { d with name, isConstructor := name.name == ownerName }
  let d ← if ← check .lbrace then pure { d with isCompact := true } else methodRest g d
  finishMethod start (← methodBody g d)

/-- A method from behind its name. -/
def methodMember (g : Grammar) (start : Position) (d : MethodDecl) : Parser Member := do
  let d ← methodRest g d
  let default ← if ← accept .kwDefault then pure (some (← g.elementValue)) else pure none
  finishMethod start (← methodBody g { d with default })

/-- Whether a constructor starts here: a name before a parenthesis or, in a record, the name of the
record before a brace. -/
def isConstructorHere (ownerKind : TypeKind) (ownerName : Text) : Parser Bool := do
  let t ← peek
  let next := (← peekAt 1).kind
  return t.kind == .identifier && (next == .lparen ||
    (ownerKind == .record && next == .lbrace && t.literal == ownerName))

/-- One member of a type; nothing for a semicolon. -/
def member (g : Grammar) (ownerKind : TypeKind) (ownerName : Text) :
    Parser (Option Member) := do
  if ← accept .semicolon then return none
  let start ← startPos
  if (← check .lbrace) || ((← check .kwStatic) && (← checkAt 1 .lbrace)) then
    return some (← initializerBlock g)
  let doc ← docBefore start.offset
  let mods ← modifiers g
  if ← isTypeKeywordHere then return some (.type (← g.typeRest start mods doc))
  let info ← newInfo ⟨start, start⟩
  let ps ← if ← check .less then typeParams g else pure []
  let d := { (default : MethodDecl) with info, modifiers := some mods, typeParams := ps, doc }
  if ← isConstructorHere ownerKind ownerName then
    return some (← constructorMember g ownerName start d)
  let type ← resultType g
  let name ← ident
  if ← check .lparen then
    return some (← methodMember g start { d with result := some type, name })
  if !ps.isEmpty then fail "("
  let vars ← declaratorsFrom g name
  expect_ .semicolon
  return some (.field ⟨← infoFrom start, some mods, type, vars, doc⟩)

/-- Members up to a closing brace, added to a type. -/
def membersFrom (g : Grammar) (d : TypeDecl) : Nat → Parser TypeDecl
  | 0 => throw .exhausted
  | fuel + 1 => do
    if ← checkAny [.rbrace, .eof] then return d
    let d ← match ← member g d.kind d.nameText with
      | some m => pure { d with members := d.members ++ [m] }
      | none => pure d
    noteChild (.type d)
    membersFrom g d fuel

def typeBodyRule (g : Grammar) (track : Bool) (d : TypeDecl) : Parser TypeDecl := do
  let d := { d with bodyStart := ← startPos }
  expect_ .lbrace
  if track then openDraft (.type d)
  let d ← if d.kind == .enum then
      noteChild (.type d)
      let cs ← enumConstants g
      let d := { d with constants := cs }
      noteChild (.type d)
      pure d
    else pure d
  let d ← membersFrom g d (← remaining)
  expect_ .rbrace
  if track then closeDraft (.type d)
  return d

def typeRestRule (g : Grammar) (start : Position) (mods : Modifiers) (doc : Option Comment) :
    Parser TypeDecl := do
  let info ← newInfo ⟨start, start⟩
  let (kind, name) ← typeKindAndName
  let d := { (default : TypeDecl) with info, kind, modifiers := some mods, name := some name, doc }
  let d ← typeHeaderRest g d
  let d ← g.typeBody true d
  let span ← spanFrom start
  return { d with info := d.info.withSpan span }

/-! ## The closed grammar -/

/-- The grammar in which the circular rules are used at most `n` deep. -/
def grammar : Nat → Grammar
  | 0 => .nothing
  | n + 1 =>
    { type := fun c s => typeRule (grammar n) c s
      annot := fun c s => annotRule (grammar n) c s
      elementValue := fun c s => elementValueRule (grammar n) c s
      expression := fun c s => expressionRule (grammar n) c s
      assignment := fun c s => assignmentRule (grammar n) c s
      conditional := fun c s => conditionalRule (grammar n) c s
      binary := fun least c s => binaryRule (grammar n) least c s
      unary := fun c s => unaryRule (grammar n) c s
      pattern := fun c s => patternRule (grammar n) c s
      initializer := fun c s => initializerRule (grammar n) c s
      block := fun track c s => blockRule (grammar n) track c s
      blockStatement := fun c s => blockStatementRule (grammar n) c s
      statement := fun c s => statementRule (grammar n) c s
      switchBody := fun isExpr c s => switchBodyRule (grammar n) isExpr c s
      typeBody := fun track d c s => typeBodyRule (grammar n) track d c s
      typeRest := fun start mods doc c s => typeRestRule (grammar n) start mods doc c s }

/-- Enough steps for a number of tokens: between two tokens fewer than sixteen rules are entered. -/
def stepsFor (tokens : Nat) : Nat := 16 * (tokens + 4)

/-! ## Source files -/

def packageDecl (g : Grammar) : Parser PackageDecl := do
  let start ← startPos
  let annots ← annotsHere g
  expect_ .kwPackage
  let name ← qualifiedName
  expect_ .semicolon
  return ⟨← infoFrom start, annots, name⟩

def isAnnotatedPackage (g : Grammar) : Parser Bool := do
  andAlso (← check .at) (lookahead do
    let _ ← annotsHere g
    expect_ .kwPackage)

/-- The parts of an imported name and whether a star ends it. -/
def importParts (parts : List Ident) : Nat → Parser (List Ident × Bool)
  | 0 => throw .exhausted
  | fuel + 1 => do
    if !(← accept .dot) then return (parts, false)
    if ← accept .star then return (parts, true)
    let p ← ident
    importParts (parts ++ [p]) fuel

/-- An import up to its semicolon. -/
def importHeader : Parser ImportDecl := do
  let start ← startPos
  expect_ .kwImport
  let isStatic ← accept .kwStatic
  let nameStart ← startPos
  let first ← ident
  let (parts, onDemand) ← importParts [first] (← remaining)
  let name : QName := ⟨← infoFrom nameStart, parts⟩
  return ⟨← infoFrom start, isStatic, name, onDemand⟩

def importDecl : Parser ImportDecl := do
  let start ← startPos
  let d ← importHeader
  expect_ .semicolon
  let span ← spanFrom start
  return { d with info := d.info.withSpan span }

/-- Whether a module declaration starts here; only a module file, or text without a file, has one.
-/
def isModule (g : Grammar) : Parser Bool := do
  let possible := (← get).lexer.isModuleInfo || (← read).file.isEmpty
  andAlso possible (lookahead do
    let _ ← annotsHere g
    if ← checkWord "open" then discard advance
    if !(← checkWord "module") then fail "module"
    discard advance
    discard ident)

/-- The modifiers of a `requires` clause; a last `transitive` is the name of the module. -/
def requiresModifiers : Parser (List Text) := do
  let isModifier := do
    let isName := (← checkWord "transitive") && (← checkAt 1 .semicolon)
    return ((← checkWord "transitive") || (← check .kwStatic)) && !isName
  return (← manyWhile isModifier advance).map Token.literal

def moduleDirective : Parser ModuleDirective := do
  let start ← startPos
  let t ← peek
  let names := commaSeparated qualifiedName
  let (mods, name, targets) ←
    if t.isWord "requires" then
      discard advance
      let mods ← requiresModifiers
      pure (mods, ← qualifiedName, [])
    else if t.isWord "exports" || t.isWord "opens" then
      discard advance
      let name ← qualifiedName
      if ← checkWord "to" then
        discard advance
        pure ([], name, ← names)
      else pure ([], name, [])
    else if t.isWord "uses" then
      discard advance
      pure ([], ← qualifiedName, [])
    else if t.isWord "provides" then
      discard advance
      let name ← qualifiedName
      if !(← checkWord "with") then fail "with"
      discard advance
      pure ([], name, ← names)
    else fail "ModuleDirective"
  expect_ .semicolon
  return ⟨← infoFrom start, t.literal, mods, name, targets⟩

def moduleDecl (g : Grammar) : Parser ModuleDecl := do
  let start ← startPos
  let annots ← annotsHere g
  let isOpen ← checkWord "open"
  if isOpen then discard advance
  discard advance
  let name ← qualifiedName
  expect_ .lbrace
  let directives ← manyWhile (return !(← checkAny [.rbrace, .eof])) moduleDirective
  expect_ .rbrace
  return ⟨← infoFrom start, annots, isOpen, name, directives⟩

/-- A type declaration with its modifiers. -/
def typeDecl (g : Grammar) : Parser TypeDecl := do
  let start ← startPos
  let doc ← docBefore start.offset
  let mods ← modifiers g
  if !(← isTypeKeywordHere) then fail "class, interface, enum or record"
  g.typeRest start mods doc

/-- Imports and stray semicolons. -/
def importsFrom (u : CompilationUnit) : Nat → Parser CompilationUnit
  | 0 => throw .exhausted
  | fuel + 1 => do
    if !(← checkAny [.kwImport, .semicolon]) then return u
    let u ← if ← accept .semicolon then pure u
      else
        let d ← importDecl
        pure { u with imports := u.imports ++ [d] }
    noteChild (.unit u)
    importsFrom u fuel

/-- Types and stray semicolons, up to the end. -/
def typesFrom (g : Grammar) (u : CompilationUnit) : Nat → Parser CompilationUnit
  | 0 => throw .exhausted
  | fuel + 1 => do
    if ← check .eof then return u
    let u ← if ← accept .semicolon then pure u
      else
        let d ← typeDecl g
        pure { u with types := u.types ++ [d] }
    noteChild (.unit u)
    typesFrom g u fuel

/-- The span of a whole source. -/
def unitSpan : Parser Span := do
  let s ← get
  return ⟨.first, (s.token (s.tokens.size - 1)).span.stop⟩

/-- The package, the imports, the module and the types of a source file. -/
def unitParts (g : Grammar) (u : CompilationUnit) : Parser CompilationUnit := do
  let isPackage ← do
    if ← check .kwPackage then pure true else isAnnotatedPackage g
  let u ← if isPackage then
      let p ← packageDecl g
      let u := { u with package := some p }
      noteChild (.unit u)
      pure u
    else pure u
  let u ← importsFrom u (← remaining)
  let u ← if ← isModule g then
      let m ← moduleDecl g
      let u := { u with module := some m }
      noteChild (.unit u)
      pure u
    else pure u
  typesFrom g u (← remaining)

/-- A whole source file without syntax errors. -/
def unit (g : Grammar) (u : CompilationUnit) : Parser CompilationUnit := do
  openDraft (.unit u)
  let u ← unitParts g u
  let span ← unitSpan
  closeDraft (.unit u)
  return { u with info := u.info.withSpan span }

end Javelin.Parse
