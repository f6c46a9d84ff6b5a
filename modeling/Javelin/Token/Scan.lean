import Javelin.Token.Basic

/-!
# Where tokens end

`scan t level i` is the kind of the token that starts at offset `i` of a text, the offset behind it
and what is wrong with it. Every byte sequence has a token: what fits nothing else is an invalid
character.

1. White space and comments.
2. Words.
3. Numbers.
4. Character and string literals and their escape sequences.
5. Operators.
-/

namespace Javelin.Token

/-- The outcome of scanning at an offset. -/
structure Scanned where
  kind : Kind
  stop : Nat
  fault : Option Problem.Id := none
deriving Inhabited

/-! ## White space and comments -/

def isBlankByte (b : UInt8) : Bool :=
  b == ' ' || b == '\t' || b == '\r' || b == '\n' || b == 0x0c

def isLineEnd (b : UInt8) : Bool := b == '\n' || b == '\r'

def scanLineComment (t : Text) (i : Nat) : Scanned :=
  ⟨.lineComment, t.skipWhile (fun b => !isLineEnd b) (i + 2), none⟩

/-- A doc comment starts with two stars; the comment `/**/` does not. -/
def isDocStart (t : Text) (i : Nat) : Bool := t.at0 (i + 2) == '*' && t.at0 (i + 3) != '/'

def scanBlockComment (t : Text) (i : Nat) : Scanned :=
  match t.findTextFrom "*/" (i + 2) (t.size - i) with
  | some j => ⟨.blockComment, j + 2, none⟩
  | none => ⟨.blockComment, t.size, some .unterminatedComment⟩

/-! ## Words -/

/-- The end of the run of identifier characters at offset `i`. -/
def wordEnd (t : Text) (i : Nat) : Nat → Nat
  | 0 => i
  | fuel + 1 =>
    let (c, n) := t.decodeAt i
    if n == 0 || !Text.isLetterOrDigit c then i else wordEnd t (i + n) fuel

/-- Whether `-sealed` continues a word at offset `i`. -/
def sealedFollows (t : Text) (i : Nat) : Bool :=
  t.hasAt i "-sealed" &&
    (i + 7 == t.size || !Text.isLetterOrDigit (Char.ofNat (t.at0 (i + 7)).toNat))

def scanWord (t : Text) (level : Level) (i : Nat) : Scanned :=
  let stop := wordEnd t i (t.size - i)
  let word := t.slice i stop
  if word == "non" && sealedFollows t stop then ⟨.nonSealed, stop + 7, none⟩
  else
    ⟨kindOfWord word level, stop,
      if word == "_" && level.atLeast 9 then some .underscoreAsIdentifier else none⟩

/-! ## Numbers -/

/-- A run of digits and underscores. -/
structure DigitRun where
  stop : Nat
  /-- There is at least one digit. -/
  hasDigit : Bool
  /-- An underscore stands first or last. -/
  misplaced : Bool

def digitRun (t : Text) (isValid : UInt8 → Bool) (i : Nat) : DigitRun :=
  let stop := t.skipWhile (fun b => b == '_' || isValid b) i
  { stop
    hasDigit := (t.slice i stop).any isValid
    misplaced := i < stop && (t.at0 i == '_' || t.at0 (stop - 1) == '_') }

def isSign (b : UInt8) : Bool := b == '+' || b == '-'

def isLongSuffix (b : UInt8) : Bool := b == 'l' || b == 'L'

def isFloatSuffix (b : UInt8) : Bool := b == 'f' || b == 'F' || b == 'd' || b == 'D'

/-- The offset behind an optional byte. -/
def skipOne (t : Text) (p : UInt8 → Bool) (i : Nat) : Nat := if p (t.at0 i) then i + 1 else i

/-- Whether the point at offset `i` continues a decimal literal: `1.5`, `1.`, `1.e3` and `2.D` have
a fraction, `1.foo` has none. -/
def fractionFollows (t : Text) (i : Nat) : Bool :=
  let next := t.at0 (i + 1)
  if Text.isDigit next then true
  else if next == 'e' || next == 'E' then
    let c := t.at0 (i + 2)
    Text.isDigit (if isSign c then t.at0 (i + 3) else c)
  else if isFloatSuffix next then
    !Text.isLetterByte (t.at0 (i + 2)) && !Text.isDigit (t.at0 (i + 2))
  else !Text.isLetterByte next && next != '.'

/-- The fault of underscores, if `bad`, over an earlier fault. -/
def underscoreFault (bad : Bool) (earlier : Option Problem.Id) : Option Problem.Id :=
  if bad then some .invalidUnderscore else earlier

/-- The part of a decimal literal from its point or exponent on: its end, whether there is such a
part, and the fault. -/
def scanFraction (t : Text) (i : Nat) (fault : Option Problem.Id) :
    Nat × Bool × Option Problem.Id :=
  let (i, isFloat, fault) :=
    if t.at0 i == '.' && fractionFollows t i then
      let run := digitRun t Text.isDigit (i + 1)
      (run.stop, true, underscoreFault run.misplaced fault)
    else (i, false, fault)
  if t.at0 i == 'e' || t.at0 i == 'E' then
    let run := digitRun t Text.isDigit (skipOne t isSign (i + 1))
    (run.stop, true,
      if !run.hasDigit then some .invalidFloatLiteral else underscoreFault run.misplaced fault)
  else (i, isFloat, fault)

/-- Whether an integer literal that starts with a zero has digits that are not octal. -/
def hasBadOctal (literal : Text) : Bool :=
  literal.size > 1 && literal.at0 0 == '0' &&
    (literal.trimRight isLongSuffix).any fun b => b == '8' || b == '9'

def scanDecimal (t : Text) (start : Nat) : Scanned :=
  let whole := digitRun t Text.isDigit start
  let (i, isFloat, fault) := scanFraction t whole.stop (underscoreFault whole.misplaced none)
  let (i, isFloat) :=
    if isFloatSuffix (t.at0 i) then (i + 1, true)
    else if isLongSuffix (t.at0 i) && !isFloat then (i + 1, isFloat)
    else (i, isFloat)
  let kind := if isFloat then Kind.floatLiteral else .intLiteral
  let fault :=
    if fault.isNone && !isFloat && hasBadOctal (t.slice start i) then
      some Problem.Id.invalidOctalLiteral
    else fault
  if fault.isNone && Text.isLetterByte (t.at0 i) then
    -- letters directly behind a number belong to the same malformed token
    ⟨kind, t.skipWhile (fun b => Text.isLetterByte b || Text.isDigit b) i,
      some (if isFloat then .invalidFloatLiteral else .invalidCharacter)⟩
  else ⟨kind, i, fault⟩

def scanHex (t : Text) (start : Nat) : Scanned :=
  let whole := digitRun t Text.isHexDigit (start + 2)
  let fault := underscoreFault whole.misplaced none
  let (i, isFloat, hasDigit, fault) :=
    if t.at0 whole.stop == '.' then
      let run := digitRun t Text.isHexDigit (whole.stop + 1)
      (run.stop, true, whole.hasDigit || run.hasDigit, underscoreFault run.misplaced fault)
    else (whole.stop, false, whole.hasDigit, fault)
  let (i, isFloat, fault) :=
    if t.at0 i == 'p' || t.at0 i == 'P' then
      let run := digitRun t Text.isDigit (skipOne t isSign (i + 1))
      (run.stop, true, if run.hasDigit then fault else some Problem.Id.invalidFloatLiteral)
    else if isFloat then (i, true, some .invalidFloatLiteral)
    else (i, false, fault)
  let stop := skipOne t (if isFloat then isFloatSuffix else isLongSuffix) i
  ⟨if isFloat then .floatLiteral else .intLiteral, stop,
    if hasDigit then fault else some .invalidHexLiteral⟩

def isBinaryDigit (b : UInt8) : Bool := b == '0' || b == '1'

def scanBinary (t : Text) (start : Nat) : Scanned :=
  let run := digitRun t isBinaryDigit (start + 2)
  let fault := underscoreFault run.misplaced none
  let (i, fault) :=
    if Text.isDigit (t.at0 run.stop) then
      (t.skipWhile (fun b => Text.isDigit b || b == '_') run.stop,
        some Problem.Id.invalidBinaryLiteral)
    else (run.stop, fault)
  ⟨.intLiteral, skipOne t isLongSuffix i,
    if run.hasDigit then fault else some .invalidBinaryLiteral⟩

def scanNumber (t : Text) (i : Nat) : Scanned :=
  let next := t.at0 (i + 1)
  if t.at0 i == '0' && (next == 'x' || next == 'X') then scanHex t i
  else if t.at0 i == '0' && (next == 'b' || next == 'B') then scanBinary t i
  else scanDecimal t i

/-! ## Quoted literals -/

def isOctalDigit (b : UInt8) : Bool := '0' ≤ b && b ≤ '7'

/-- The end of a run of at most `n` bytes that satisfy `p`. -/
def skipAtMost (t : Text) (p : UInt8 → Bool) (i : Nat) : Nat → Nat
  | 0 => i
  | n + 1 => if p (t.at0 i) then skipAtMost t p (i + 1) n else i

/-- Whether a single letter or sign is an escape sequence by itself. -/
def isSimpleEscape (b : UInt8) : Bool :=
  b == 'b' || b == 't' || b == 'n' || b == 'f' || b == 'r' || b == 0x22 || b == 0x27 ||
    b == '\\' || b == 's'

/-- The end of the escape sequence whose backslash stands before offset `i`, and whether it is
valid. In a text block a line end may be escaped. -/
def escapeEnd (t : Text) (inBlock : Bool) (i : Nat) : Nat × Bool :=
  let b := t.at0 i
  if isSimpleEscape b then (i + 1, true)
  else if isOctalDigit b then (skipAtMost t isOctalDigit i (if b ≤ '3' then 3 else 2), true)
  else if b == 'u' then
    let j := t.skipWhile (· == 'u') i
    let k := skipAtMost t Text.isHexDigit j 4
    (k, k == j + 4)
  else if inBlock && b == '\n' then (i + 1, true)
  else if inBlock && b == '\r' then (skipOne t (· == '\n') (i + 1), true)
  else (if i < t.size && b != '\n' then i + 1 else i, false)

/-- The first fault wins. -/
def escapeFault (valid : Bool) (earlier : Option Problem.Id) : Option Problem.Id :=
  if !valid && earlier.isNone then some .invalidEscape else earlier

/-- The body of a character literal from offset `i`: its end, the number of characters in it and
the fault of an escape sequence. -/
def charBody (t : Text) (i count : Nat) (fault : Option Problem.Id) :
    Nat → Nat × Nat × Option Problem.Id
  | 0 => (i, count, fault)
  | fuel + 1 =>
    let b := t.at0 i
    if i < t.size && b != 0x27 && !isLineEnd b then
      if b == '\\' then
        let (j, valid) := escapeEnd t false (i + 1)
        charBody t j (count + 1) (escapeFault valid fault) fuel
      else charBody t (i + (t.decodeAt i).2) (count + 1) fault fuel
    else (i, count, fault)

def scanChar (t : Text) (start : Nat) : Scanned :=
  let (i, count, fault) := charBody t (start + 1) 0 none (t.size - start)
  if t.at0 i == 0x27 then
    ⟨.charLiteral, i + 1,
      if count == 0 then some .emptyCharLiteral
      else if count > 1 && fault.isNone then some .invalidCharLiteral
      else fault⟩
  else ⟨.charLiteral, i, some .unterminatedChar⟩

/-- The body of a string literal from offset `i`: its end and the fault of an escape sequence. -/
def stringBody (t : Text) (i : Nat) (fault : Option Problem.Id) :
    Nat → Nat × Option Problem.Id
  | 0 => (i, fault)
  | fuel + 1 =>
    let b := t.at0 i
    if i < t.size && b != 0x22 && !isLineEnd b then
      if b == '\\' then
        let (j, valid) := escapeEnd t false (i + 1)
        stringBody t j (escapeFault valid fault) fuel
      else stringBody t (i + 1) fault fuel
    else (i, fault)

def scanString (t : Text) (start : Nat) : Scanned :=
  let (i, fault) := stringBody t (start + 1) none (t.size - start)
  if t.at0 i == 0x22 then ⟨.stringLiteral, i + 1, fault⟩
  else ⟨.stringLiteral, i, some .unterminatedString⟩

/-- The body of a text block from offset `i` with its closing delimiter: the end, whether the block
is closed, and the fault. -/
def blockBody (t : Text) (i : Nat) (fault : Option Problem.Id) :
    Nat → Nat × Bool × Option Problem.Id
  | 0 => (i, false, fault)
  | fuel + 1 =>
    if i < t.size then
      if t.hasAt i "\"\"\"" then (i + 3, true, fault)
      else if t.at0 i == '\\' then
        let (j, valid) := escapeEnd t true (i + 1)
        blockBody t j (escapeFault valid fault) fuel
      else blockBody t (i + 1) fault fuel
    else (i, false, fault)

def scanTextBlock (t : Text) (level : Level) (start : Nat) : Scanned :=
  let i := t.skipWhile (fun b => b == ' ' || b == '\t' || b == 0x0c) (start + 3)
  -- the opening delimiter ends its line
  let fault := if isLineEnd (t.at0 i) then none else some Problem.Id.unterminatedTextBlock
  let (stop, closed, fault) := blockBody t i fault (t.size - i + 1)
  ⟨.textBlock, stop,
    if !closed then some .unterminatedTextBlock
    else if fault.isNone && !level.atLeast 15 then some .textBlockNotSupported
    else fault⟩

/-! ## Operators and the whole -/

def scanOperator (t : Text) (i : Nat) : Scanned :=
  match operators.find? fun k => t.hasAt i k.spelling with
  | some k => ⟨k, i + k.spelling.size, none⟩
  | none => ⟨.invalid, i + max 1 (t.decodeAt i).2, some .invalidCharacter⟩

/-- The token at offset `i`. -/
def scan (t : Text) (level : Level) (i : Nat) : Scanned :=
  if i ≥ t.size then ⟨.eof, i, none⟩
  else
    let b := t.at0 i
    let next := t.at0 (i + 1)
    if b == '/' && next == '/' then scanLineComment t i
    else if b == '/' && next == '*' then scanBlockComment t i
    else if isBlankByte b then ⟨.whitespace, t.skipWhile isBlankByte i, none⟩
    else if Text.isLetter (t.decodeAt i).1 then scanWord t level i
    else if Text.isDigit b || (b == '.' && Text.isDigit next) then scanNumber t i
    else if b == 0x27 then scanChar t i
    else if b == 0x22 then
      if next == 0x22 && t.at0 (i + 2) == 0x22 then scanTextBlock t level i else scanString t i
    else scanOperator t i

end Javelin.Token
