import Javelin.Problem.Basic
import Javelin.Source.Level
import Std.Data.HashMap

/-!
# Tokens

A token is a piece of source with its kind. White space and comments are tokens too. A malformed
token keeps the text it covers and carries the identity of the problem found in it.
-/

namespace Javelin

/-- The kinds of tokens. -/
inductive Token.Kind where
  | eof
  | invalid
  | whitespace
  | blockComment
  | lineComment
  | identifier
  | intLiteral
  | floatLiteral
  | charLiteral
  | stringLiteral
  | textBlock
  | kwTrue
  | kwFalse
  | kwNull
  | kwAbstract
  | kwAssert
  | kwBoolean
  | kwBreak
  | kwByte
  | kwCase
  | kwCatch
  | kwChar
  | kwClass
  | kwConst
  | kwContinue
  | kwDefault
  | kwDo
  | kwDouble
  | kwElse
  | kwEnum
  | kwExtends
  | kwFinal
  | kwFinally
  | kwFloat
  | kwFor
  | kwGoto
  | kwIf
  | kwImplements
  | kwImport
  | kwInstanceof
  | kwInt
  | kwInterface
  | kwLong
  | kwNative
  | kwNew
  | kwPackage
  | kwPrivate
  | kwProtected
  | kwPublic
  | kwReturn
  | kwShort
  | kwStatic
  | kwStrictfp
  | kwSuper
  | kwSwitch
  | kwSynchronized
  | kwThis
  | kwThrow
  | kwThrows
  | kwTransient
  | kwTry
  | kwVoid
  | kwVolatile
  | kwWhile
  | nonSealed
  | lparen
  | rparen
  | lbrace
  | rbrace
  | lbracket
  | rbracket
  | semicolon
  | comma
  | dot
  | ellipsis
  | at
  | colonColon
  | assign
  | eqEq
  | notEq
  | less
  | lessEq
  | greater
  | greaterEq
  | andAnd
  | orOr
  | bang
  | amp
  | bar
  | caret
  | tilde
  | shiftLeft
  | shiftRight
  | shiftRightZero
  | plus
  | minus
  | star
  | slash
  | percent
  | increment
  | decrement
  | question
  | colon
  | arrow
  | plusAssign
  | minusAssign
  | starAssign
  | slashAssign
  | percentAssign
  | ampAssign
  | barAssign
  | caretAssign
  | shiftLeftAssign
  | shiftRightAssign
  | shiftRightZeroAssign
deriving DecidableEq, Hashable, Inhabited, Repr

/-- A lexical unit of a source. -/
structure Token where
  kind : Token.Kind
  span : Span
  literal : Text
  fault : Option Problem.Id := none
deriving DecidableEq, Inhabited

namespace Token

/-- The name of a kind: the spelling of a keyword or operator, a description of the others. -/
def Kind.name : Kind → String
  | .eof => "EOF"
  | .invalid => "Error"
  | .whitespace => "Whitespace"
  | .blockComment => "Comment"
  | .lineComment => "LineComment"
  | .identifier => "Identifier"
  | .intLiteral => "IntLiteral"
  | .floatLiteral => "FloatLiteral"
  | .charLiteral => "CharLiteral"
  | .stringLiteral => "StringLiteral"
  | .textBlock => "TextBlock"
  | .kwTrue => "true"
  | .kwFalse => "false"
  | .kwNull => "null"
  | .kwAbstract => "abstract"
  | .kwAssert => "assert"
  | .kwBoolean => "boolean"
  | .kwBreak => "break"
  | .kwByte => "byte"
  | .kwCase => "case"
  | .kwCatch => "catch"
  | .kwChar => "char"
  | .kwClass => "class"
  | .kwConst => "const"
  | .kwContinue => "continue"
  | .kwDefault => "default"
  | .kwDo => "do"
  | .kwDouble => "double"
  | .kwElse => "else"
  | .kwEnum => "enum"
  | .kwExtends => "extends"
  | .kwFinal => "final"
  | .kwFinally => "finally"
  | .kwFloat => "float"
  | .kwFor => "for"
  | .kwGoto => "goto"
  | .kwIf => "if"
  | .kwImplements => "implements"
  | .kwImport => "import"
  | .kwInstanceof => "instanceof"
  | .kwInt => "int"
  | .kwInterface => "interface"
  | .kwLong => "long"
  | .kwNative => "native"
  | .kwNew => "new"
  | .kwPackage => "package"
  | .kwPrivate => "private"
  | .kwProtected => "protected"
  | .kwPublic => "public"
  | .kwReturn => "return"
  | .kwShort => "short"
  | .kwStatic => "static"
  | .kwStrictfp => "strictfp"
  | .kwSuper => "super"
  | .kwSwitch => "switch"
  | .kwSynchronized => "synchronized"
  | .kwThis => "this"
  | .kwThrow => "throw"
  | .kwThrows => "throws"
  | .kwTransient => "transient"
  | .kwTry => "try"
  | .kwVoid => "void"
  | .kwVolatile => "volatile"
  | .kwWhile => "while"
  | .nonSealed => "non-sealed"
  | .lparen => "("
  | .rparen => ")"
  | .lbrace => "\x7b"
  | .rbrace => "\x7d"
  | .lbracket => "["
  | .rbracket => "]"
  | .semicolon => ";"
  | .comma => ","
  | .dot => "."
  | .ellipsis => "..."
  | .at => "@"
  | .colonColon => "::"
  | .assign => "="
  | .eqEq => "=="
  | .notEq => "!="
  | .less => "<"
  | .lessEq => "<="
  | .greater => ">"
  | .greaterEq => ">="
  | .andAnd => "&&"
  | .orOr => "||"
  | .bang => "!"
  | .amp => "&"
  | .bar => "|"
  | .caret => "^"
  | .tilde => "~"
  | .shiftLeft => "<<"
  | .shiftRight => ">>"
  | .shiftRightZero => ">>>"
  | .plus => "+"
  | .minus => "-"
  | .star => "*"
  | .slash => "/"
  | .percent => "%"
  | .increment => "++"
  | .decrement => "--"
  | .question => "?"
  | .colon => ":"
  | .arrow => "->"
  | .plusAssign => "+="
  | .minusAssign => "-="
  | .starAssign => "*="
  | .slashAssign => "/="
  | .percentAssign => "%="
  | .ampAssign => "&="
  | .barAssign => "|="
  | .caretAssign => "^="
  | .shiftLeftAssign => "<<="
  | .shiftRightAssign => ">>="
  | .shiftRightZeroAssign => ">>>="

/-- The reserved words. -/
def keywords : List Kind :=
  [
    .kwAbstract, .kwAssert, .kwBoolean, .kwBreak, .kwByte, .kwCase, .kwCatch, .kwChar, .kwClass,
    .kwConst, .kwContinue, .kwDefault, .kwDo, .kwDouble, .kwElse, .kwEnum, .kwExtends, .kwFinal,
    .kwFinally, .kwFloat, .kwFor, .kwGoto, .kwIf, .kwImplements, .kwImport, .kwInstanceof, .kwInt,
    .kwInterface, .kwLong, .kwNative, .kwNew, .kwPackage, .kwPrivate, .kwProtected, .kwPublic,
    .kwReturn, .kwShort, .kwStatic, .kwStrictfp, .kwSuper, .kwSwitch, .kwSynchronized, .kwThis,
    .kwThrow, .kwThrows, .kwTransient, .kwTry, .kwVoid, .kwVolatile, .kwWhile, .kwTrue, .kwFalse,
    .kwNull]

/-- The text a keyword or operator is spelled by. -/
def Kind.spelling (k : Kind) : Text := k.name

def keywordTable : Std.HashMap Text Kind :=
  Std.HashMap.ofList (keywords.map fun k => (k.spelling, k))

/-- The release that reserved a keyword, for those that were identifiers before. -/
def Kind.reservedSince : Kind → Int
  | .kwAssert => 4
  | .kwEnum => 5
  | _ => 0

/-- The kind of a word: a keyword that is reserved at the given level, or an identifier. -/
def kindOfWord (word : Text) (level : Level) : Kind :=
  match keywordTable[word]? with
  | some k => if k.reservedSince != 0 && !level.atLeast k.reservedSince then .identifier else k
  | none => .identifier

def isReserved (word : Text) (level : Level) : Bool := kindOfWord word level != .identifier

/-- Operators and separators; each stands before those whose spelling it begins with. -/
def operators : List Kind :=
  [
    .shiftRightZeroAssign, .shiftLeftAssign, .shiftRightAssign, .shiftRightZero, .ellipsis,
    .colonColon, .eqEq, .notEq, .lessEq, .greaterEq, .andAnd, .orOr, .shiftLeft, .shiftRight,
    .increment, .decrement, .arrow, .plusAssign, .minusAssign, .starAssign, .slashAssign,
    .percentAssign, .ampAssign, .barAssign, .caretAssign, .lparen, .rparen, .lbrace, .rbrace,
    .lbracket, .rbracket, .semicolon, .comma, .dot, .at, .assign, .less, .greater, .bang, .tilde,
    .question, .colon, .amp, .bar, .caret, .plus, .minus, .star, .slash, .percent]

/-- The kind and, unless it is empty, the text. -/
def render (t : Token) : Text :=
  if t.literal.isEmpty then t.kind.name else t.kind.name ++ "(" ++ t.literal ++ ")"

/-- Whether the token is an identifier spelled `w`; words with a meaning only in some places are
recognised by this. -/
def isWord (t : Token) (w : Text) : Bool := t.kind == .identifier && t.literal == w

end Token

end Javelin
