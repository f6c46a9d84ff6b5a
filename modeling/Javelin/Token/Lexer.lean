import Javelin.Token.Scan
import Javelin.Source.Escape

/-!
# Lexers

A lexer walks over a source and hands out its tokens one after the other, white space and comments
included. It works on the text after the replacement of Unicode escapes; the spans it hands out
refer to the source as written. Comments are also recorded in a table, from which they can be taken
once, in order.
-/

namespace Javelin

/-- The three forms of comments. -/
inductive Comment.Kind where
  | line
  | block
  | doc
deriving DecidableEq, Inhabited, Repr

/-- A comment of a source. -/
structure Comment where
  kind : Comment.Kind
  span : Span
  text : Text
deriving DecidableEq, Inhabited

namespace Comment

/-- A comment by its offsets in the source as written. -/
structure Entry where
  kind : Kind
  start : Nat
  stop : Nat
  text : Text
deriving DecidableEq, Inhabited

/-- The table form of the start: negative, less one, for a line comment. -/
def Entry.signedStart (e : Entry) : Int :=
  if e.kind == .line then -((e.start : Int) + 1) else e.start

/-- The table form of the end: negative for a doc comment. -/
def Entry.signedStop (e : Entry) : Int :=
  if e.kind == .doc then -(e.stop : Int) else e.stop

end Comment

/-- The state of a lexer. -/
structure Lexer where
  file : Text
  level : Level
  /-- The source as written. -/
  source : Text
  /-- The source after the replacement of escapes. -/
  input : Source.Translated
  /-- The lines of the source as written; used only when there were escapes. -/
  lines : LineIndex
  /-- The place in the replaced text. -/
  cursor : Position
  comments : Array Comment.Entry
  /-- How many comments were taken. -/
  taken : Nat
deriving Inhabited

namespace Lexer

def new (source file : Text) (level : Level) : Lexer :=
  let input := Source.translate source
  { file, level, source, input
    lines := if input.offsets.isSome then .ofText source else ⟨#[0]⟩
    cursor := .first, comments := #[], taken := 0 }

/-- Whether the file holds a module declaration, by its name. -/
def isModuleInfo (l : Lexer) : Bool := l.file.endsWith "module-info.java"

/-- The offset in the source as written; offsets past the end go to the end. -/
def sourceOffset (l : Lexer) (o : Nat) : Nat :=
  match l.input.offsets with
  | none => o
  | some table => table.getD (min o (table.size - 1)) 0

/-- The position in the source as written for a cursor position. -/
def sourcePosition (l : Lexer) (p : Position) : Position :=
  match l.input.offsets with
  | none => p
  | some _ => l.lines.position (l.sourceOffset p.offset)

/-- The position of the cursor in the source as written. -/
def position (l : Lexer) : Position := l.sourcePosition l.cursor

/-- The table entry of a comment token that covers the given offsets of the replaced text. -/
def commentEntry? (l : Lexer) (kind : Token.Kind) (start stop : Nat) (text : Text) :
    Option Comment.Entry :=
  let entry (k : Comment.Kind) : Comment.Entry :=
    ⟨k, l.sourceOffset start, l.sourceOffset stop, text⟩
  match kind with
  | .lineComment => some (entry .line)
  | .blockComment => some (entry (if Token.isDocStart l.input.text start then .doc else .block))
  | _ => none

/-- The next token. At the end of the source it is the end token, again and again. -/
def next (l : Lexer) : Token × Lexer :=
  let start := l.cursor
  let found := Token.scan l.input.text l.level start.offset
  let stop := Position.advance l.input.text start (found.stop - start.offset)
  let literal := l.input.text.slice start.offset found.stop
  let token : Token :=
    { kind := found.kind, span := ⟨l.sourcePosition start, l.sourcePosition stop⟩, literal
      fault := found.fault }
  let comments :=
    match l.commentEntry? found.kind start.offset found.stop literal with
    | some e => l.comments.push e
    | none => l.comments
  (token, { l with cursor := stop, comments })

/-- A recorded comment with its positions. -/
def comment (l : Lexer) (e : Comment.Entry) : Comment :=
  ⟨e.kind, ⟨.scan l.source e.start, .scan l.source e.stop⟩, e.text⟩

/-- Every comment met so far. -/
def allComments (l : Lexer) : List Comment := l.comments.toList.map l.comment

/-- The recorded comments from index `i` on, among the next `n`, up to the first that ends behind
`offset`. -/
def readyComments (l : Lexer) (offset : Int) (i : Nat) : Nat → List Comment.Entry
  | 0 => []
  | n + 1 =>
    match l.comments[i]? with
    | some e => if (e.stop : Int) ≤ offset then e :: readyComments l offset (i + 1) n else []
    | none => []

/-- Takes the comments not yet taken that end at or before `offset`. -/
def takeComments (l : Lexer) (offset : Int) : List Comment × Lexer :=
  let ready := l.readyComments offset l.taken (l.comments.size - l.taken)
  (ready.map l.comment, { l with taken := l.taken + ready.length })

/-- All tokens up to and with the end token, at most `fuel` of them. -/
def runFor (l : Lexer) (acc : Array Token) : Nat → Array Token × Lexer
  | 0 => (acc, l)
  | fuel + 1 =>
    let (t, l) := l.next
    if t.kind == .eof then (acc.push t, l) else runFor l (acc.push t) fuel

/-- All remaining tokens. Every token but the last takes at least one byte. -/
def run (l : Lexer) : Array Token × Lexer :=
  l.runFor #[] (l.input.text.size - l.cursor.offset + 1)

/-- White space and comments mean nothing to the grammar unless they are malformed. -/
def isTrivia (t : Token) : Bool :=
  (t.kind == .whitespace || t.kind == .blockComment || t.kind == .lineComment) && t.fault.isNone

/-- The remaining tokens that matter to the grammar. -/
def tokens (l : Lexer) : Array Token × Lexer :=
  let (ts, l) := l.run
  (ts.filter fun t => !isTrivia t, l)

end Lexer

end Javelin
