import Javelin.ClassFile.Summary
import Javelin.Compile.Run
import Javelin.Library.Platform
import Javelin.Problem.Excerpt
import Javelin.Syntax.Document

/-!
# Commands

What the command line asks for, and what each command shows and writes. The contents of the files
are given; nothing here reads or writes them.

1. `Command.ofArgs` reads a command line.
2. `Command.run` answers a command.
-/

namespace Javelin

/-- How class files are shown. -/
inductive DumpForm where
  | lines
  | document
deriving DecidableEq, Repr

/-- What a command line asks for. -/
inductive Command where
  /-- Compiles source files into class files below a directory. -/
  | compile (options : Compile.Options) (workers : Nat) (directory : Text)
  /-- Parses a source file; the tree is shown if `showsTree`. -/
  | parse (level : Level) (keepsComments showsTree : Bool)
  /-- Lists the tokens of a source file. -/
  | tokens
  /-- Shows a class file or the classes of a source file. -/
  | dump (form : DumpForm)

namespace Command

/-! ## Reading command lines -/

/-- A refusal of a command line. -/
abbrev Usage := Except Text

def refuse {α : Type} (e : Text) : Usage α := .error e

/-- Options and the operands between them. -/
structure Arguments where
  options : List (Text × Text) := []
  operands : List Text := []

/-- Options that take no value. -/
def switches : List Text := ["--check", "--proceed-on-error", "--no-warnings", "--comments"]

/-- Divides arguments into options and operands; `--` ends the options. -/
def divide : List Text → Usage Arguments
  | [] => return {}
  | [a] =>
    if switches.contains a then return ⟨[(a, {})], []⟩
    else if a == "--" then return {}
    else if a.startsWith "-" then refuse ("option needs a value: " ++ a)
    else return ⟨[], [a]⟩
  | a :: b :: rest => do
    if a == "--" then return ⟨[], b :: rest⟩
    if switches.contains a then
      let d ← divide (b :: rest)
      return { d with options := (a, {}) :: d.options }
    if a.startsWith "-" then
      let d ← divide rest
      return { d with options := (a, b) :: d.options }
    let d ← divide (b :: rest)
    return { d with operands := a :: d.operands }

namespace Arguments

def has (a : Arguments) (option : Text) : Bool := a.options.any (·.1 == option)

/-- The value of an option, of which the last counts. -/
def value? (a : Arguments) (option : Text) : Option Text :=
  (a.options.reverse.find? (·.1 == option)).map (·.2)

/-- Refuses options that a command does not have. -/
def only (a : Arguments) (known : List Text) : Usage Unit :=
  match a.options.find? fun o => !known.contains o.1 with
  | some o => refuse ("unknown option: " ++ o.1)
  | none => return

def count (a : Arguments) (option : Text) (default : Nat) : Usage Nat :=
  match a.value? option with
  | none => return default
  | some t =>
    match Level.integer? t with
    | some n => if n < 0 then refuse (option ++ " needs a count") else return n.toNat
    | none => refuse (option ++ " needs a count")

def level (a : Arguments) : Usage Level :=
  match a.value? "--source" with
  | none => return .latest
  | some t => Level.parse t

/-- The only operand. -/
def single (a : Arguments) : Usage (List Text) :=
  match a.operands with
  | [file] => return [file]
  | _ => refuse "one file expected"

end Arguments

/-- Reads a command line: the command and the files that it works on. -/
def ofArgs : List Text → Usage (Command × List Text)
  | [] => refuse "command expected: compile, parse, tokens or dump"
  | name :: rest => do
    let a ← divide rest
    match name.toString?.getD "" with
    | "compile" =>
      a.only ["-d", "-j", "--source", "--max-errors", "--no-warnings", "--check",
        "--proceed-on-error"]
      if a.operands.isEmpty then refuse "source files expected"
      let options : Compile.Options :=
        { level := ← a.level, keepsWarnings := !a.has "--no-warnings"
          maxErrors := ← a.count "--max-errors" 100
          proceedsOnError := a.has "--proceed-on-error", checksOnly := a.has "--check" }
      return (.compile options (← a.count "-j" 1) ((a.value? "-d").getD "classes"), a.operands)
    | "parse" =>
      a.only ["-f", "--source", "--comments"]
      let showsTree ← match a.value? "-f" with
        | none => pure true
        | some f =>
          if f == "json" then pure true
          else if f == "problems" then pure false
          else refuse ("unknown format: " ++ f)
      return (.parse (← a.level) (a.has "--comments") showsTree, ← a.single)
    | "tokens" =>
      a.only []
      return (.tokens, ← a.single)
    | "dump" =>
      a.only ["-f"]
      let form ← match a.value? "-f" with
        | none => pure DumpForm.lines
        | some f =>
          if f == "line" then pure DumpForm.lines
          else if f == "json" then pure DumpForm.document
          else refuse ("unknown format: " ++ f)
      return (.dump form, ← a.single)
    | _ => refuse ("unknown command: " ++ name)

/-! ## Answers -/

/-- What a command shows and writes. -/
structure Answer where
  shown : Text := {}
  messages : Text := {}
  /-- The files to write, by path. -/
  files : List (Text × Text) := []
  isFailed : Bool := false

def Answer.failure (message : Text) : Answer := { messages := message ++ "\n", isFailed := true }

/-- The sources of problems. -/
def sourceIn (files : List SourceFile) (name : Text) : Option Text :=
  (files.find? (·.name == name)).map (·.contents)

def unitMessages (files : List SourceFile) (r : Compile.UnitResult) : Text :=
  let abort : Text := match r.abort with
    | some a => r.file ++ ": compilation aborted: " ++ a.reason ++ "\n"
    | none => {}
  let fault : Text := match r.fault with
    | some e => r.file ++ ": " ++ e ++ "\n"
    | none => {}
  Problem.listing (sourceIn files) r.problems ++ abort ++ fault

def summaryLine (s : Compile.Summary) : Text :=
  let counted (n : Nat) (what : String) : Text := Text.ofNat n ++ " " ++ what
  let parts := [counted s.units "units", counted s.classes "classes", counted s.errors "errors",
    counted s.warnings "warnings"]
  let more := if s.aborted > 0 || s.cancelled > 0 then
    [counted s.aborted "aborted", counted s.cancelled "cancelled"] else []
  Text.join ", " (parts ++ more) ++ "\n"

def compileFiles (options : Compile.Options) (workers : Nat) (directory : Text)
    (files : List SourceFile) : Answer :=
  let r := Compile.compileShared options Library.platform.names files workers
  let s := Compile.Summary.ofResults r.results
  { messages := Text.concat (r.results.map (unitMessages files)) ++ summaryLine s
    files := r.store.names.filterMap fun n =>
      r.store.classes[n]?.map fun b => (directory ++ "/" ++ n ++ ".class", b)
    isFailed := s.errors > 0 || s.aborted > 0 || s.cancelled > 0 }

def parseFile (level : Level) (keepsComments showsTree : Bool) (f : SourceFile) : Answer :=
  let r := Parse.unitOf f.contents { file := f.name, level, keepComments := keepsComments }
  let tree : Text :=
    if showsTree then ((Node.unit r.tree).documentAt (r.nextId + 1)).render ++ "\n" else {}
  { shown := tree
    messages := Problem.listing (sourceIn [f]) (Problem.Collector.reportAll {} r.problems).toList
    isFailed := r.errorCount > 0 }

/-- A token on a line of its own, behind its place. -/
def tokenLine (t : Token) : Text :=
  let place := Text.ofNat t.span.start.line ++ ":" ++ Text.ofNat t.span.start.column
  let fault : Text := match t.fault with
    | some id => "\terror " ++ Text.ofInt id.number
    | none => {}
  place ++ "\t" ++ t.render ++ fault ++ "\n"

def listTokens (f : SourceFile) : Answer :=
  let ts := (Lexer.new f.contents f.name .latest).run.1
  { shown := Text.concat ((ts.toList.filter (·.kind != .eof)).map tokenLine) }

def dumpClass (form : DumpForm) (c : ClassFile) : Usage Text :=
  match form with
  | .lines => return c.lines
  | .document =>
    match c.document with
    | .ok d => return d.render ++ "\n"
    | .error e => refuse ("encode json: " ++ e.message)

/-- The classes of a source file, also of one with errors. -/
def classesOf (f : SourceFile) : Text × Usage (List ClassFile) :=
  let r := Compile.compile { proceedsOnError := true } Library.platform.names {} [f]
  let parsed : Usage (List ClassFile) := do
    for u in r.results do
      if let some e := u.fault then refuse ("compile " ++ f.name ++ ": " ++ e)
    (r.store.names.filterMap (r.store.classes[·]?)).mapM fun b =>
      (ClassFile.ofBytes b).mapError fun e => "parse generated class: " ++ e.message
  (Text.concat (r.results.map fun u => Problem.listing (sourceIn [f]) u.problems), parsed)

def dumpFile (form : DumpForm) (f : SourceFile) : Answer :=
  let (messages, classes) : Text × Usage (List ClassFile) :=
    if f.name.endsWith ".class" then
      ({}, match ClassFile.ofBytes f.contents with
        | .ok c => .ok [c]
        | .error e => refuse ("parse class file: " ++ e.message))
    else if f.name.endsWith ".java" then classesOf f
    else ({}, refuse ("unsupported file: " ++ f.name ++ " (expected .class or .java)"))
  match classes.bind fun cs => cs.mapM (dumpClass form) with
  | .ok ts => { shown := Text.concat ts, messages }
  | .error e => { messages := messages ++ e ++ "\n", isFailed := true }

/-- Answers a command about the given files. -/
def run (c : Command) (files : List SourceFile) : Answer :=
  match c, files with
  | .compile options workers directory, files => compileFiles options workers directory files
  | .parse level keepsComments showsTree, [f] => parseFile level keepsComments showsTree f
  | .tokens, [f] => listTokens f
  | .dump form, [f] => dumpFile form f
  | _, _ => .failure "one file expected"

end Command

end Javelin
