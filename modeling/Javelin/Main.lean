import Javelin.Command

/-!
# The command line

Reads the files that a command names, answers it and writes what it asks to be written.
-/

namespace Javelin

/-- A path as the system takes it. -/
def pathText (t : Text) : String := t.toString?.getD ""

def readSources (names : List Text) : IO (List SourceFile) :=
  names.mapM fun n => return ⟨n, ⟨← IO.FS.readBinFile (pathText n)⟩⟩

def writeFile (path contents : Text) : IO Unit := do
  IO.FS.createDirAll (pathText (Path.dir path))
  IO.FS.writeBinFile (pathText path) contents.bytes

/-- Shows an answer and gives the exit status. -/
def deliver (a : Command.Answer) : IO UInt32 := do
  (← IO.getStdout).write a.shown.bytes
  a.files.forM fun (path, contents) => writeFile path contents
  (← IO.getStderr).write a.messages.bytes
  return if a.isFailed then 1 else 0

end Javelin

open Javelin in
def main (args : List String) : IO UInt32 := do
  match Command.ofArgs (args.map Text.ofString) with
  | .error e => deliver (.failure e)
  | .ok (command, names) => deliver (command.run (← readSources names))
