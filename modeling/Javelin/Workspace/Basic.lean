import Javelin.Compile.Run
import Javelin.Library.Platform

/-!
# Workspaces

The source files that are being edited. They find each other by the packages that they declare,
wherever they are kept.
-/

namespace Javelin

/-- A file of a workspace, with its path by package. -/
structure Workspace.File where
  key : Text
  contents : Text
deriving Inhabited

structure Workspace where
  files : Std.HashMap Text Workspace.File := {}
  sources : SourceTree := {}
  library : NameSource := .empty
  options : Compile.Options := {}
deriving Inhabited

namespace Workspace

/-- Where a file stands on the source path: its own name below the directories of its package. -/
def keyOf (path contents : Text) : Text :=
  let name := Path.base path
  let package := (Parse.unitOf contents { file := name }).tree.packageName
  if package.isEmpty then name else package.replace "." "/" ++ "/" ++ name

/-- Adds a file, or replaces what it holds. -/
def update (w : Workspace) (path contents : Text) : Workspace :=
  let key := keyOf path contents
  let sources := match w.files[path]? with
    | some old => if old.key == key then w.sources else w.sources.erase old.key
    | none => w.sources
  { w with files := w.files.insert path ⟨key, contents⟩, sources := sources.insert key contents }

def erase (w : Workspace) (path : Text) : Workspace :=
  match w.files[path]? with
  | some f => { w with files := w.files.erase path, sources := w.sources.erase f.key }
  | none => w

/-- The paths of all files in order. -/
def paths (w : Workspace) : List Text := w.files.keys.mergeSort Text.le

/-- The files of the given paths, as far as there are any; of no paths, all files. -/
def units (w : Workspace) (paths : List Text) : List SourceFile :=
  (if paths.isEmpty then w.paths else paths).filterMap fun p =>
    w.files[p]?.map fun f => ⟨p, f.contents⟩

/-- The types that the files can refer to. -/
def names (w : Workspace) : NameSource :=
  .chain [w.sources.names, w.library, Library.platform.names]

/-- Checks files without generating classes; the problems of each. -/
def check (w : Workspace) (paths : List Text) : List (Text × List Problem) :=
  let o := { w.options with checksOnly := true }
  (Compile.compile o w.names {} (w.units paths)).results.map fun r => (r.file, r.problems)

end Workspace

end Javelin
