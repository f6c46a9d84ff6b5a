import Std.Data.HashMap
import Std.Data.HashSet
import Javelin.Text.Basic
import Javelin.Types.World

/-!
# Source paths in memory

A tree of source files by path. A type is found in the file that is named after it; a directory that
ever held a file is a package.
-/

/-!
## Paths

Paths whose parts are divided by slashes. A clean path has no empty parts, no `.` and no `..` that
could be resolved; the empty path is `.`.
-/

namespace Javelin.Path

/-- Adds a part to the parts of a clean path, which stand in reverse order. -/
def step (isRooted : Bool) (parts : List Text) (p : Text) : List Text :=
  if p.isEmpty || p == "." then parts
  else if p == ".." then
    match parts with
    | q :: rest => if q == ".." then p :: parts else rest
    | [] => if isRooted then [] else [p]
  else p :: parts

/-- The clean form of a path. -/
def clean (t : Text) : Text :=
  let isRooted := t.startsWith "/"
  let body := Text.join "/" ((t.split '/').foldl (step isRooted) []).reverse
  if isRooted then "/" ++ body else if body.isEmpty then "." else body

/-- The clean path of the directory that holds a file. -/
def dir (t : Text) : Text :=
  match t.lastIdx? (· == '/') with
  | some i => clean (t.take (i + 1))
  | none => "."

/-- The last part of a path. -/
def base (t : Text) : Text :=
  if t.isEmpty then "."
  else
    let t := t.trimRight (· == '/')
    if t.isEmpty then "/"
    else
      match t.lastIdx? (· == '/') with
      | some i => t.drop (i + 1)
      | none => t

/-- The directories above a directory and itself, up to the root; at most `n` of them. -/
def upward : Nat → Text → List Text
  | 0, _ => []
  | n + 1, d => if d == "." || d == "/" then [] else d :: upward n (dir d)

end Javelin.Path

namespace Javelin

/-- Source files by their paths below the root. -/
structure SourceTree where
  files : Std.HashMap Text Text := {}
  packages : Std.HashSet Text := {}
deriving Inhabited

namespace SourceTree

/-- The form of a path under which a file is kept. -/
def keyOf (path : Text) : Text := (Path.clean path).dropStart "/"

/-- Adds a file in place of the one with its path. -/
def insert (t : SourceTree) (path contents : Text) : SourceTree :=
  let key := keyOf path
  { files := t.files.insert key contents
    packages := (Path.upward (key.size + 1) (Path.dir key)).foldl (·.insert ·) t.packages }

def erase (t : SourceTree) (path : Text) : SourceTree :=
  { t with files := t.files.erase (keyOf path) }

/-- The paths of the files in order. -/
def paths (t : SourceTree) : List Text := t.files.keys.mergeSort Text.le

def ofFiles (fs : List SourceFile) : SourceTree :=
  fs.foldl (fun t f => t.insert f.name f.contents) {}

/-- The file that declares a type. Member types have no files of their own. -/
def find? (t : SourceTree) (name : List Text) : Option SourceFile :=
  let path := Text.join "/" name
  if (Path.base path).any (· == '$') then none
  else
    let file := path ++ ".java"
    t.files[file]?.map fun c => ⟨file, c⟩

/-- The tree as a source of types. -/
def names (t : SourceTree) : NameSource where
  find? name := (t.find? name).map .source
  isPackage parent name := t.packages.contains (Text.join "/" (parent ++ [name]))

end SourceTree

namespace Library

/-- A source file from its lines. -/
def sourceOf (name : String) (lines : List String) : SourceFile :=
  ⟨name, Text.concat (lines.map fun l : String => Text.ofString l ++ "\n")⟩

end Library

/-- Class files by the names of their classes; a later one of a name counts. -/
structure ClassPath where
  classes : Std.HashMap Text ClassFile := {}
  /-- The directories of the names. -/
  packages : Std.HashSet Text := {}
deriving Inhabited

namespace ClassPath

/-- The proper beginnings of a name that end before a slash. -/
def packagesOf (name : Text) : List Text :=
  (List.range name.size).filterMap fun i => if name.at0 i == '/' then some (name.take i) else none

def insert (p : ClassPath) (f : ClassFile) : ClassPath :=
  { classes := p.classes.insert f.name f
    packages := (packagesOf f.name).foldl (·.insert ·) p.packages }

def ofClasses (fs : List ClassFile) : ClassPath := fs.foldl insert {}

/-- The classes as a source of types. -/
def names (p : ClassPath) : NameSource where
  find? name := p.classes[Text.join "/" name]?.map .binary
  isPackage parent name := p.packages.contains (Text.join "/" (parent ++ [name]))

end ClassPath

end Javelin
