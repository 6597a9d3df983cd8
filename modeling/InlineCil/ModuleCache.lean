import InlineCil.Definition
import InlineCil.Failure
import InlineCil.FileTree

/-!
# Loading modules

Modules are read from files by a reader that the host supplies. A file is read
once: the module is kept under the canonical path of its file, so another path to
the same file finds it again.

The reader is a parameter and may do anything with the content of a file. It is
asked for files that have content and are not kept yet, and how often it was
asked is counted. When it fails nothing is kept, so the next request for the file
asks it again; its failure is reported for the canonical path, unless it already
names a path of its own.

Before the reader there are the failures of the path itself. One that leads
nowhere is reported as it was given, and a directory by its canonical path.
-/

namespace InlineCil

/-- Turn the content of a file into a module. The path is the canonical one. -/
abbrev ModuleReader := String → String → Except Failure Module

/-- The modules read so far. `reads` counts how often the reader has run. -/
structure ModuleCache where
  tree : FileTree
  reader : ModuleReader
  modules : List (List String × Module) := []
  reads : Nat := 0

namespace ModuleCache

/-- How a failure of the reader is reported for the file. -/
def wrapped (path : String) : Failure → Failure
  | .moduleLoad inner message => .moduleLoad inner message
  | failure => .moduleLoad path failure.message

/-- Read a file that is not kept yet. An empty file is not given to the reader. -/
def read (c : ModuleCache) (path : List String) (content : String) :
    Except Failure Module × ModuleCache :=
  let name := FileTree.pathText path
  if content.isEmpty then (.error (.moduleLoad name "file is empty"), c)
  else
    let counted := { c with reads := c.reads + 1 }
    match c.reader name content with
    | .ok module => (.ok module, { counted with modules := c.modules ++ [(path, module)] })
    | .error failure => (.error (wrapped name failure), counted)

/-- Load the module at a path. -/
def load (c : ModuleCache) (path : String) : Except Failure Module × ModuleCache :=
  match c.tree.find path with
  | .error refusal =>
      (.error (.moduleLoad (FileTree.givenText path) refusal.message), c)
  | .ok (canonical, .directory) =>
      (.error (.moduleLoad (FileTree.pathText canonical) FileTree.Refusal.isDirectory.message),
        c)
  | .ok (canonical, .file content) =>
      match c.modules.lookup canonical with
      | some module => (.ok module, c)
      | none => c.read canonical content

end ModuleCache

end InlineCil
