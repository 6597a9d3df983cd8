import InlineCil.Text.Segments

/-!
# File trees

A tree of files below one root, and the file that a path leads to. A path is
walked part by part: a point stays, two points go up, and a name goes down into a
directory. The parts actually entered are the canonical path, the same for every
path to one file.

The root lies somewhere in a larger tree that is not known. A path that leaves
the root, and every absolute path, is walked outside, where nothing is found but
the outermost root; of the way from there to the root only its length in bytes is
known, which counts towards the greatest length that a path may have.

Refusals are told as the operating system tells them. A path that leads nowhere
is refused for its length first, one that leads somewhere never is: it is opened
by its canonical path. There are no links, and files are not written while paths
are walked.
-/

namespace InlineCil

/-- Files by the parts of their canonical paths, with their contents, and the
directories below the root. `rootBytes` counts the bytes of the path of the root
itself and of the slash after it. -/
structure FileTree where
  files : List (List String × String) := []
  directories : List (List String) := []
  rootBytes : Nat := 32
  deriving Repr

/-- What a path leads to. -/
inductive FileTree.Entry where
  | file (content : String)
  | directory
  deriving DecidableEq, Repr

/-- Why a path leads nowhere. -/
inductive FileTree.Refusal where
  | missing | notDirectory | isDirectory | tooLong | nulInside
  deriving DecidableEq, Repr

/-- What a refusal says. -/
def FileTree.Refusal.message : FileTree.Refusal → String
  | .missing => "No such file or directory (os error 2)"
  | .notDirectory => "Not a directory (os error 20)"
  | .isDirectory => "No such device (os error 19)"
  | .tooLong => "File name too long (os error 36)"
  | .nulInside => "file name contained an unexpected NUL byte"

/-- Where one part of a path goes. -/
inductive FileTree.Move where
  | stay
  | up
  | down (name : String)
  deriving DecidableEq, Repr

namespace FileTree

/-- The parts of a path between its slashes. -/
def parts (path : String) : List String :=
  (Text.segments (· = '/') path.toList).map String.ofList

/-- Nothing and a point stay, two points go up. -/
def Move.ofPart (part : String) : Move :=
  if part = "" || part = "." then .stay else if part = ".." then .up else .down part

/-- The canonical path after a move. -/
def Move.apply (here : List String) : Move → List String
  | .stay => here
  | .up => here.dropLast
  | .down name => here ++ [name]

/-- The canonical paths on the way along the parts of a path, its start and its end
    among them. Every name on the way is taken for a directory. -/
def stations (here : List String) : List String → List (List String)
  | [] => [here]
  | part :: rest => here :: stations ((Move.ofPart part).apply here) rest

/-- Add a file, and the directories on the way to it. The file takes the place of an
    earlier one at the same canonical path. -/
def add (t : FileTree) (path content : String) : FileTree :=
  let way := stations [] (parts path)
  { t with
    files := (way.getLastD [], content) :: t.files
    directories := way.dropLast ++ t.directories }

/-- What lies at a canonical path. -/
def entry? (t : FileTree) (path : List String) : Option Entry :=
  match t.files.lookup path with
  | some content => some (.file content)
  | none => if path.isEmpty || t.directories.contains path then some .directory else none

/-- Bytes that the name of a file may have. -/
def longestName : Nat := 255

/-- Bytes that a whole path may have, from the outermost root on. -/
def longestPath : Nat := 4095

/-- Where parts lead outside the tree. There only the outermost root is known,
and it is its own parent, so that the first name decides. -/
def walkOutside (parts : List String) : Except Refusal (List String × Entry) :=
  match parts.find? fun part => Move.ofPart part = .down part with
  | some name => .error (if longestName < name.utf8ByteSize then .tooLong else .missing)
  | none => .ok (["", ""], .directory)

/-- Walk on from a canonical path along the parts of a path. Only a directory can
be left or gone on from, also by a part that stays, and who leaves the root is
outside. -/
def walk (t : FileTree) (here : List String) : List String →
    Except Refusal (List String × Entry)
  | [] =>
      match t.entry? here with
      | some entry => .ok (here, entry)
      | none => .error .missing
  | part :: rest =>
      match t.entry? here with
      | none => .error .missing
      | some (.file _) => .error .notDirectory
      | some .directory =>
          match Move.ofPart part with
          | .stay => t.walk here rest
          | .up => if here.isEmpty then walkOutside rest else t.walk here.dropLast rest
          | .down name =>
              if longestName < name.utf8ByteSize then .error .tooLong
              else t.walk (here ++ [name]) rest

/-- The path starts at the outermost root. -/
def isAbsolute (path : String) : Bool := path.toList.head? = some '/'

/-- The path has too many bytes to be opened as it was given. -/
def isTooLong (t : FileTree) (path : String) : Bool :=
  longestPath < (if isAbsolute path then 0 else t.rootBytes) + path.utf8ByteSize

/-- What a path leads to, with its canonical path. A path that leads somewhere is
opened by its canonical path and may be of any length. One that leads nowhere is
opened as it was given, so that its length is told first. -/
def find (t : FileTree) (path : String) : Except Refusal (List String × Entry) :=
  if path.toList.contains '\x00' then .error .nulInside
  else
    match if isAbsolute path then walkOutside (parts path) else t.walk [] (parts path) with
    | .ok found => .ok found
    | .error refusal => .error (if t.isTooLong path then .tooLong else refusal)

/-- The path leads to a file and is short enough to ask for it. -/
def isFile (t : FileTree) (path : String) : Bool :=
  !t.isTooLong path &&
    match t.find path with
    | .ok (_, .file _) => true
    | _ => false

/-- A canonical path as text. -/
def pathText (path : List String) : String := String.intercalate "/" path

/-- A path as it was given. A path below the root loses what stays at its
beginning and at its end. -/
def givenText (path : String) : String :=
  let stays := fun part : String => Move.ofPart part = .stay
  if isAbsolute path then path
  else pathText ((((parts path).dropWhile stays).reverse.dropWhile stays).reverse)

/-- A file of a directory. -/
def join (directory file : String) : String :=
  if isAbsolute file then file
  else if directory.isEmpty || directory.toList.getLast? = some '/' then directory ++ file
  else directory ++ "/" ++ file

end FileTree

end InlineCil
