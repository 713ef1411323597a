import CellScript.Path

/-! Files as a program meets them, and a directory tree held in memory. -/
namespace CellScript

inductive FileEntry where
  | file (content : Text)
  | directory
  | absent
  /-- Something on the way is no directory. -/
  | blocked
  /-- No path: a NUL ends every name that is handed to the system. -/
  | misnamed
  | nameTooLong
  /-- There is a file, but it may not be read. -/
  | denied
deriving DecidableEq, Repr

namespace FileEntry

/-- Why nothing can be opened there. -/
def openCause? : FileEntry → Option String
  | file _ | directory => none
  | absent => some "no such file or directory"
  | blocked => some "not a directory"
  | misnamed => some "invalid argument"
  | nameTooLong => some "file name too long"
  | denied => some "permission denied"

def pathLimit : Nat := 4095

def nameLimit : Nat := 255

/-- What is known of a path before anything is looked up. -/
def ofPath? (path : Text) : Option FileEntry :=
  if path.contains 0 then some .misnamed
  else if path.isEmpty then some .absent
  else if path.length > pathLimit then some .nameTooLong
  else none

end FileEntry

/-- The part of the world that the toolchain asks about files. -/
structure FileAccess (m : Type → Type) where
  /-- The working directory. -/
  cwd : Text
  /-- What a path leads to, seen from the working directory. -/
  entry : Text → m FileEntry

/-- A directory tree: the files by the names that lead to them from the root, and directories. -/
structure FileTree where
  files : List (List Text × Text)
  directories : List (List Text)

namespace FileTree

/-- The names of a path, the empty ones dropped. -/
def namesOf (path : Text) : List Text := (path.splitOn Path.slash).filter (!·.isEmpty)

/-- Whether the names lead to a directory; everything that lies above something is one. -/
def isDirectory (t : FileTree) (names : List Text) : Bool :=
  names.isEmpty || t.directories.any (names.isPrefixOf ·) ||
    t.files.any fun f => names.isPrefixOf f.1 && names != f.1

/-- Follows names from a directory. -/
def walk (t : FileTree) : (dir : List Text) → (names : List Text) → FileEntry
  | _, [] => .directory
  | dir, name :: rest =>
    if name = Path.here then walk t dir rest
    else if name = Path.up then walk t dir.dropLast rest
    else if name.length > FileEntry.nameLimit then .nameTooLong
    else
      let next := dir ++ [name]
      match t.files.lookup next with
      | some content => if rest.isEmpty then .file content else .blocked
      | none => if t.isDirectory next then walk t next rest else .absent

/-- What a path leads to. One that ends in a slash has to lead to a directory. -/
def entry (t : FileTree) (cwd path : Text) : FileEntry :=
  (FileEntry.ofPath? path).getD <|
    let whole := if Path.isAbsolute path then path else cwd ++ Path.slash :: path
    match t.walk [] (namesOf whole) with
    | .file content => if path.getLast? = some Path.slash then .blocked else .file content
    | e => e

def access (t : FileTree) (cwd : Text) : FileAccess Id := ⟨cwd, fun p => t.entry cwd p⟩

end FileTree

end CellScript
