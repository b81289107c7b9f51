import LoxLexer.File.Access

/-!
# A directory held in memory

A directory is given by its files, each under the names of the directories that lead to it and its
own name. A path is followed from this directory, or from the root of the file system if it starts
with a slash, name by name: an empty name or a single dot stays, two dots go up, and any other name
goes down to a file or a directory. A path or a name that is too long is refused: the path before
the first step, the name when its turn comes.

Of what lies outside, two devices below the root are known, the one that is always empty and the one
that holds the standard input. Above the directory no name is found.

Results:
* `Directory.ofFiles` — the directory with files of given paths.
* `Directory.access` — what comes of asking for the file a path leads to.
-/

namespace LoxLexer

/-- A name in a directory. -/
abbrev Name := List Char

/-- The bytes of a name. -/
def Name.byteLength (name : Name) : Nat := (String.ofList name).utf8ByteSize

/-- The most bytes that a name may have. -/
def longestName : Nat := 255

/-- The most bytes that a path may have. -/
def longestPath : Nat := 4095

/-- Files with the names that lead to them, from the top down. -/
abbrev Tree := List (List Name × ByteArray)

/-- A directory's files, and the files known below the root of the file system. -/
structure Directory where
  files : Tree
  system : Tree

/-- Where names are counted from. -/
inductive Base where
  | working
  | root
  /-- Somewhere above the working directory. -/
  | above
deriving DecidableEq

/-- Where a path is counted from. -/
def Base.ofPath (path : String) : Base := if path.toList.head? = some '/' then .root else .working

/-- Where a path has led to. -/
inductive Place where
  | file (bytes : ByteArray)
  | directory (base : Base) (names : List Name)

/-- The directory above one; the root is above itself. -/
def Place.parent : Base → List Name → Place
  | .working, [] => .directory .above []
  | base, names => .directory base names.dropLast

/-- What comes of asking for the file that a walk has come to. -/
def Access.ofWalk : Except Access Place → Access
  | .error result => result
  | .ok (.file bytes) => .contents bytes
  | .ok (.directory _ _) => .failed .isADirectory

/-- The names in a path, those between two slashes and at the ends included when they are empty. -/
def pathNames (path : String) : List Name := path.toList.splitOn '/'

namespace Directory

/-- The directory that holds files under these paths, on a machine with this standard input. -/
def ofFiles (files : List (String × ByteArray)) (stdin : ByteArray) : Directory where
  files := files.map fun (path, bytes) => (pathNames path, bytes)
  system := [(pathNames "dev/null", .empty), (pathNames "dev/stdin", stdin)]

/-- The files below a base. -/
def tree (d : Directory) : Base → Tree
  | .working => d.files
  | .root => d.system
  | .above => []

/-- What is found under these names. -/
def find? (d : Directory) (base : Base) (names : List Name) : Option Place :=
  match (d.tree base).lookup names with
  | some bytes => some (.file bytes)
  | none =>
    if (d.tree base).any (fun f => names.isPrefixOf f.1) then some (.directory base names) else none

/-- Goes from a place to a name in it. A plain file has no names, not even its own dot. -/
def enter (d : Directory) : Place → Name → Except Access Place
  | .file _, _ => .error (.failed .notADirectory)
  | .directory base names, name =>
    if name = [] ∨ name = ['.'] then .ok (.directory base names)
    else if name = ['.', '.'] then .ok (.parent base names)
    else if longestName < name.byteLength then .error (.failed .nameTooLong)
    else
      match d.find? base (names ++ [name]) with
      | some place => .ok place
      | none => .error .missing

/-- Where a path leads, or why it leads nowhere. -/
def walk (d : Directory) (path : String) : Except Access Place :=
  (pathNames path).foldlM d.enter (.directory (.ofPath path) [])

/-- What comes of asking for the file that a path leads to; the empty path leads nowhere. -/
def access (d : Directory) (path : String) : Access :=
  if path.isEmpty then .missing
  else if longestPath < path.utf8ByteSize then .failed .nameTooLong
  else .ofWalk (d.walk path)

end Directory

end LoxLexer
