import MemoryHierarchy.Path

/-!
# Files and directories

A `FileTree` is a file or a directory of named entries. A `FileSystem` is a root directory with the
place of the working directory in it: relative paths start there, two dots lead from a place to the
one above, and the root is its own parent.

Every operation resolves a path segment by segment and fails with the cause of the first segment
that cannot be followed. Paths of more than `maxPathBytes`, and names of more than `maxNameBytes`,
lead nowhere.
-/

namespace MemoryHierarchy

/-- A file with its text, or a directory with its entries. An entry is looked up by its name, and of
several with one name the first one counts. -/
inductive FileTree where
  | file (content : String)
  | directory (entries : List (String × FileTree))
deriving Inhabited

/-- Why an operation on files fails. -/
inductive FileError where
  | notFound
  | alreadyExists
  | notDirectory
  | isDirectory
  | nameTooLong
  | nulCharacter
deriving DecidableEq, Repr

/-- The text of a cause. -/
def FileError.message : FileError → String
  | notFound => "No such file or directory (os error 2)"
  | alreadyExists => "File exists (os error 17)"
  | notDirectory => "Not a directory (os error 20)"
  | isDirectory => "Is a directory (os error 21)"
  | nameTooLong => "File name too long (os error 36)"
  | nulCharacter => "file name contained an unexpected NUL byte"

namespace FileTree

/-- The empty directory. -/
def empty : FileTree := .directory []

/-- The entry of a directory under a name. A file has none. -/
def child? : FileTree → String → Option FileTree
  | .directory entries, name => entries.lookup name
  | .file _, _ => none

/-- What lies below a directory under a sequence of names. No name at all stands for the tree
itself. -/
def at? (tree : FileTree) : List String → Option FileTree
  | [] => some tree
  | name :: names => (tree.child? name).bind (·.at? names)

/-- Puts a tree under a name of a directory. An entry that is there keeps its place, and a new one
goes to the end. -/
def setEntry (entries : List (String × FileTree)) (name : String) (tree : FileTree) :
    List (String × FileTree) :=
  match entries with
  | [] => [(name, tree)]
  | entry :: rest =>
    if entry.1 = name then (name, tree) :: rest else entry :: setEntry rest name tree

/-- Puts a tree under a sequence of names. Directories that are missing on the way are made, and
nothing is changed below a file. -/
def put (node : FileTree) : List String → FileTree → FileTree
  | [], _ => node
  | name :: names, .directory entries =>
    .directory (setEntry entries name (put node names ((entries.lookup name).getD empty)))
  | _ :: _, .file content => .file content

/-- The names of a directory's entries. -/
def names : FileTree → List String
  | .directory entries => entries.map Prod.fst
  | .file _ => []

mutual

/-- The files and directories below a directory, each by its path behind `above`, a directory before
what it holds; a directory has no text. -/
def contents (above : String) : FileTree → List (String × Option String)
  | .file _ => []
  | .directory entries => entryContents above entries

/-- The entries of a directory and what is below them. -/
def entryContents (above : String) : List (String × FileTree) → List (String × Option String)
  | [] => []
  | (name, .file content) :: rest => (above ++ name, some content) :: entryContents above rest
  | (name, .directory entries) :: rest =>
    (above ++ name, none) :: entryContents (above ++ name ++ "/") entries
      ++ entryContents above rest

end

end FileTree

/-- A root directory, and the place of the working directory in it. Both are data, so a run on a
file system is a function of it. -/
structure FileSystem where
  root : FileTree
  working : List String

namespace FileSystem

/-- The file system around a working directory, which has a name of its own below the root. Nothing
else is there. -/
def around (tree : FileTree) : FileSystem := ⟨.directory [("workspace", tree)], ["workspace"]⟩

/-- The working directory. It is empty where the place leads nowhere. -/
def workingTree (fs : FileSystem) : FileTree := (fs.root.at? fs.working).getD .empty

/-- How long a path may be. -/
def maxPathBytes : Nat := 4095

/-- How long a name in a path may be. -/
def maxNameBytes : Nat := 255

/-- Follows one segment of a path from a place. A blank segment and a single dot stay, two dots lead
to the place above, and a name leads to an entry that has to be there. -/
def step (fs : FileSystem) (place : List String) (segment : String) :
    Except FileError (List String) :=
  match fs.root.at? place with
  | none => .error .notFound
  | some (.file _) => .error .notDirectory
  | some (.directory entries) =>
    if segment = "" ∨ segment = "." then .ok place
    else if segment = ".." then .ok place.dropLast
    else if maxNameBytes < segment.utf8ByteSize then .error .nameTooLong
    else if (entries.lookup segment).isSome then .ok (place ++ [segment])
    else .error .notFound

/-- The place from which a path starts. What the text looks like decides, not what is there. -/
def start (fs : FileSystem) (p : Path) : List String := if p.isAbsolute then [] else fs.working

/-- Why a path cannot be followed, whatever is there: it holds a NUL character, it is blank, or it
is too long. -/
def refusal? (p : Path) : Option FileError :=
  if '\x00' ∈ p.text.toList then some .nulCharacter
  else if p.text = "" then some .notFound
  else if maxPathBytes < p.text.utf8ByteSize then some .nameTooLong
  else none

/-- Follows a path, segment by segment from its start, and stops at the first segment that cannot be
followed. -/
def locate (fs : FileSystem) (p : Path) : Except FileError (List String) :=
  match refusal? p with
  | some e => .error e
  | none => p.segments.foldlM fs.step (fs.start p)

/-- What a path leads to. Files and directories are found alike. -/
def lookup (fs : FileSystem) (p : Path) : Except FileError FileTree :=
  match fs.locate p with
  | .ok place =>
    match fs.root.at? place with
    | some tree => .ok tree
    | none => .error .notFound
  | .error e => .error e

/-- Does a path lead to anything? A path that cannot be followed leads to nothing. -/
def isThere (fs : FileSystem) (p : Path) : Bool :=
  match fs.lookup p with
  | .ok _ => true
  | .error _ => false

/-- Does a path lead to a directory? -/
def isDirectory (fs : FileSystem) (p : Path) : Bool :=
  match fs.lookup p with
  | .ok (.directory _) => true
  | _ => false

/-- The text of a file. A directory has no text, which is an error of its own. -/
def read (fs : FileSystem) (p : Path) : Except FileError String :=
  match fs.lookup p with
  | .ok (.file content) => .ok content
  | .ok (.directory _) => .error .isDirectory
  | .error e => .error e

/-- The subdirectories of a directory by name, in the order of the names. A directory that cannot be
read has none. -/
def subdirectories (fs : FileSystem) (p : Path) : List String :=
  match fs.lookup p with
  | .ok tree =>
    (tree.names.filter fun name => fs.isDirectory (p.join ⟨name⟩)).mergeSort
      (fun a b => !decide (b < a))
  | .error _ => []

/-- Splits a path into the segments before the last one that is not blank, and that one. Slashes at
the end of a path do not count. -/
def splitLast (segments : List String) : List String × String :=
  let segments := (segments.reverse.dropWhile (· = "")).reverse
  (segments.dropLast, segments.getLastD "")

/-- The place at which a path ends, with what is there now, where the directory above exists. The
last segment need not lead anywhere yet. -/
def target (fs : FileSystem) (p : Path) : Except FileError (List String × Option FileTree) := do
  if let some e := refusal? p then throw e
  let (above, last) := splitLast p.segments
  let place ← above.foldlM fs.step (fs.start p)
  match fs.step place last with
  | .ok place => pure (place, fs.root.at? place)
  | .error .notFound => pure (place ++ [last], none)
  | .error e => throw e

/-- Replaces a file's text, or creates the file in a directory that exists. The directory above has
to be there. -/
def write (fs : FileSystem) (p : Path) (content : String) : Except FileError FileSystem := do
  match ← fs.target p with
  | (_, some (.directory _)) => throw .isDirectory
  | (place, _) => pure { fs with root := .put (.file content) place fs.root }

/-- Creates a directory in a directory that exists. What is there already is not touched, and is an
error. -/
def makeDirectory (fs : FileSystem) (p : Path) : Except FileError FileSystem := do
  match ← fs.target p with
  | (_, some _) => throw .alreadyExists
  | (place, none) => pure { fs with root := .put .empty place fs.root }

/-- Creates a directory and, where they are missing, the directories above it. `fuel` bounds the
number of components. -/
def makeDirectoriesUp (fs : FileSystem) : Nat → Path → Except FileError FileSystem
  | 0, _ => .ok fs
  | fuel + 1, p =>
    if p.text = "" then .ok fs
    else
      match fs.makeDirectory p with
      | .ok fs => .ok fs
      | .error .notFound =>
        match p.parent? with
        | none => .error .notFound
        | some above =>
          match fs.makeDirectoriesUp fuel above with
          | .error e => .error e
          | .ok fs =>
            match fs.makeDirectory p with
            | .ok fs => .ok fs
            | .error e => if fs.isDirectory p then .ok fs else .error e
      | .error e => if fs.isDirectory p then .ok fs else .error e

/-- Creates a directory with all directories above it. -/
def makeDirectories (fs : FileSystem) (p : Path) : Except FileError FileSystem :=
  fs.makeDirectoriesUp (p.depth + 1) p

end FileSystem

end MemoryHierarchy
