/-!
# Reading files

* `ReadFailure`: why a file cannot be read as text, in the words of the system.
* `decodeText`: the text that bytes stand for.
* `Inputs`: what the command can read, whether the system has it or it is at hand.
* `FileTree`: a directory of files, with the directories that their paths imply.
* `Place`: where a path has led so far, in the directory or outside of it.
* `FileTree.read`: what is in the file at a path.
* `FileTree.inputs`: a directory as what the command can read.

A path is followed name by name. An absolute path starts outside of the directory, and a relative
one gets there by climbing above its top. Nothing outside is known by name, so neither finds a file.
-/

namespace ExprCheck

/-- Why a file cannot be read as text. -/
inductive ReadFailure where
  | notFound
  | notDirectory
  | isDirectory
  | invalidText
  /-- Any other failure, in the words of the system. -/
  | other (reason : String)
deriving DecidableEq

namespace ReadFailure

/-- The reason of a failure. -/
def reason : ReadFailure → String
  | notFound => "No such file or directory (os error 2)"
  | notDirectory => "Not a directory (os error 20)"
  | isDirectory => "Is a directory (os error 21)"
  | invalidText => "stream did not contain valid UTF-8"
  | other reason => reason

end ReadFailure

/-- The text that bytes stand for. -/
def decodeText (bytes : ByteArray) : Except ReadFailure String :=
  match String.fromUTF8? bytes with
  | some text => .ok text
  | none => .error .invalidText

/-- What the command can read: files by their paths, and the standard input. -/
structure Inputs (m : Type → Type) where
  file : String → m (Except ReadFailure ByteArray)
  standard : m (Except ReadFailure ByteArray)

/-- The files of a directory, by their paths in it. -/
structure FileTree where
  files : List (List String × ByteArray)

namespace FileTree

/-- A file, or a directory. -/
inductive Entry where
  | file (content : ByteArray)
  | directory

/-- The names that a path is made of. -/
def components (path : String) : List String :=
  path.splitOn "/"

/-- The directory that holds files at the given paths. -/
def ofPaths (files : List (String × ByteArray)) : FileTree :=
  ⟨files.map fun file => ((components file.1).filter fun name => name ≠ "" ∧ name ≠ ".", file.2)⟩

/-- What stands at the place that some names lead to from the top. A directory is there because of
the files in it. -/
def entry? (tree : FileTree) (names : List String) : Option Entry :=
  match tree.files.lookup names with
  | some content => some (.file content)
  | none =>
    if names.isEmpty || tree.files.any fun file => names.isPrefixOf file.1 then some .directory
    else none

end FileTree

/-- Where a path has led so far. -/
inductive Place where
  /-- The place that the names lead to from the top of the directory. -/
  | inside (names : List String)
  /-- One of the directories outside. -/
  | outside
deriving DecidableEq

namespace Place

/-- The directory that holds a place. -/
def parent : Place → Place
  | inside [] => outside
  | inside (name :: names) => inside (name :: names).dropLast
  | outside => outside

/-- The place that a name leads to from a directory. Outside, only directories above are known. -/
def next? (place : Place) (name : String) : Option Place :=
  if name = "" ∨ name = "." then some place
  else if name = ".." then some place.parent
  else
    match place with
    | inside names => some (inside (names ++ [name]))
    | outside => none

end Place

namespace FileTree

/-- What stands at a place, inside or outside. -/
def find? (tree : FileTree) : Place → Option Entry
  | .inside names => tree.entry? names
  | .outside => some .directory

/-- The content of the file that is found from a place by going along some names. -/
def walk (tree : FileTree) : Place → List String → Except ReadFailure ByteArray
  | place, [] =>
    match tree.find? place with
    | some (.file content) => .ok content
    | some .directory => .error .isDirectory
    | none => .error .notFound
  | place, name :: later =>
    match tree.find? place with
    | some (.file _) => .error .notDirectory
    | none => .error .notFound
    | some .directory =>
      match place.next? name with
      | some place => tree.walk place later
      | none => .error .notFound

/-- The content of the file at a path. An empty path names nothing, and an absolute one begins with
an empty name. -/
def read (tree : FileTree) (path : String) : Except ReadFailure ByteArray :=
  match components path with
  | [""] => .error .notFound
  | "" :: names => tree.walk .outside names
  | names => tree.walk (.inside []) names

/-- What a command that is run in the directory can read. -/
def inputs (tree : FileTree) (standard : ByteArray) : Inputs Id where
  file := tree.read
  standard := .ok standard

end FileTree

end ExprCheck
