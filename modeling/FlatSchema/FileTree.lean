import FlatSchema.Path
import FlatSchema.Text.Utf8

/-!
# File trees

A file tree is a file or a directory with named trees in it.  An absolute path
is walked from the root, segment by segment: each segment but the last must be
a directory.  Neither a segment nor a whole path may be longer than the system
allows.
-/

namespace FlatSchema

inductive FileError where
  | noEntry
  | notDirectory
  | isDirectory
  | fileExists
  | nameTooLong
deriving DecidableEq, Inhabited, Repr

inductive FileAction where
  | openFile
  | makeDirectory
deriving DecidableEq, Inhabited, Repr

def FileAction.name : FileAction → String
  | .openFile => "open"
  | .makeDirectory => "mkdir"

namespace FileError

def describe : FileError → String
  | .noEntry => "ENOENT: no such file or directory"
  | .notDirectory => "ENOTDIR: not a directory"
  | .isDirectory => "EISDIR: illegal operation on a directory"
  | .fileExists => "EEXIST: file already exists"
  | .nameTooLong => "ENAMETOOLONG: name too long"

def message (err : FileError) (action : FileAction) (path : Text) : Text :=
  Text.ofString s!"{err.describe}, {action.name} '" ++ path ++ Text.ofString "'"

end FileError

inductive FileTree where
  | file (bs : List UInt8)
  | directory (entries : List (Text × FileTree))
deriving Inhabited, Repr

namespace FileTree

def empty : FileTree :=
  .directory []

def entries : FileTree → List (Text × FileTree)
  | .file _ => []
  | .directory entries => entries

def maxNameBytes : Nat := 255

def maxPathBytes : Nat := 4095

def isTooLong (name : Text) : Bool :=
  maxNameBytes < (Utf8.encode name).length

def find : FileTree → List Text → Except FileError FileTree
  | tree, [] => .ok tree
  | .file _, _ :: _ => .error .notDirectory
  | .directory entries, name :: rest =>
    if isTooLong name then .error .nameTooLong
    else
      match entries.lookup name with
      | none => .error .noEntry
      | some tree => tree.find rest

def walk (tree : FileTree) (path : Text) : Except FileError FileTree :=
  if maxPathBytes < (Utf8.encode path).length then .error .nameTooLong
  else tree.find (Path.segments false path)

def readFile (tree : FileTree) (path : Text) : Except FileError (List UInt8) :=
  match tree.walk path with
  | .ok (.file bs) => .ok bs
  | .ok (.directory _) => .error .isDirectory
  | .error err => .error err

/-- Put a tree where segments lead to, with the directories above it. -/
def graft (leaf : FileTree) : List Text → FileTree → FileTree
  | [], _ => leaf
  | name :: rest, tree =>
    let others := tree.entries.filter fun e => e.1 != name
    .directory ((name, graft leaf rest ((tree.entries.lookup name).getD empty)) :: others)

def put (tree : FileTree) (path : Text) (leaf : FileTree) : FileTree :=
  graft leaf (Path.segments false path) tree

def makeDirectory (tree : FileTree) (path : Text) : Except FileError FileTree :=
  match tree.walk path with
  | .ok (.directory _) => .ok tree
  | .ok (.file _) => .error .fileExists
  | .error .noEntry =>
    if (Path.segments false path).any isTooLong then .error .nameTooLong
    else .ok (tree.put path empty)
  | .error err => .error err

def writeFile (tree : FileTree) (path : Text) (bs : List UInt8) : Except FileError FileTree :=
  match tree.walk path, tree.walk (Path.dirname path) with
  | .ok (.directory _), _ => .error .isDirectory
  | .ok (.file _), _ => .ok (tree.put path (.file bs))
  | .error .noEntry, .ok (.directory _) => .ok (tree.put path (.file bs))
  | .error err, _ => .error err

mutual

def filesAt (path : Text) : FileTree → List (Text × List UInt8)
  | .file bs => [(path, bs)]
  | .directory entries => filesIn path entries

def filesIn (path : Text) : List (Text × FileTree) → List (Text × List UInt8)
  | [] => []
  | (name, tree) :: rest =>
    filesAt (path ++ ⟨[Path.slash]⟩ ++ name) tree ++ filesIn path rest

end

def files (tree : FileTree) : List (Text × List UInt8) :=
  tree.filesAt Text.empty

end FileTree

end FlatSchema
