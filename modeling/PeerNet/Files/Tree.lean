import PeerNet.Text.Split

/-!
# File trees

The text files below a root as a value: each file with the names on its path. A
directory exists when it is listed or a file lies below it, and the root always
does. Paths are written with slashes, from the root or from a directory.
-/

set_option autoImplicit false

namespace PeerNet

/-- The names on a path, from the root downward. The name `..` stands for the
directory above. -/
abbrev FilePath := List String

namespace FilePath

/-- The path that a text writes. A text that starts with a slash starts from the
root, any other from a directory. Empty names and names for the same directory
do not count. -/
def ofText (directory : FilePath) (text : String) : FilePath :=
  let names := ((Text.segments '/' text.toList).map String.ofList).filter fun name =>
    name ≠ "" && name ≠ "."
  if text.startsWith "/" then names else directory ++ names

/-- The path that a text writes for a file. A text that ends like that of a
directory names no file. -/
def ofFileText? (directory : FilePath) (text : String) : Option FilePath :=
  if text.endsWith "/" || text.endsWith "/." then none else some (ofText directory text)

def toText (path : FilePath) : String :=
  String.ofList (Text.join '/' (path.map String.toList))

end FilePath

structure FileTree where
  files : List (FilePath × String) := []
  directories : List FilePath := []
  deriving DecidableEq, Repr

namespace FileTree

def below (tree : FileTree) (directory : FilePath) : List FilePath :=
  (tree.files.map (·.1) ++ tree.directories).filterMap fun path =>
    if directory.isPrefixOf path && directory.length < path.length then
      some (path.drop directory.length)
    else none

/-- True of the root, of every listed directory, and of every directory that
something lies below. -/
def isDirectory (tree : FileTree) (path : FilePath) : Bool :=
  path.isEmpty || tree.directories.contains path || !(tree.below path).isEmpty

/-- The place that a path leads to from a directory. Only from a directory that
exists is there a way to the one above it. -/
def follow? (tree : FileTree) (directory : FilePath) : FilePath → Option FilePath
  | [] => some directory
  | name :: rest =>
    if name = ".." then
      if tree.isDirectory directory then tree.follow? directory.dropLast rest else none
    else tree.follow? (directory ++ [name]) rest

def read? (tree : FileTree) (path : FilePath) : Option String :=
  (tree.follow? [] path).bind fun place => tree.files.lookup place

/-- The names in a directory, each once; none if there is no such directory. -/
def entries? (tree : FileTree) (path : FilePath) : Option (List String) :=
  match tree.follow? [] path with
  | none => none
  | some directory =>
    if tree.isDirectory directory then
      some ((tree.below directory).filterMap List.head?).eraseDups
    else none

/-- The tree with a file written, if its directory exists and the path is not a
directory itself. -/
def write? (tree : FileTree) (path : FilePath) (text : String) : Option FileTree :=
  match tree.follow? [] path.dropLast, path.getLast? with
  | some directory, some name =>
    let target := directory ++ [name]
    if name = ".." || tree.isDirectory target || !tree.isDirectory directory then none
    else some { tree with files := (target, text) :: tree.files.filter (·.1 ≠ target) }
  | _, _ => none

def changedSince (tree earlier : FileTree) : List (FilePath × String) :=
  tree.files.filter fun (path, text) => earlier.files.lookup path ≠ some text

end FileTree

end PeerNet
