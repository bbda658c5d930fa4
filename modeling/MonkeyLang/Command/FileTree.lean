import MonkeyLang.Entries

/-!
The files that a command sees. A location gives the names from the working directory on; one above
it starts with `..`, and an absolute one with the root. A path is walked name by name, and every
name but the last must be that of a directory. What is outside the tree does not exist.
-/

set_option autoImplicit false

namespace MonkeyLang.Command

abbrev Location := List String

/-- The path of a location. -/
def pathOf : Location → String
  | [] => "."
  | "/" :: names => "/" ++ "/".intercalate names
  | names => "/".intercalate names

inductive FileError where
  | noSuchFile
  | notDirectory
  | isDirectory
  | nameTooLong
  | nulCharacter
  deriving DecidableEq, Repr

/-- The directories above a file or a listed directory are there too. -/
structure FileTree where
  files : List (Location × String) := []
  directories : List Location := []

namespace FileTree

def content? (tree : FileTree) (location : Location) : Option String :=
  Entries.get? tree.files location

def write (tree : FileTree) (location : Location) (content : String) : FileTree :=
  { tree with files := Entries.put location content tree.files }

def isDirectory (tree : FileTree) (location : Location) : Bool :=
  location.all (· = "..") || location = ["/"] ||
    tree.directories.any (location.isPrefixOf ·) ||
    tree.files.any fun file => location.isPrefixOf file.1 && location.length < file.1.length

def parent (location : Location) : Location :=
  if location = ["/"] then location
  else if location.getLast?.getD ".." = ".." then location ++ [".."]
  else location.dropLast

def maxNameBytes : Nat := 255

def maxPathBytes : Nat := 4095

/-- One name further. -/
def next (location : Location) (name : String) : Location :=
  if name = "" ∨ name = "." then location
  else if name = ".." then parent location
  else location ++ [name]

/-- One name further in the tree: the location so far must be a directory. -/
def step (tree : FileTree) (location : Location) (name : String) : Except FileError Location :=
  if tree.isDirectory location then
    if maxNameBytes < name.utf8ByteSize then .error .nameTooLong else .ok (next location name)
  else if (tree.content? location).isSome then .error .notDirectory
  else .error .noSuchFile

def walk (tree : FileTree) : Location → List String → Except FileError Location
  | location, [] => .ok location
  | location, name :: rest => do tree.walk (← tree.step location name) rest

def startOf (path : List Char) : Location :=
  if path.head? = some '/' then ["/"] else []

def pathNames (path : List Char) : List String :=
  (path.splitOnP (· = '/')).map .ofList

def locate (tree : FileTree) (path : List Char) : Except FileError Location :=
  if '\x00' ∈ path then .error .nulCharacter
  else if path = [] then .error .noSuchFile
  else if maxPathBytes < (String.ofList path).utf8ByteSize then .error .nameTooLong
  else tree.walk (startOf path) (pathNames path)

/-- The locations that the walk along a path can pass. -/
def onTheWay (path : String) : List Location :=
  (pathNames path.toList).scanl next (startOf path.toList)

/-- The text of the file at a path, or nothing where there is none. -/
def read (tree : FileTree) (path : String) : Except FileError (Option String) :=
  match tree.locate path.toList with
  | .error .nameTooLong => .error .nameTooLong
  | .error _ => .ok none
  | .ok location =>
    if tree.isDirectory location then .error .isDirectory else .ok (tree.content? location)

def dropFinalSlashes (path : List Char) : List Char :=
  (path.reverse.dropWhile (· = '/')).reverse

/-- Where a file that is opened for writing stands. A slash at the end asks for a directory. -/
def target (tree : FileTree) (path : String) : Except FileError Location :=
  let text := path.toList
  let name := dropFinalSlashes text
  if name = [] ∧ text ≠ [] then .error .isDirectory
  else do
    let location ← tree.locate name
    if name ≠ text ∨ tree.isDirectory location then .error .isDirectory else .ok location

end FileTree

end MonkeyLang.Command
