import DeclaredMethods.Files.Path
import DeclaredMethods.OrderedMap

/-!
# File trees

The files and directories that can be reached from a working directory. A path is followed name by
name; every directory on the way must exist.
-/

namespace DeclaredMethods.Files

/-- Why a file or directory cannot be used. -/
inductive FileError where
  | notFound
  | alreadyExists
  | notADirectory
  | isADirectory
  | invalidText
deriving DecidableEq

def FileError.message : FileError → String
  | notFound => "No such file or directory (os error 2)"
  | alreadyExists => "File exists (os error 17)"
  | notADirectory => "Not a directory (os error 20)"
  | isADirectory => "Is a directory (os error 21)"
  | invalidText => "stream did not contain valid UTF-8"

/-- What stands at a location. -/
inductive Entry where
  | file (content : ByteArray)
  | directory

/-- The names on the way from the working directory to a file or directory. The directories above
the working directory are called `..`, and the root of the file system `/`. -/
abbrev Location := List String

namespace Location

/-- Whether a location is the working directory, one above it or the root, all of which exist. -/
def isGiven (location : Location) : Bool :=
  location.all (· == "..") || location == ["/"]

def above (location : Location) : Location :=
  if location == ["/"] then location
  else if location.isGiven then location ++ [".."]
  else location.dropLast

def start (path : String) : Location :=
  if isAbsolute path then ["/"] else []

end Location

/-- Files and directories by location. -/
structure Tree where
  entries : OrderedMap Location Entry

namespace Tree

def empty : Tree := ⟨.empty⟩

def entry? (tree : Tree) (location : Location) : Option Entry :=
  if location.isGiven then some .directory else tree.entries.get? location

def put (tree : Tree) (location : Location) (entry : Entry) : Tree :=
  if location.isGiven then tree else ⟨tree.entries.insert location entry⟩

def step (tree : Tree) (location : Location) (piece : String) : Except FileError Location :=
  match tree.entry? location with
  | none => .error .notFound
  | some (.file _) => .error .notADirectory
  | some .directory =>
    if isIdle piece then .ok location
    else if piece == ".." then .ok location.above
    else .ok (location ++ [piece])

/-- The location that a path leads to, whether or not something stands there. -/
def follow (tree : Tree) (path : String) : Except FileError Location :=
  if path.isEmpty then .error .notFound
  else (pieces path).foldlM tree.step (Location.start path)

def find (tree : Tree) (path : String) : Except FileError (Location × Entry) := do
  let location ← tree.follow path
  match tree.entry? location with
  | some entry => .ok (location, entry)
  | none => .error .notFound

def contains (tree : Tree) (path : String) : Bool :=
  match tree.find path with
  | .ok _ => true
  | .error _ => false

def isFile (tree : Tree) (path : String) : Bool :=
  match tree.find path with
  | .ok (_, .file _) => true
  | _ => false

def directory? (tree : Tree) (path : String) : Option Location :=
  match tree.find path with
  | .ok (location, .directory) => some location
  | _ => none

def readText (tree : Tree) (path : String) : Except FileError String := do
  match ← tree.find path with
  | (_, .directory) => .error .isADirectory
  | (_, .file content) =>
    match String.fromUTF8? content with
    | some text => .ok text
    | none => .error .invalidText

def insertSorted (name : String) : List String → List String
  | [] => [name]
  | other :: others =>
    if other < name then other :: insertSorted name others else name :: other :: others

/-- The name that an entry has in a directory, if it stands directly in it. -/
def nameIn? (directory location : Location) : Option String :=
  if location.dropLast == directory then location.getLast? else none

def names (tree : Tree) (directory : Location) : List String :=
  (tree.entries.keys.filterMap (nameIn? directory)).foldr insertSorted []

/-- The files below a directory by the names that lead to them, where directories are nested at
most `depth` deep. -/
def filesUpTo (tree : Tree) : Nat → Location → List (List String)
  | 0, _ => []
  | depth + 1, directory =>
    (tree.names directory).flatMap fun name =>
      match tree.entry? (directory ++ [name]) with
      | some (.file _) => [[name]]
      | some .directory => (filesUpTo tree depth (directory ++ [name])).map (name :: ·)
      | none => []

/-- The files below a directory by the names that lead to them. Names are in order within a
directory, and the files of a directory stand at the place of its name. -/
def filesBelow (tree : Tree) (directory : Location) : List (List String) :=
  tree.filesUpTo (tree.entries.entries.length + 1) directory

/-- The files that a path leads to, each by the names behind the path: the file itself, or all
files below a directory. -/
def filesAt (tree : Tree) (path : String) : List (List String) :=
  match tree.find path with
  | .ok (_, .file _) => [[]]
  | .ok (location, .directory) => tree.filesBelow location
  | .error _ => []

def makeDirectories (tree : Tree) (location : Location) : List String → Except FileError Tree
  | [] => .ok tree
  | piece :: rest =>
    if isIdle piece then tree.makeDirectories location rest
    else if piece == ".." then tree.makeDirectories location.above rest
    else
      let inner := location ++ [piece]
      match tree.entry? inner with
      | some .directory => tree.makeDirectories inner rest
      | some (.file _) => .error (if rest.all isIdle then .alreadyExists else .notADirectory)
      | none => (tree.put inner .directory).makeDirectories inner rest

def makeParents (tree : Tree) (path : String) : Except FileError Tree :=
  match splitLast? path with
  | none => .ok tree
  | some (front, _) => tree.makeDirectories (Location.start path) front

/-- Writes a text to the file that a path leads to, which is made if it is missing. A path that
ends with a slash leads to a directory. -/
def writeText (tree : Tree) (path text : String) : Except FileError Tree := do
  let parts := pieces path
  let trimmed := (parts.reverse.dropWhile (· == "")).reverse
  if path.isEmpty then .error .notFound
  else
    let location ← trimmed.foldlM tree.step (Location.start path)
    match tree.entry? location with
    | some .directory => .error .isADirectory
    | some (.file _) | none =>
      if trimmed.length < parts.length then .error .isADirectory
      else .ok (tree.put location (.file text.toUTF8))

/-- Puts a file or directory where a path leads to, with the directories around it. -/
def build (tree : Tree) (path : String) (entry : Entry) : Tree :=
  match tree.makeParents path with
  | .error _ => tree
  | .ok tree =>
    match tree.follow path with
    | .ok location => tree.put location entry
    | .error _ => tree

/-- The files that differ from those of an earlier tree, by location. -/
def changedSince (tree earlier : Tree) : List (Location × ByteArray) :=
  tree.entries.entries.filterMap fun (location, entry) =>
    match entry, earlier.entry? location with
    | .file content, some (.file before) =>
      if content.data = before.data then none else some (location, content)
    | .file content, _ => some (location, content)
    | .directory, _ => none

end Tree

end DeclaredMethods.Files
