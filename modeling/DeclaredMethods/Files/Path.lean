/-!
# Paths

A path is a text of names with slashes between them. Empty names and single points count for
nothing, except that they make the path in front of them a directory.
-/

namespace DeclaredMethods.Files

/-- The texts between the slashes of a path, where `piece` holds the characters read since the
last one. -/
def splitSlash (piece : List Char) : List Char → List (List Char)
  | [] => [piece]
  | c :: text => if c = '/' then piece :: splitSlash [] text else splitSlash (piece ++ [c]) text

def pieces (path : String) : List String :=
  (splitSlash [] path.toList).map String.ofList

def ofPieces (parts : List String) : String :=
  "/".intercalate parts

def isAbsolute (path : String) : Bool :=
  path.toList.head? == some '/'

/-- Whether a piece of a path names nothing. -/
def isIdle (piece : String) : Bool :=
  piece == "" || piece == "."

/-- The last piece of a path that is not idle and the pieces in front of it. -/
def splitLast? (path : String) : Option (List String × String) :=
  match (pieces path).reverse.dropWhile isIdle with
  | [] => none
  | last :: front => some (front.reverse, last)

/-- The last name of a path and the pieces in front of it. A path that ends with the directory
above has no last name. -/
def splitName? (path : String) : Option (List String × String) :=
  (splitLast? path).filter fun split => split.2 != ".."

def fileName? (path : String) : Option String :=
  (splitName? path).map Prod.snd

/-- A name in front of its last point and what stands behind it. A point at the start is part of
the name. -/
def splitExtension (name : String) : String × Option String :=
  let reversed := name.toList.reverse
  let extension := reversed.takeWhile (· != '.')
  match reversed.drop extension.length with
  | _ :: c :: stem =>
    (String.ofList (c :: stem).reverse, some (String.ofList extension.reverse))
  | _ => (name, none)

def extension? (path : String) : Option String :=
  (fileName? path).bind fun name => (splitExtension name).2

def hasExtension (path extension : String) : Bool :=
  extension? path == some extension

def join (directory path : String) : String :=
  if isAbsolute path then path
  else if directory.isEmpty || directory.toList.getLast? == some '/' then directory ++ path
  else directory ++ "/" ++ path

/-- A path whose last name has the given extension in place of its own. A path without a last
name is left alone. -/
def setExtension (path extension : String) : String :=
  match splitName? path with
  | none => path
  | some (front, name) => ofPieces (front ++ [(splitExtension name).1]) ++ "." ++ extension

/-- A path with the given extension in place of the one it has. The old extension is taken off the
end first; what is left may be the directory above, which takes no extension. -/
def withExtension (path extension : String) : String :=
  match extension? path with
  | none => setExtension path extension
  | some old =>
    let chars := path.toList
    setExtension (String.ofList (chars.take (chars.length - old.toList.length))) extension

end DeclaredMethods.Files
