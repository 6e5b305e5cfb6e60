import DeclaredMethods.CommandLine.Execute

/-!
# The program

The outermost layer: it reads the files that a command asks for, lets the command work on them in
memory, prints what the command prints and writes the files that it has changed.
-/

namespace DeclaredMethods.Main

open Files (Tree)

/-- The names in a directory, or nothing if the path leads to no directory. -/
def directoryNames? (path : String) : IO (Option (List String)) :=
  try
    let entries ← (← IO.FS.realPath path).readDir
    return some (entries.toList.map fun entry => entry.fileName)
  catch _ => return none

/-- Adds a file to a tree if it can be read. -/
def loadContent (tree : Tree) (path : String) : IO Tree :=
  try
    return tree.build path (.file (← IO.FS.readBinFile path))
  catch _ => return tree

/-- Adds what a path leads to, with everything below it. -/
partial def loadPath (tree : Tree) (path : String) : IO Tree := do
  match ← directoryNames? path with
  | some names =>
    names.foldlM (fun tree name => loadPath tree (Files.join path name))
      (tree.build path .directory)
  | none => loadContent tree path

def loadTree (lookup : String → Option String) (words : List String) : IO Tree :=
  match CommandLine.Request.parse words with
  | .ok (.perform _ command) => (command.reads lookup).foldlM loadPath .empty
  | _ => return .empty

def readVariables : IO (String → Option String) := do
  let names := [Settings.signaturePathVariable, Settings.outputDirVariable, Settings.jobsVariable]
  let values ← names.mapM fun name => return (name, ← IO.getEnv name)
  return fun name => (values.lookup name).join

/-- Writes a file with the directories around it. -/
def storeFile (location : Files.Location) (content : ByteArray) : IO Unit := do
  if location.dropLast.isEmpty then
    IO.FS.writeBinFile (Files.ofPieces location) content
  else
    IO.FS.createDirAll (Files.ofPieces location.dropLast)
    IO.FS.writeBinFile (Files.ofPieces location) content

/-- Does what a command line asks for. -/
def performWords (words : List String) : IO UInt32 := do
  let lookup ← readVariables
  let tree ← loadTree lookup words
  let outcome := CommandLine.execute lookup tree words
  for (location, content) in outcome.tree.changedSince tree do
    storeFile location content
  IO.print outcome.output
  match outcome.complaint with
  | some complaint => IO.eprintln ("Error: " ++ complaint)
  | none => pure ()
  return outcome.code.toUInt32

end DeclaredMethods.Main

def main (words : List String) : IO UInt32 :=
  DeclaredMethods.Main.performWords words
