import DeclaredMethods.Files.Tree
import DeclaredMethods.Log
import DeclaredMethods.Settings
import DeclaredMethods.Signature.Core

/-!
# Loading signature files

Signatures are loaded from files and from all signature files below directories. A file that
cannot be loaded is reported and skipped.
-/

namespace DeclaredMethods

open Signature (Environment SyntaxError)
open Files (Tree FileError)

/-- Why signatures were not loaded. -/
inductive LoadError where
  | missingDirectory (path : String)
  | unreadable (path : String) (error : FileError)
  | invalid (path : String) (error : SyntaxError)

def LoadError.message : LoadError → String
  | missingDirectory path => "failed to read " ++ path ++ ": no such directory"
  | unreadable path error => "failed to read " ++ path ++ ": " ++ error.message
  | invalid path error => "failed to parse " ++ path ++ ": " ++ error.message

structure LoadReport where
  /-- Number of files that were loaded. -/
  files : Nat
  errors : List LoadError

def loadFile (tree : Tree) (env : Environment) (path : String) : Except LoadError Environment := do
  let text ← (tree.readText path).mapError (.unreadable path)
  (env.load text).mapError (.invalid path)

def loadReported (tree : Tree) (loaded : Environment × LoadReport) (path : String) :
    Environment × LoadReport :=
  match loadFile tree loaded.1 path with
  | .ok env => (env, { loaded.2 with files := loaded.2.files + 1 })
  | .error error => (loaded.1, { loaded.2 with errors := loaded.2.errors ++ [error] })

def pathBelow (root : String) (names : List String) : String :=
  names.foldl Files.join root

/-- Loads every signature file that a path leads to, in order. -/
def loadDirectory (tree : Tree) (env : Environment) (root : String) : Environment × LoadReport :=
  if tree.contains root then
    let paths := (tree.filesAt root).map (pathBelow root)
    (paths.filter (Files.hasExtension · "rbs")).foldl (loadReported tree) (env, ⟨0, []⟩)
  else (env, ⟨0, [.missingDirectory root]⟩)

def loadLog (verbose : Bool) (root : String) (report : LoadReport) : List LogEntry :=
  (if verbose then
    [⟨.info, .run, "Loaded " ++ toString report.files ++ " signature file(s) from " ++ root⟩]
  else []) ++ report.errors.map fun error => ⟨.warn, .run, error.message⟩

def loadDirectories (tree : Tree) (verbose : Bool) (env : Environment) :
    List String → Environment × List LogEntry
  | [] => (env, [])
  | root :: roots =>
    let (env, report) := loadDirectory tree env root
    let (env, log) := loadDirectories tree verbose env roots
    (env, loadLog verbose root report ++ log)

/-- The environment that settings ask for: the core signatures, then those of every signature
directory. -/
def loadEnvironment (tree : Tree) (settings : Settings) : Environment × List LogEntry :=
  loadDirectories tree settings.verbose (if settings.core then .core else .empty)
    settings.signaturePaths

end DeclaredMethods
