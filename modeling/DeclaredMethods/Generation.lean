import DeclaredMethods.Document
import DeclaredMethods.Loading
import DeclaredMethods.Signature.Environment.Lookup
import DeclaredMethods.Source.Parser

/-!
# Generating signatures for files

From source files to signature files: sources are found, read and parsed, and the document of each
is written to its place below the output directory. A source with syntax errors gets no document,
and a source that cannot be read or written does not stop the others.
-/

namespace DeclaredMethods

open Signature (Environment)
open Files (Tree FileError)

/-- An error or warning about a source. -/
structure Diagnostic where
  message : String
  file : Option String
  span : Option Span

structure SourceResult where
  document : Option String
  /-- Where the document was written to. -/
  written : Option String
  errors : List Diagnostic
  warnings : List Diagnostic

def syntaxDiagnostic (file : Option String) (error : Source.ParseError) : Diagnostic :=
  ⟨error.kind.message, file, some error.span⟩

/-- The warning for a call that was left out. -/
def skippedDiagnostic (file : Option String) (skipped : SkippedCall) : Diagnostic :=
  ⟨"Skipped " ++ skipped.kind.methodName ++ ": " ++ skipped.error.message, file,
    some skipped.span⟩

def generateSource (definitions : DefinitionSource) (file : Option String) (text : String) :
    SourceResult :=
  let parsed := Source.parse text
  if parsed.errors.isEmpty then
    let generated := generate definitions (.collect parsed.file)
    ⟨generated.document, none, [], generated.skipped.map (skippedDiagnostic file)⟩
  else ⟨none, none, parsed.errors.map (syntaxDiagnostic file), []⟩

/-- What is noted while the document of a source text is generated. -/
def sourceLog (definitions : DefinitionSource) (file : Option String) (text : String) :
    List LogEntry :=
  let parsed := Source.parse text
  ⟨.debug, .run, "Parsing " ++ file.getD "<source>"⟩ ::
    if parsed.errors.isEmpty then documentLog definitions (.collect parsed.file) else []

/-- Why a file or a run was given up. -/
inductive RunError where
  | noSuchInput (path : String)
  | unreadable (error : FileError)
  | unwritable (path : String) (error : FileError)

def RunError.message : RunError → String
  | noSuchInput path => "No such file or directory: " ++ path
  | unreadable error => "Failed to read file: " ++ error.message
  | unwritable path error => "failed to write " ++ path ++ ": " ++ error.message

/-- Writes a document to its place. The directories around it stay even if it cannot be
written. -/
def writeDocument (tree : Tree) (output document : String) : Except RunError Unit × Tree :=
  match tree.makeParents output with
  | .error error => (.error (.unwritable output error), tree)
  | .ok prepared =>
    match prepared.writeText output document with
    | .error error => (.error (.unwritable output error), prepared)
    | .ok written => (.ok (), written)

structure FileOutcome where
  result : Except RunError SourceResult
  tree : Tree
  log : List LogEntry

def generateFile (definitions : DefinitionSource) (tree : Tree) (path output : String) :
    FileOutcome :=
  match tree.readText path with
  | .error error => ⟨.error (.unreadable error), tree, []⟩
  | .ok text =>
    let result := generateSource definitions (some path) text
    let log := sourceLog definitions (some path) text
    match result.document with
    | none => ⟨.ok result, tree, log⟩
    | some document =>
      match writeDocument tree output document with
      | (.ok (), tree) => ⟨.ok { result with written := some output }, tree, log⟩
      | (.error error, tree) => ⟨.error error, tree, log⟩

/-- A source file and its path below the output directory. -/
structure SourceInput where
  path : String
  relative : String
deriving DecidableEq

def SourceInput.outputPath (input : SourceInput) (outputDir : String) : String :=
  Files.withExtension (Files.join outputDir input.relative) "rbs"

/-- The sources that a path leads to: the file itself, or the source files below a directory. -/
def discoverPath (tree : Tree) (root : String) : Except RunError (List SourceInput) :=
  if tree.isFile root then
    match Files.fileName? root with
    | some name => .ok [⟨root, name⟩]
    | none => .error (.noSuchInput root)
  else
    match tree.directory? root with
    | none => .error (.noSuchInput root)
    | some location =>
      let inputs : List SourceInput := (tree.filesBelow location).map fun names =>
        ⟨pathBelow root names, Files.ofPieces names⟩
      .ok (inputs.filter fun input => Files.hasExtension input.path "rb")

/-- The sources that paths lead to, in order. -/
def discover (tree : Tree) : List String → Except RunError (List SourceInput)
  | [] => .ok []
  | root :: roots => do
    let inputs ← discoverPath tree root
    return inputs ++ (← discover tree roots)

structure RunResult where
  /-- The documents that were written, in the order of their sources. -/
  written : List String
  errors : List Diagnostic
  warnings : List Diagnostic

namespace RunResult

def empty : RunResult := ⟨[], [], []⟩

/-- Whether there were no errors. -/
def success (result : RunResult) : Bool :=
  result.errors.isEmpty

def add (result : RunResult) (input : SourceInput) :
    Except RunError SourceResult → RunResult
  | .ok source =>
    ⟨result.written ++ source.written.toList, result.errors ++ source.errors,
      result.warnings ++ source.warnings⟩
  | .error error =>
    { result with errors := result.errors ++ [⟨error.message, some input.path, none⟩] }

end RunResult

structure RunState where
  result : RunResult
  tree : Tree
  log : List LogEntry

def processInput (definitions : DefinitionSource) (outputDir : String) (state : RunState)
    (input : SourceInput) : RunState :=
  let outcome := generateFile definitions state.tree input.path (input.outputPath outputDir)
  ⟨state.result.add input outcome.result, outcome.tree, state.log ++ outcome.log⟩

/-- An entry that is only written when asked for. -/
def verboseEntry (settings : Settings) (message : String) : List LogEntry :=
  if settings.verbose then [⟨.info, .run, message⟩] else []

structure RunOutcome where
  result : Except RunError RunResult
  tree : Tree
  log : List LogEntry

/-- Generates the documents of all sources that paths lead to. -/
def run (settings : Settings) (tree : Tree) (paths : List String) : RunOutcome :=
  let (env, loading) := loadEnvironment tree settings
  let log := verboseEntry settings "Loading signatures..." ++ loading
  match discover tree paths with
  | .error error => ⟨.error error, tree, log⟩
  | .ok inputs =>
    let log := log ++ verboseEntry settings
      ("Generating signatures for " ++ toString inputs.length ++ " file(s)...")
    let final := inputs.foldl (processInput env.definition settings.outputDir)
      ⟨.empty, tree, log⟩
    ⟨.ok final.result, final.tree, final.log ++ verboseEntry settings
      ("Wrote " ++ toString final.result.written.length ++ " signature file(s)")⟩

end DeclaredMethods
