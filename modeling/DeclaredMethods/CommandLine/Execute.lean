import DeclaredMethods.CommandLine.Arguments
import DeclaredMethods.CommandLine.Listing
import DeclaredMethods.Generation

/-!
# Commands at work

A command reads files, prints text and may write files. Its exit code is zero if all went well, one
if errors were found, and two if the command line makes no sense.
-/

namespace DeclaredMethods.CommandLine

open Files (Tree)

structure Outcome where
  output : String
  /-- Why the command failed, if it did. -/
  complaint : Option String
  code : Nat
  tree : Tree

def unlines (lines : List String) : String :=
  String.join (lines.map (· ++ "\n"))

namespace Outcome

/-- The outcome of a command that prints lines and leaves the files as they are. -/
def printing (tree : Tree) (lines : List String) : Outcome :=
  ⟨unlines lines, none, 0, tree⟩

/-- The outcome of a command that prints lines and fails if there were errors. -/
def counting (tree : Tree) (lines : List String) (errors : Nat) (what : String) : Outcome :=
  if errors = 0 then printing tree lines
  else ⟨unlines lines, some (toString errors ++ " " ++ what), 1, tree⟩

/-- The outcome of a command that cannot read its file. -/
def unreadable (tree : Tree) (error : Files.FileError) : Outcome :=
  ⟨"", some (RunError.unreadable error).message, 1, tree⟩

end Outcome

def versionText : String := "0.1.0"

/-- What the program says about itself. -/
def infoLines : List String :=
  ["rbsgen",
    "======",
    "",
    "Version: " ++ versionText,
    "",
    "Components:",
    "  rbsgen-lexer      - Ruby tokenization",
    "  rbsgen-parser     - Ruby syntax trees",
    "  rbsgen-collector  - class_attribute / delegate discovery",
    "  rbsgen-types      - RBS types and signature loading",
    "  rbsgen-resolver   - Delegate signature resolution",
    "  rbsgen-driver     - Generation pipeline",
    "",
    "Declarations:",
    "  class_attribute :name, ... [instance_accessor:, instance_reader:,",
    "                              instance_writer:, instance_predicate:]",
    "  delegate :name, ..., to: :target [prefix:, private:]",
    "",
    "Environment:",
    "  RBSGEN_SIG_PATH    Signature directories (':' separated)",
    "  RBSGEN_OUTPUT_DIR  Output directory (default: " ++ Settings.defaultOutputDir ++ ")",
    "  RBSGEN_JOBS        Worker threads"]

/-- How the program is used. -/
def helpLines : List String :=
  ["Usage: rbsgen [-v] generate [-s DIR]... [-o DIR] [-j N] [--no-core] PATH...",
    "       rbsgen [-v] parse [--json] FILE",
    "       rbsgen [-v] lex FILE",
    "       rbsgen [-v] info"]

def executeLex (tree : Tree) (file : String) : Outcome :=
  match tree.readText file with
  | .error error => .unreadable tree error
  | .ok source =>
    .counting tree (tokenListing file source) (Source.lexErrors source).length "lexer errors"

def executeParse (tree : Tree) (file : String) (json : Bool) : Outcome :=
  match tree.readText file with
  | .error error => .unreadable tree error
  | .ok source =>
    let parsed := Source.parse source
    let lines :=
      if json then [(declarationDump (.collect parsed.file)).pretty]
      else declarationListing file source parsed
    .counting tree lines parsed.errors.length "parse errors"

/-- An error or warning of a run. The source is read again for the line it points to. -/
def runDiagnosticLines (tree : Tree) (severity : String) (diagnostic : Diagnostic) :
    List String :=
  match diagnostic.file with
  | none => ["  " ++ severity ++ ": " ++ diagnostic.message]
  | some file =>
    let source := (tree.readText file).toOption.getD ""
    diagnosticLines severity diagnostic.message file source
      (diagnostic.span.filter fun span => span.stop ≤ Text.byteLength source.toList)

/-- What is printed at the end of a run. -/
def runLines (tree : Tree) (result : RunResult) : List String :=
  let warnings := toString result.warnings.length ++ " warning(s)"
  result.warnings.flatMap (runDiagnosticLines tree "warning") ++
    result.errors.flatMap (runDiagnosticLines tree "error") ++
    result.written.map ("Wrote " ++ ·) ++
    ["", "Generate complete: " ++
      (if result.success then toString result.written.length ++ " file(s) written, "
        else toString result.errors.length ++ " error(s), ") ++ warnings]

def executeGenerate (lookup : String → Option String) (tree : Tree) (verbose : Bool)
    (request : GenerateRequest) : Outcome :=
  let (given, settingsLog) := Settings.ofVariables lookup
  let outcome := run (request.settings verbose given) tree request.paths
  let log := ((settingsLog ++ outcome.log).filter (LogEntry.isShown verbose)).map LogEntry.line
  match outcome.result with
  | .error error => ⟨unlines log, some error.message, 1, outcome.tree⟩
  | .ok result =>
    .counting outcome.tree (log ++ runLines outcome.tree result) result.errors.length
      "errors found"

def perform (lookup : String → Option String) (tree : Tree) (verbose : Bool) :
    Command → Outcome
  | .generate request => executeGenerate lookup tree verbose request
  | .parse file json => executeParse tree file json
  | .lex file => executeLex tree file
  | .info => .printing tree infoLines

/-- Does what a command line asks for, given the environment variables and the files. -/
def execute (lookup : String → Option String) (tree : Tree) (words : List String) : Outcome :=
  match Request.parse words with
  | .error error => ⟨"", some error.message, 2, tree⟩
  | .ok .help => .printing tree helpLines
  | .ok .version => .printing tree ["rbsgen " ++ versionText]
  | .ok (.perform verbose command) => perform lookup tree verbose command

def Command.reads (lookup : String → Option String) : Command → List String
  | .generate request =>
    request.paths ++ (request.settings false (Settings.ofVariables lookup).1).signaturePaths
  | .parse file _ | .lex file => [file]
  | .info => []

end DeclaredMethods.CommandLine
