import DeclaredMethods.Log
import DeclaredMethods.Text.Blank
import DeclaredMethods.Text.Lexical
import DeclaredMethods.Text.Quoted

/-!
# Settings

Where signatures are read from and written to. Settings start from environment variables, and
what is given on the command line wins over them.
-/

namespace DeclaredMethods

structure Settings where
  /-- Directories with signature files, in the order in which they are loaded. -/
  signaturePaths : List String
  /-- Where documents are written to. -/
  outputDir : String
  /-- Number of workers, if it is given. -/
  jobs : Option Nat
  /-- Whether the core signatures are loaded first. -/
  core : Bool
  verbose : Bool
deriving DecidableEq

namespace Settings

/-- The directory that documents are written to unless another one is given. -/
def defaultOutputDir : String := "sig/rbsgen"

def default : Settings := ⟨[], defaultOutputDir, none, true, false⟩

def signaturePathVariable : String := "RBSGEN_SIG_PATH"

def outputDirVariable : String := "RBSGEN_OUTPUT_DIR"

def jobsVariable : String := "RBSGEN_JOBS"

/-- The parts of a text between colons, where `part` holds the characters read since the last
one. -/
def splitColon (part : List Char) : List Char → List (List Char)
  | [] => [part]
  | c :: text => if c = ':' then part :: splitColon [] text else splitColon (part ++ [c]) text

def listedPaths (text : String) : List String :=
  ((splitColon [] text.toList).filter fun part => !part.isEmpty).map String.ofList

/-- A natural number below 2^64 that is written with decimal digits and at most a plus sign. -/
def readCount? (text : List Char) : Option Nat :=
  let digits :=
    match text with
    | '+' :: digits => digits
    | digits => digits
  if digits.isEmpty || !digits.all Char.isDigit then none
  else
    let value := Text.digitsValue 10 digits
    if value < 1 <<< 64 then some value else none

/-- A number of workers that is written in a text, which must not be zero. -/
def readJobs? (text : String) : Option Nat :=
  match readCount? (Text.trimBlank text.toList) with
  | some 0 | none => none
  | some jobs => some jobs

/-- The settings that environment variables give, and what is noted about them. -/
def ofVariables (lookup : String → Option String) : Settings × List LogEntry :=
  let outputDir :=
    match lookup outputDirVariable with
    | some dir => if dir.isEmpty then defaultOutputDir else dir
    | none => defaultOutputDir
  let given := lookup jobsVariable
  let settings : Settings :=
    { default with
      signaturePaths := ((lookup signaturePathVariable).map listedPaths).getD []
      outputDir := outputDir
      jobs := given.bind readJobs? }
  let log : List LogEntry :=
    match given with
    | some text =>
      if (readJobs? text).isNone then
        [⟨.warn, .settings, "Ignoring invalid " ++ jobsVariable ++ " value " ++ Text.quoteAll text⟩]
      else []
    | none => []
  (settings, log)

def addSignaturePath (settings : Settings) (path : String) : Settings :=
  { settings with signaturePaths := settings.signaturePaths ++ [path] }

end Settings

end DeclaredMethods
