import DeclaredMethods.Settings

/-!
# Command-line arguments

A command line names one command. Options stand in front of, between or behind the other
arguments of their command, as words of their own or as letters that share one dash; behind a
bare double dash there are none.
-/

namespace DeclaredMethods.CommandLine

/-- What signatures are to be generated for, and what is given on the command line in place of
settings. -/
structure GenerateRequest where
  paths : List String
  signaturePaths : List String
  outputDir : Option String
  jobs : Option Nat
  noCore : Bool

/-- What the program can be asked to do. -/
inductive Command where
  | generate (request : GenerateRequest)
  | parse (file : String) (json : Bool)
  | lex (file : String)
  | info

inductive Request where
  | perform (verbose : Bool) (command : Command)
  | help
  | version

inductive UsageError where
  | unknownOption (option : String)
  | unexpectedValue (option : String)
  | missingValue (option : String)
  | invalidValue (option value : String)
  | repeated (option : String)
  | unexpected (argument : String)
  | missing (argument : String)
deriving DecidableEq

def UsageError.message : UsageError → String
  | unknownOption option => "unknown option " ++ option
  | unexpectedValue option => option ++ " takes no value"
  | missingValue option => option ++ " needs a value"
  | invalidValue option value => "invalid value for " ++ option ++ ": " ++ value
  | repeated option => option ++ " is given twice"
  | unexpected argument => "unexpected argument " ++ argument
  | missing argument => "missing " ++ argument

inductive OptionName where
  | verbose
  | help
  | version
  | signatures
  | output
  | jobs
  | noCore
  | json
deriving DecidableEq

namespace OptionName

def letter? : OptionName → Option Char
  | verbose => some 'v'
  | help => some 'h'
  | version => some 'V'
  | signatures => some 's'
  | output => some 'o'
  | jobs => some 'j'
  | noCore | json => none

def word : OptionName → String
  | verbose => "--verbose"
  | help => "--help"
  | version => "--version"
  | signatures => "--sig"
  | output => "--output"
  | jobs => "--jobs"
  | noCore => "--no-core"
  | json => "--json"

def takesValue : OptionName → Bool
  | signatures | output | jobs => true
  | _ => false

end OptionName

inductive Argument where
  | flag (option : OptionName)
  | value (option : OptionName) (text : String)
  | positional (text : String)

/-- What one word of a command line holds: complete parts, and perhaps an option whose value is
the next word. -/
structure WordReading where
  parts : List Argument
  pending : Option OptionName

/-- Reads letters that share a dash. A letter whose option takes a value takes the letters behind
it, with or without an equals sign, or else the next word. -/
def readLetters (known : List OptionName) : List Char → Except UsageError WordReading
  | [] => .ok ⟨[], none⟩
  | c :: letters =>
    match known.find? fun option => option.letter? == some c with
    | none => .error (.unknownOption (String.ofList ['-', c]))
    | some option =>
      if option.takesValue then
        match letters with
        | [] => .ok ⟨[], some option⟩
        | '=' :: value => .ok ⟨[.value option (String.ofList value)], none⟩
        | value => .ok ⟨[.value option (String.ofList value)], none⟩
      else do
        let reading ← readLetters known letters
        return { reading with parts := .flag option :: reading.parts }

/-- The part of a word in front of its first equals sign, and the part behind it. -/
def splitEquals (word : List Char) : String × Option String :=
  let name := word.takeWhile (· != '=')
  match word.drop name.length with
  | [] => (String.ofList name, none)
  | _ :: value => (String.ofList name, some (String.ofList value))

def readLong (known : List OptionName) (word : String) : Except UsageError WordReading :=
  let (name, value) := splitEquals word.toList
  match known.find? fun option => option.word == name, value with
  | none, _ => .error (.unknownOption name)
  | some option, none =>
    .ok (if option.takesValue then ⟨[], some option⟩ else ⟨[.flag option], none⟩)
  | some option, some value =>
    if option.takesValue then .ok ⟨[.value option value], none⟩
    else .error (.unexpectedValue name)

/-- Whether a word is an option or several. A single dash is none. -/
def isOption (word : String) : Bool :=
  match word.toList with
  | '-' :: _ :: _ => true
  | _ => false

def readWord (known : List OptionName) (word : String) : Except UsageError WordReading :=
  match word.toList with
  | '-' :: '-' :: _ => readLong known word
  | '-' :: c :: letters => readLetters known (c :: letters)
  | _ => .ok ⟨[.positional word], none⟩

def readArguments (known : List OptionName) : List String → Except UsageError (List Argument)
  | [] => .ok []
  | word :: words =>
    if word == "--" then .ok (words.map .positional)
    else
      match readWord known word with
      | .error error => .error error
      | .ok ⟨parts, none⟩ => (readArguments known words).map (parts ++ ·)
      | .ok ⟨parts, some option⟩ =>
        match words with
        | [] => .error (.missingValue option.word)
        | value :: words =>
          if isOption value then .error (.missingValue option.word)
          else (readArguments known words).map fun rest => parts ++ .value option value :: rest

def positionals (arguments : List Argument) : List String :=
  arguments.filterMap fun
    | .positional text => some text
    | _ => none

def optionValues (option : OptionName) (arguments : List Argument) : List String :=
  arguments.filterMap fun
    | .value other text => if other = option then some text else none
    | _ => none

/-- How often an option without a value is given. -/
def flagCount (option : OptionName) (arguments : List Argument) : Nat :=
  (arguments.filter fun
    | .flag other => other = option
    | _ => false).length

/-- Whether an option without a value is given, which must not be twice. -/
def readFlag (arguments : List Argument) (option : OptionName) : Except UsageError Bool :=
  match flagCount option arguments with
  | 0 => .ok false
  | 1 => .ok true
  | _ => .error (.repeated option.word)

/-- A path, which must not be empty. -/
def readPath (argument path : String) : Except UsageError String :=
  if path.isEmpty then .error (.invalidValue argument path) else .ok path

def readValue? (arguments : List Argument) (option : OptionName) :
    Except UsageError (Option String) :=
  match optionValues option arguments with
  | [] => .ok none
  | [value] => .ok (some value)
  | _ => .error (.repeated option.word)

/-- The number of workers that is given. -/
def readJobs (arguments : List Argument) : Except UsageError (Option Nat) := do
  match ← readValue? arguments .jobs with
  | none => return none
  | some value =>
    match Settings.readCount? value.toList with
    | some jobs => return some jobs
    | none => throw (.invalidValue OptionName.jobs.word value)

def readGenerate (arguments : List Argument) : Except UsageError Command := do
  let paths ← (positionals arguments).mapM (readPath "path")
  if paths.isEmpty then
    throw (.missing "path")
  let signaturePaths ← (optionValues .signatures arguments).mapM
    (readPath OptionName.signatures.word)
  let outputDir ← (← readValue? arguments .output).mapM (readPath OptionName.output.word)
  let jobs ← readJobs arguments
  let noCore ← readFlag arguments .noCore
  return .generate ⟨paths, signaturePaths, outputDir, jobs, noCore⟩

def readFileArgument (arguments : List Argument) : Except UsageError String :=
  match positionals arguments with
  | [] => .error (.missing "file")
  | [file] => readPath "file" file
  | _ :: other :: _ => .error (.unexpected other)

def commandReader? :
    String → Option (List OptionName × (List Argument → Except UsageError Command))
  | "generate" => some ([.signatures, .output, .jobs, .noCore], readGenerate)
  | "parse" => some ([.json], fun arguments => do
      return .parse (← readFileArgument arguments) (← readFlag arguments .json))
  | "lex" => some ([], fun arguments => do return .lex (← readFileArgument arguments))
  | "info" => some ([], fun arguments =>
      match positionals arguments with
      | [] => .ok .info
      | other :: _ => .error (.unexpected other))
  | _ => none

def readCommand (verbose : Bool) (name : String) (words : List String) :
    Except UsageError Request := do
  match commandReader? name with
  | none => if name == "help" then return .help else throw (.unexpected name)
  | some (options, reader) =>
    let arguments ← readArguments (options ++ [.verbose, .help]) words
    if flagCount .help arguments != 0 then
      return .help
    let verboseHere ← readFlag arguments .verbose
    return .perform (verbose || verboseHere) (← reader arguments)

/-- Reads a whole command line, where `flags` holds the options in front of the command. -/
def readRequest (flags : List Argument) : List String → Except UsageError Request
  | [] => do
    if flagCount .help flags != 0 then
      return .help
    throw (.missing "command")
  | word :: words =>
    if isOption word then
      match readWord [.verbose, .help, .version] word with
      | .error error => .error error
      | .ok reading =>
        let flags := flags ++ reading.parts
        if flagCount .help flags != 0 then .ok .help
        else if flagCount .version flags != 0 then .ok .version
        else readRequest flags words
    else do
      let verbose ← readFlag flags .verbose
      readCommand verbose word words

def Request.parse (words : List String) : Except UsageError Request :=
  readRequest [] words

/-- The settings of a `generate` command: what is given on the command line wins. -/
def GenerateRequest.settings (request : GenerateRequest) (verbose : Bool)
    (settings : Settings) : Settings where
  signaturePaths :=
    if request.signaturePaths.isEmpty then settings.signaturePaths else request.signaturePaths
  outputDir := request.outputDir.getD settings.outputDir
  jobs := request.jobs.or settings.jobs
  core := settings.core && !request.noCore
  verbose := verbose

end DeclaredMethods.CommandLine
