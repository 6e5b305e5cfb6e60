import DeclaredMethods.Text.Padded

/-!
# The log

What the generator notes while it works. An entry is one line that names its level and the part
of the generator that wrote it. Control characters that a terminal would act on are shown by
their codes.
-/

namespace DeclaredMethods

/-- How important an entry is. -/
inductive LogLevel where
  | debug
  | info
  | warn
deriving DecidableEq

def LogLevel.label : LogLevel → String
  | debug => "DEBUG"
  | info => "INFO"
  | warn => "WARN"

/-- The part of the generator that an entry comes from. -/
inductive LogOrigin where
  | settings
  | run
  | document
  | search
deriving DecidableEq

def LogOrigin.label : LogOrigin → String
  | settings => "rbsgen_driver::config"
  | run => "rbsgen_driver"
  | document => "rbsgen_driver::generator"
  | search => "rbsgen_resolver::searcher"

structure LogEntry where
  level : LogLevel
  origin : LogOrigin
  message : String
deriving DecidableEq

/-- The form in which a character of a message is written. -/
def loggedChar (c : Char) : List Char :=
  let n := c.toNat
  if n = 0x1b ∨ n = 0x07 ∨ n = 0x08 ∨ n = 0x0c ∨ n = 0x7f then
    ['\\', 'x'] ++ (if n < 0x10 then ['0'] else []) ++ Nat.toDigits 16 n
  else if 0x80 ≤ n ∧ n ≤ 0x9f then ['\\', 'u', '\x7b'] ++ Nat.toDigits 16 n ++ ['\x7d']
  else [c]

namespace LogEntry

def line (entry : LogEntry) : String :=
  Text.padLeft 5 entry.level.label ++ " " ++ entry.origin.label ++ ": " ++
    String.ofList (entry.message.toList.flatMap loggedChar)

/-- Whether an entry is shown: warnings always, the others on request. -/
def isShown (verbose : Bool) (entry : LogEntry) : Bool :=
  verbose || entry.level == .warn

end LogEntry

end DeclaredMethods
