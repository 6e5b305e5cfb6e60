import DeclaredMethods.OrderedMap
import DeclaredMethods.Text.Decimal
import DeclaredMethods.Text.Quoted

/-!
# Literal values

The values that the arguments of a declaration call can be written as, and how they are shown.
-/

namespace DeclaredMethods

inductive HashKey where
  | nil
  | bool (value : Bool)
  | int (value : Int)
  | str (value : String)
  | symbol (name : String)
deriving DecidableEq

inductive Value where
  | nil
  | bool (value : Bool)
  | int (value : Int)
  | float (value : Float)
  | str (value : String)
  | symbol (name : String)
  | array (items : List Value)
  | hash (entries : OrderedMap HashKey Value)

/-- A truth value as it is written. -/
def boolText (value : Bool) : String :=
  if value then "true" else "false"

def HashKey.text : HashKey → String
  | nil => "nil"
  | bool value => boolText value
  | int value => toString value
  | str value => Text.quote value
  | symbol name => ":" ++ name

def HashKey.value : HashKey → Value
  | nil => .nil
  | bool value => .bool value
  | int value => .int value
  | str value => .str value
  | symbol name => .symbol name

namespace Value

def key? : Value → Option HashKey
  | nil => some .nil
  | bool value => some (.bool value)
  | int value => some (.int value)
  | str value => some (.str value)
  | symbol name => some (.symbol name)
  | float _ | array _ | hash _ => none

/-- Whether a value counts as true: everything but `nil` and `false` does. -/
def isTruthy : Value → Bool
  | nil => false
  | bool value => value
  | _ => true

def symbol? : Value → Option String
  | symbol name => some name
  | _ => none

def name? : Value → Option String
  | symbol name => some name
  | str value => some value
  | _ => none

mutual

def text : Value → String
  | nil => "nil"
  | bool value => boolText value
  | int value => toString value
  | float value => Text.floatText .shown value
  | str value => Text.quote value
  | symbol name => ":" ++ name
  | array items => "[" ++ ", ".intercalate (itemTexts items) ++ "]"
  | hash entries => mapText entries

def itemTexts : List Value → List String
  | [] => []
  | item :: items => text item :: itemTexts items

def mapText : OrderedMap HashKey Value → String
  | ⟨[]⟩ => "\x7b\x7d"
  | ⟨entries⟩ => "\x7b" ++ ",".intercalate (entryTexts entries) ++ " \x7d"

def entryTexts : List (HashKey × Value) → List String
  | [] => []
  | entry :: entries => entryText entry :: entryTexts entries

def entryText : HashKey × Value → String
  | (key, value) => " " ++ key.text ++ " => " ++ text value

end

end Value

end DeclaredMethods
