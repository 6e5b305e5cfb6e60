/-!
# JSON

JSON values with the fields of objects in a fixed order, and their text over several lines with
two blanks for every level.
-/

namespace DeclaredMethods.Text

inductive Json where
  | null
  | bool (value : Bool)
  | int (value : Int)
  /-- A number by its text. -/
  | decimal (text : String)
  | str (text : String)
  | array (items : List Json)
  | object (fields : List (String × Json))

namespace Json

def ofOption {α : Type} (encode : α → Json) : Option α → Json
  | none => null
  | some value => encode value

def strings (texts : List String) : Json :=
  array (texts.map str)

def escapeChar (c : Char) : List Char :=
  if c = '"' then ['\\', '"']
  else if c = '\\' then ['\\', '\\']
  else if c = '\n' then ['\\', 'n']
  else if c = '\r' then ['\\', 'r']
  else if c = '\t' then ['\\', 't']
  else if c = '\x08' then ['\\', 'b']
  else if c = '\x0c' then ['\\', 'f']
  else if c.toNat < 0x20 then
    ['\\', 'u', '0', '0'] ++ (if c.toNat < 0x10 then ['0'] else []) ++ Nat.toDigits 16 c.toNat
  else [c]

def quote (text : String) : String :=
  String.ofList ('"' :: (text.toList.flatMap escapeChar ++ ['"']))

def lineBreak (level : Nat) : String :=
  "\n" ++ String.ofList (List.replicate (2 * level) ' ')

def enclosed (level : Nat) (opening closing : String) (items : List String) : String :=
  if items.isEmpty then opening ++ closing
  else
    opening ++ ",".intercalate (items.map (lineBreak (level + 1) ++ ·)) ++ lineBreak level ++
      closing

mutual

def prettyAt (level : Nat) : Json → String
  | null => "null"
  | bool value => if value then "true" else "false"
  | int value => toString value
  | decimal text => text
  | str text => quote text
  | array items => enclosed level "[" "]" (prettyItems (level + 1) items)
  | object fields => enclosed level "\x7b" "\x7d" (prettyFields (level + 1) fields)

def prettyItems (level : Nat) : List Json → List String
  | [] => []
  | item :: items => prettyAt level item :: prettyItems level items

def prettyFields (level : Nat) : List (String × Json) → List String
  | [] => []
  | field :: fields => prettyField level field :: prettyFields level fields

def prettyField (level : Nat) : String × Json → String
  | (key, value) => quote key ++ ": " ++ prettyAt level value

end

def pretty (value : Json) : String :=
  prettyAt 0 value

end Json

end DeclaredMethods.Text
