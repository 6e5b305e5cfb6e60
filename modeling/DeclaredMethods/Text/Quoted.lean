import DeclaredMethods.Text.Hidden

/-!
# Quoted texts

A text is shown between double quotes. A quote, a backslash and the common control characters
have short escapes; any other character that has no visible form of its own is shown by its code
point in hexadecimal.
-/

namespace DeclaredMethods.Text

def escapeChar (c : Char) : List Char :=
  if c = '"' then ['\\', '"']
  else if c = '\\' then ['\\', '\\']
  else if c = '\n' then ['\\', 'n']
  else if c = '\r' then ['\\', 'r']
  else if c = '\t' then ['\\', 't']
  else if c.toNat = 0 then ['\\', '0']
  else if isHidden c then ['\\', 'u', '{'] ++ Nat.toDigits 16 c.toNat ++ ['}']
  else [c]

def quote (text : String) : String :=
  String.ofList ('"' :: (text.toList.flatMap escapeChar ++ ['"']))

/-- A text between double quotes, in which single quotes are escaped too. -/
def quoteAll (text : String) : String :=
  String.ofList ('"' :: (text.toList.flatMap (fun c =>
    if c = '\x27' then ['\\', c] else escapeChar c) ++ ['"']))

end DeclaredMethods.Text
