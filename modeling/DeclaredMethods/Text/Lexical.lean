/-!
# Names, digits and quotes

The classes of characters that names and numbers are made of, and the extent of literals that
stand between two marks.
-/

namespace DeclaredMethods.Text

def isNameStart (c : Char) : Bool :=
  c.isAlpha || c == '_'

def isNameChar (c : Char) : Bool :=
  c.isAlphanum || c == '_'

/-- Number of characters of a variable name behind its sigil, if a name stands there. -/
def sigilNameLength? (text : List Char) : Option Nat :=
  match text with
  | c :: _ => if isNameStart c then some (text.takeWhile isNameChar).length else none
  | [] => none

def digitValue (c : Char) : Nat :=
  if c.isDigit then c.toNat - '0'.toNat
  else if 'a' ≤ c then c.toNat - 'a'.toNat + 10
  else c.toNat - 'A'.toNat + 10

/-- The value of a run of digits, in which underscores count for nothing. -/
def digitsValue (base : Nat) (digits : List Char) : Nat :=
  (digits.filter (· != '_')).foldl (fun value c => value * base + digitValue c) 0

/-- Number of characters inside a delimited literal before its closing mark, and whether the
closing mark was found. A backslash takes the following character with it, which must not be a
line feed. -/
def quotedLength (close : Char) : List Char → Nat × Bool
  | [] => (0, false)
  | '\\' :: [] => (0, false)
  | '\\' :: c :: text =>
    if c = '\n' then (0, false)
    else
      let (length, closed) := quotedLength close text
      (length + 2, closed)
  | c :: text =>
    if c = close then (0, true)
    else
      let (length, closed) := quotedLength close text
      (length + 1, closed)

/-- Number of characters before a closing mark, and whether it was found. -/
def enclosedLength (close : Char) (text : List Char) : Nat × Bool :=
  let length := (text.takeWhile (· != close)).length
  (length, length < text.length)

end DeclaredMethods.Text
