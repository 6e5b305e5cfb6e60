/-!
# Padded and shortened texts

Columns of listings: a text is padded with blanks to a width, and cut off behind a number of
characters.
-/

namespace DeclaredMethods.Text

def padLeft (width : Nat) (text : String) : String :=
  String.ofList (List.replicate (width - text.toList.length) ' ') ++ text

def padRight (width : Nat) (text : String) : String :=
  text ++ String.ofList (List.replicate (width - text.toList.length) ' ')

/-- The first `most` characters of a text, with dots for the rest. -/
def shorten (most : Nat) (text : String) : String :=
  if text.toList.length ≤ most then text else String.ofList (text.toList.take most) ++ "..."

end DeclaredMethods.Text
