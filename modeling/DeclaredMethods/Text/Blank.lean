/-!
# Blank characters

The characters with the Unicode property `White_Space`, and splitting a text at runs of them.
-/

namespace DeclaredMethods.Text

/-- A character with the Unicode property `White_Space`. -/
def isBlank (c : Char) : Bool :=
  let n := c.toNat
  (0x09 ≤ n && n ≤ 0x0d) || n == 0x20 || n == 0x85 || n == 0xa0 || n == 0x1680 ||
    (0x2000 ≤ n && n ≤ 0x200a) || n == 0x2028 || n == 0x2029 || n == 0x202f || n == 0x205f ||
    n == 0x3000

/-- The maximal runs of characters that are not blank, where `word` holds the run read so far. -/
def splitBlankFrom (word : List Char) : List Char → List (List Char)
  | [] => if word.isEmpty then [] else [word]
  | c :: text =>
    if isBlank c then
      if word.isEmpty then splitBlankFrom [] text else word :: splitBlankFrom [] text
    else splitBlankFrom (word ++ [c]) text

/-- The words of a text: its maximal runs of characters that are not blank. -/
def words (text : List Char) : List String :=
  (splitBlankFrom [] text).map String.ofList

def trimBlank (text : List Char) : List Char :=
  ((text.dropWhile isBlank).reverse.dropWhile isBlank).reverse

end DeclaredMethods.Text
