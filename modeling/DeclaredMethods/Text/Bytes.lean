/-!
# Byte positions in a text

Positions are byte offsets into the UTF-8 form of a text. A text is handled as its list of
characters, so an offset is the sum of the byte lengths of the characters before it.
-/

namespace DeclaredMethods.Text

/-- Number of bytes of the UTF-8 form. -/
def byteLength (text : List Char) : Nat :=
  text.foldr (fun c length => c.utf8Size + length) 0

@[simp] theorem byteLength_nil : byteLength [] = 0 := rfl

@[simp] theorem byteLength_cons (c : Char) (text : List Char) :
    byteLength (c :: text) = c.utf8Size + byteLength text := rfl

@[simp] theorem byteLength_append (left right : List Char) :
    byteLength (left ++ right) = byteLength left + byteLength right := by
  induction left with
  | nil => rw [List.nil_append, byteLength_nil, Nat.zero_add]
  | cons c left ih =>
    rw [List.cons_append, byteLength_cons, byteLength_cons, ih, Nat.add_assoc]

/-- The characters that start at a byte offset of at least `start` and below `stop`, when the
first character of the text stands at `offset`. -/
def sliceFrom (offset start stop : Nat) : List Char → List Char
  | [] => []
  | c :: text =>
    let rest := sliceFrom (offset + c.utf8Size) start stop text
    if start ≤ offset && offset < stop then c :: rest else rest

def slice (text : String) (start stop : Nat) : String :=
  String.ofList (sliceFrom 0 start stop text.toList)

/-- One-based line and column, counted in bytes, reached after the characters that start before
`target`; `line` and `column` belong to the first character of the text, at byte `offset`. -/
def lineColumnFrom (target offset line column : Nat) : List Char → Nat × Nat
  | [] => (line, column + (target - offset))
  | c :: text =>
    if offset + c.utf8Size ≤ target then
      if c = '\n' then lineColumnFrom target (offset + 1) (line + 1) 1 text
      else lineColumnFrom target (offset + c.utf8Size) line (column + c.utf8Size) text
    else (line, column + (target - offset))

/-- One-based line and column of a byte offset. An offset behind the text counts as its end. -/
def lineColumn (text : String) (offset : Nat) : Nat × Nat :=
  lineColumnFrom (min offset (byteLength text.toList)) 0 1 1 text.toList

/-- The lines of a text, each with the line feed that ends it; the last one may have none. -/
def splitLines : List Char → List (List Char)
  | [] => []
  | c :: text =>
    if c = '\n' then ['\n'] :: splitLines text
    else
      match splitLines text with
      | [] => [[c]]
      | line :: lines => (c :: line) :: lines

/-- A line without the line feed that ends it, or the carriage return and line feed. -/
def dropLineEnd (line : List Char) : List Char :=
  if line.getLast? = some '\n' then
    let inner := line.dropLast
    if inner.getLast? = some '\r' then inner.dropLast else inner
  else line

def lines (text : String) : List String :=
  (splitLines text.toList).map fun line => String.ofList (dropLineEnd line)

end DeclaredMethods.Text
