import DeclaredMethods.Signature.Token
import DeclaredMethods.Text.Lexical

/-!
# Reading tokens of signatures

A signature is cut into lexemes from left to right, the longest token first. Blanks, comments and
annotations are skipped, and a piece that is no token is invalid. As in source texts, a literal
or annotation that has been opened must be closed.
-/

namespace DeclaredMethods.Signature

open Text (isNameStart isNameChar digitsValue quotedLength enclosedLength sigilNameLength?)

inductive Reading where
  | skipped
  | token (kind : TokenKind)
  | invalid

/-- A piece at the head of a text: its number of characters and what it is. -/
structure Lexeme where
  length : Nat
  reading : Reading

/-- One character that starts no token. -/
def Lexeme.stray : Lexeme :=
  ⟨1, .invalid⟩

/-- A blank between tokens. -/
def isGap (c : Char) : Bool :=
  c == ' ' || c == '\t' || c == '\r' || c == '\n' || c == '\x0c'

def markLexeme (text : List Char) : Lexeme :=
  match Mark.byLength.find? fun mark => mark.spelling.isPrefixOf text with
  | some mark => ⟨mark.spelling.length, .token (.mark mark)⟩
  | none => .stray

/-- A word that starts with a letter or underscore. -/
def wordLexeme (first : Char) (text : List Char) : Lexeme :=
  let name := first :: text.takeWhile isNameChar
  ⟨name.length, .token (.ident (String.ofList name))⟩

/-- The least and the largest integer that can be written: those of 64 bits. -/
def integerLimits : Int × Int := (-9223372036854775808, 9223372036854775807)

/-- An integer literal of the given length and value, which is invalid beyond the limits. -/
def integerLexeme (length : Nat) (value : Int) : Lexeme :=
  if integerLimits.1 ≤ value ∧ value ≤ integerLimits.2 then ⟨length, .token (.int value)⟩
  else ⟨length, .invalid⟩

def digitRun (text : List Char) : List Char :=
  text.takeWhile fun c => c.isDigit || c == '_'

/-- What starts with a digit. -/
def numberLexeme (first : Char) (text : List Char) : Lexeme :=
  let digits := first :: digitRun text
  integerLexeme digits.length (digitsValue 10 digits)

/-- What starts with a minus sign: a negative integer, an arrow or the operator. -/
def minusLexeme (text : List Char) : Lexeme :=
  match text with
  | c :: rest =>
    if c.isDigit then
      let digits := c :: digitRun rest
      integerLexeme (digits.length + 1) (-(digitsValue 10 digits : Int))
    else markLexeme ('-' :: text)
  | [] => markLexeme ['-']

/-- Decodes the inside of a quoted text: a backslash stands for the character behind it. -/
def unquote : List Char → List Char
  | [] => []
  | '\\' :: c :: text => c :: unquote text
  | c :: text => c :: unquote text

/-- A literal whose opening of `opening` characters has been read, up to its closing quote. -/
def quotedLexeme (opening : Nat) (quote : Char) (text : List Char)
    (make : String → TokenKind) : Lexeme :=
  let (length, closed) := quotedLength quote text
  if closed then ⟨opening + length + 1, .token (make (String.ofList (unquote (text.take length))))⟩
  else ⟨opening + length, .invalid⟩

/-- An identifier between backticks, which is not empty and stays on its line. -/
def backtickLexeme (text : List Char) : Lexeme :=
  let name := text.takeWhile fun c => c != '\x60' && c != '\n'
  match name, text.drop name.length with
  | _ :: _, '\x60' :: _ => ⟨name.length + 2, .token (.ident (String.ofList name))⟩
  | _, _ => ⟨name.length + 1, .invalid⟩

/-- What starts with an at sign: a variable, or the mark. -/
def atLexeme (text : List Char) : Lexeme :=
  match text with
  | '@' :: name =>
    match sigilNameLength? name with
    | some length =>
      ⟨length + 2, .token (.instanceVar (String.ofList ('@' :: '@' :: name.take length)))⟩
    | none => markLexeme ('@' :: text)
  | _ =>
    match sigilNameLength? text with
    | some length => ⟨length + 1, .token (.instanceVar (String.ofList ('@' :: text.take length)))⟩
    | none => markLexeme ('@' :: text)

/-- What starts with a dollar sign: a global variable. -/
def dollarLexeme (text : List Char) : Lexeme :=
  match sigilNameLength? text with
  | some length => ⟨length + 1, .token (.globalVar (String.ofList ('$' :: text.take length)))⟩
  | none => .stray

/-- Number of characters of a symbol name: a name and the one mark that may end it. -/
def symbolLength (text : List Char) : Nat :=
  let length := (text.takeWhile isNameChar).length
  match text.drop length with
  | '?' :: _ | '!' :: _ | '=' :: _ => length + 1
  | _ => length

/-- What starts with a colon: a symbol, or a colon mark. -/
def colonLexeme (text : List Char) : Lexeme :=
  match text with
  | '"' :: inside => quotedLexeme 2 '"' inside .symbol
  | c :: _ =>
    if isNameStart c then
      let length := symbolLength text
      ⟨length + 1, .token (.symbol (String.ofList (text.take length)))⟩
    else markLexeme (':' :: text)
  | [] => markLexeme [':']

/-- An annotation whose opening has been read, up to its closing mark. -/
def annotationLexeme (close : Char) (text : List Char) : Lexeme :=
  let (length, closed) := enclosedLength close text
  if closed then ⟨length + 4, .skipped⟩ else ⟨length + 3, .invalid⟩

/-- What starts with a percent sign: an annotation, or the operator. -/
def percentLexeme (text : List Char) : Lexeme :=
  match text with
  | 'a' :: '\x7b' :: inside => annotationLexeme '\x7d' inside
  | 'a' :: '(' :: inside => annotationLexeme ')' inside
  | 'a' :: '[' :: inside => annotationLexeme ']' inside
  | _ => markLexeme ('%' :: text)

def lexemeAt (first : Char) (text : List Char) : Lexeme :=
  match first with
  | '#' => ⟨1 + (text.takeWhile (· != '\n')).length, .skipped⟩
  | '"' => quotedLexeme 1 '"' text .str
  | '\x27' => quotedLexeme 1 '\x27' text .str
  | '\x60' => backtickLexeme text
  | ':' => colonLexeme text
  | '@' => atLexeme text
  | '$' => dollarLexeme text
  | '%' => percentLexeme text
  | '-' => minusLexeme text
  | c =>
    if isGap c then ⟨1 + (text.takeWhile isGap).length, .skipped⟩
    else if c.isDigit then numberLexeme c text
    else if isNameStart c then wordLexeme c text
    else markLexeme (c :: text)

/-- The tokens of a text whose first character stands at byte `offset`, and the places of its
invalid pieces. Every lexeme takes at least one character, so the number of characters bounds
the number of lexemes. -/
def scanFrom : Nat → Nat → List Char → List (Except Span Token)
  | _, _, [] => []
  | 0, _, _ :: _ => []
  | bound + 1, offset, first :: text =>
    let lexeme := lexemeAt first text
    let taken := (first :: text).take lexeme.length
    let stop := offset + Text.byteLength taken
    let rest := scanFrom bound stop ((first :: text).drop lexeme.length)
    match lexeme.reading with
    | .skipped => rest
    | .token kind => .ok ⟨kind, ⟨offset, stop⟩, String.ofList taken⟩ :: rest
    | .invalid => .error ⟨offset, stop⟩ :: rest

def scan (source : String) : List (Except Span Token) :=
  scanFrom source.toList.length 0 source.toList

def firstInvalid? : List (Except Span Token) → Option Span
  | [] => none
  | .ok _ :: rest => firstInvalid? rest
  | .error span :: _ => some span

/-- The tokens in front of the first invalid piece. -/
def validTokens : List (Except Span Token) → List Token
  | .ok token :: rest => token :: validTokens rest
  | _ => []

end DeclaredMethods.Signature
