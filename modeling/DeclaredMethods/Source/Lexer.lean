import DeclaredMethods.Source.Token
import DeclaredMethods.Text.Blank
import DeclaredMethods.Text.Lexical

/-!
# Reading tokens

A source text is cut into lexemes from left to right. At each place the longest token wins, and
a piece that is no token becomes an error that covers it; blanks, line continuations and comments
are skipped. A lexeme only says how many characters it takes, so the lexemes of a text always
make up the whole text.

Once a quote or the opening of a word list has been read there is no way back: when the closing
mark is missing, the error covers everything up to the place where the literal could not go on.
-/

namespace DeclaredMethods.Source

open Text (isNameStart isNameChar digitsValue quotedLength enclosedLength sigilNameLength?)

def isHexDigit (c : Char) : Bool :=
  c.isDigit || ('a' ≤ c && c ≤ 'f') || ('A' ≤ c && c ≤ 'F')

inductive Reading where
  | skipped
  | token (kind : TokenKind)
  | error (kind : LexErrorKind)

/-- A piece at the head of a text: its number of characters and what it is. -/
structure Lexeme where
  length : Nat
  reading : Reading

/-- One character that starts no token. -/
def Lexeme.stray : Lexeme :=
  ⟨1, .error .unexpectedChar⟩

/-- The largest integer that can be written: that of 64 bits with a sign. -/
def maxInteger : Nat := 9223372036854775807

/-- An integer literal of the given length and value; a value that is too large is an error over
the whole literal. -/
def integerLexeme (length value : Nat) : Lexeme :=
  if value ≤ maxInteger then ⟨length, .token (.int value)⟩
  else ⟨length, .error .invalidNumber⟩

/-- The digits of a number with a base mark, which starts with a digit of that base. -/
def basedDigits? (isDigit : Char → Bool) : List Char → Option (List Char)
  | [] => none
  | c :: text =>
    if isDigit c then some (c :: text.takeWhile fun d => isDigit d || d == '_') else none

/-- A number whose first digit is zero and whose second character marks its base. -/
def basedNumber? : List Char → Option Lexeme
  | 'x' :: text =>
    (basedDigits? isHexDigit text).map fun digits =>
      integerLexeme (digits.length + 2) (digitsValue 16 digits)
  | 'b' :: text =>
    (basedDigits? (fun c => c == '0' || c == '1') text).map fun digits =>
      integerLexeme (digits.length + 2) (digitsValue 2 digits)
  | 'o' :: text =>
    (basedDigits? (fun c => '0' ≤ c && c ≤ '7') text).map fun digits =>
      integerLexeme (digits.length + 2) (digitsValue 8 digits)
  | _ => none

def fractionDigits? : List Char → Option (List Char)
  | '.' :: text => basedDigits? Char.isDigit text
  | _ => none

def decimalNumber (first : Char) (text : List Char) : Lexeme :=
  let whole := first :: text.takeWhile fun c => c.isDigit || c == '_'
  match fractionDigits? ((first :: text).drop whole.length) with
  | some fraction =>
    let places := (fraction.filter (· != '_')).length
    ⟨whole.length + 1 + fraction.length,
      .token (.float (Float.ofScientific (digitsValue 10 (whole ++ fraction)) true places))⟩
  | none => integerLexeme whole.length (digitsValue 10 whole)

def numberLexeme (first : Char) (text : List Char) : Lexeme :=
  match if first = '0' then basedNumber? text else none with
  | some lexeme => lexeme
  | none => decimalNumber first text

/-- Number of characters of a name, with the question or exclamation mark that may end it. -/
def suffixedNameLength (text : List Char) : Nat :=
  let length := (text.takeWhile isNameChar).length
  match text.drop length with
  | '?' :: _ => length + 1
  | '!' :: _ => length + 1
  | _ => length

/-- A word that starts with a letter or underscore: a constant, a keyword or an identifier. -/
def wordLexeme (first : Char) (text : List Char) : Lexeme :=
  if first.isUpper then
    let name := first :: text.takeWhile isNameChar
    ⟨name.length, .token (.const (String.ofList name))⟩
  else
    let length := suffixedNameLength (first :: text)
    let name := String.ofList ((first :: text).take length)
    match Keyword.ofSpelling? name with
    | some keyword => ⟨length, .token (.keyword keyword)⟩
    | none => ⟨length, .token (.ident name)⟩

/-- The character that a backslash and a letter stand for between double quotes. -/
def escapedChar : Char → Char
  | 'n' => '\n'
  | 't' => '\t'
  | 'r' => '\r'
  | '0' => '\x00'
  | 's' => ' '
  | 'e' => '\x1b'
  | c => c

/-- Decodes the inside of a text between double quotes. -/
def unescape : List Char → List Char
  | [] => []
  | '\\' :: c :: text => escapedChar c :: unescape text
  | c :: text => c :: unescape text

/-- Decodes the inside of a text between single quotes, where only a backslash and a quote can
be escaped. -/
def unescapeSingle : List Char → List Char
  | [] => []
  | '\\' :: '\\' :: text => '\\' :: unescapeSingle text
  | '\\' :: '\x27' :: text => '\x27' :: unescapeSingle text
  | c :: text => c :: unescapeSingle text

/-- Whether a text between double quotes holds an interpolation. -/
def hasInterpolation : List Char → Bool
  | [] => false
  | '#' :: '{' :: _ => true
  | _ :: text => hasInterpolation text

/-- A literal whose opening of `opening` characters has been read: `decode` turns the characters
inside into a token, and a missing closing mark is an error of kind `missing`. -/
def delimitedLexeme (opening : Nat) (inside : Nat × Bool) (text : List Char)
    (missing : LexErrorKind) (decode : List Char → TokenKind) : Lexeme :=
  let (length, closed) := inside
  if closed then ⟨opening + length + 1, .token (decode (text.take length))⟩
  else ⟨opening + length, .error missing⟩

def doubleQuotedLexeme (text : List Char) : Lexeme :=
  delimitedLexeme 1 (quotedLength '"' text) text .unterminatedString fun inside =>
    .str (String.ofList (unescape inside)) (hasInterpolation inside)

def singleQuotedLexeme (text : List Char) : Lexeme :=
  delimitedLexeme 1 (quotedLength '\x27' text) text .unterminatedString fun inside =>
    .str (String.ofList (unescapeSingle inside)) false

/-- A list of words between brackets or parentheses, behind a percent sign. -/
def wordListLexeme? : List Char → Option Lexeme
  | 'i' :: '[' :: text => some (listLexeme ']' text .symbolArray)
  | 'i' :: '(' :: text => some (listLexeme ')' text .symbolArray)
  | 'w' :: '[' :: text => some (listLexeme ']' text .wordArray)
  | 'w' :: '(' :: text => some (listLexeme ')' text .wordArray)
  | _ => none
where
  listLexeme (close : Char) (text : List Char) (make : List String → TokenKind) : Lexeme :=
    delimitedLexeme 3 (enclosedLength close text) text .unexpectedChar fun inside =>
      make (Text.words inside)

/-- The operators that a colon can turn into a symbol, longer ones before shorter ones. -/
def operatorNames : List (List Char) :=
  [['[', ']', '='], ['<', '=', '>'], ['=', '=', '='],
    ['[', ']'], ['=', '='], ['=', '~'], ['!', '='], ['!', '~'], ['<', '='], ['>', '='],
    ['<', '<'], ['>', '>'], ['*', '*'],
    ['!'], ['+'], ['-'], ['*'], ['/'], ['%'], ['<'], ['>'], ['~'], ['^'], ['&'], ['|']]

/-- Number of characters of the plain symbol name at the head of a text: a name, a variable or
an operator. -/
def symbolNameLength? (text : List Char) : Option Nat :=
  match text with
  | '@' :: '@' :: name => (sigilNameLength? name).map (· + 2)
  | '@' :: name => (sigilNameLength? name).map (· + 1)
  | '$' :: name => (sigilNameLength? name).map (· + 1)
  | c :: _ =>
    if isNameStart c then some (suffixedNameLength text)
    else (operatorNames.find? fun name => name.isPrefixOf text).map List.length
  | [] => none

/-- The longest operator or delimiter at the head of a text. -/
def punctLexeme (text : List Char) : Lexeme :=
  match Punct.byLength.find? fun mark => mark.spelling.isPrefixOf text with
  | some mark => ⟨mark.spelling.length, .token (.punct mark)⟩
  | none => .stray

/-- What starts with a colon: a symbol, or a colon mark. -/
def colonLexeme (text : List Char) : Lexeme :=
  match text with
  | '"' :: inside =>
    delimitedLexeme 2 (quotedLength '"' inside) inside .unexpectedChar fun inside =>
      .symbol (String.ofList (unescape inside))
  | _ =>
    match symbolNameLength? text with
    | some length => ⟨length + 1, .token (.symbol (String.ofList (text.take length)))⟩
    | none => punctLexeme (':' :: text)

/-- What starts with an at sign: a variable of an instance or of a class. -/
def atLexeme (text : List Char) : Lexeme :=
  match text with
  | '@' :: name =>
    match sigilNameLength? name with
    | some length =>
      ⟨length + 2, .token (.classVar (String.ofList ('@' :: '@' :: name.take length)))⟩
    | none => .stray
  | _ =>
    match sigilNameLength? text with
    | some length => ⟨length + 1, .token (.instanceVar (String.ofList ('@' :: text.take length)))⟩
    | none => .stray

/-- What starts with a dollar sign: a global variable. -/
def dollarLexeme (text : List Char) : Lexeme :=
  match sigilNameLength? text with
  | some length => ⟨length + 1, .token (.globalVar (String.ofList ('$' :: text.take length)))⟩
  | none => .stray

/-- What starts with a percent sign: a list of words, or the operator. -/
def percentLexeme (text : List Char) : Lexeme :=
  match wordListLexeme? text with
  | some lexeme => lexeme
  | none => punctLexeme ('%' :: text)

/-- Number of characters of the lines up to and including the first one that starts with
`=end`, or of all of them. -/
def blockCommentLength : List (List Char) → Nat
  | [] => 0
  | line :: lines =>
    if ['=', 'e', 'n', 'd'].isPrefixOf line then line.length
    else line.length + blockCommentLength lines

/-- What starts with an equals sign: a block comment, or an operator. The rest of the line that
opens the comment counts as its first line. -/
def equalsLexeme (text : List Char) : Lexeme :=
  match text with
  | 'b' :: 'e' :: 'g' :: 'i' :: 'n' :: comment =>
    ⟨6 + blockCommentLength (Text.splitLines comment), .skipped⟩
  | _ => punctLexeme ('=' :: text)

/-- What starts with a backslash: a line continuation. -/
def backslashLexeme : List Char → Lexeme
  | '\n' :: _ => ⟨2, .skipped⟩
  | '\r' :: '\n' :: _ => ⟨3, .skipped⟩
  | _ => .stray

/-- What starts with a carriage return: a line end. -/
def returnLexeme : List Char → Lexeme
  | '\n' :: _ => ⟨2, .token .newline⟩
  | _ => .stray

def lexemeAt (first : Char) (text : List Char) : Lexeme :=
  match first with
  | ' ' | '\t' => ⟨1 + (text.takeWhile fun c => c == ' ' || c == '\t').length, .skipped⟩
  | '\n' => ⟨1, .token .newline⟩
  | '\r' => returnLexeme text
  | '\\' => backslashLexeme text
  | '#' => ⟨1 + (text.takeWhile (· != '\n')).length, .skipped⟩
  | '"' => doubleQuotedLexeme text
  | '\x27' => singleQuotedLexeme text
  | ':' => colonLexeme text
  | '@' => atLexeme text
  | '$' => dollarLexeme text
  | '%' => percentLexeme text
  | '=' => equalsLexeme text
  | c =>
    if c.isDigit then numberLexeme c text
    else if isNameStart c then wordLexeme c text
    else punctLexeme (c :: text)

/-- The tokens and errors of a text whose first character stands at byte `offset`, ending with
the end-of-source token. Every lexeme takes at least one character, so the number of characters
bounds the number of lexemes. -/
def scanFrom : Nat → Nat → List Char → List (Except LexError Token)
  | _, offset, [] => [.ok ⟨.eof, ⟨offset, offset⟩⟩]
  | 0, _, _ :: _ => []
  | bound + 1, offset, first :: text =>
    let lexeme := lexemeAt first text
    let stop := offset + Text.byteLength ((first :: text).take lexeme.length)
    let rest := scanFrom bound stop ((first :: text).drop lexeme.length)
    match lexeme.reading with
    | .skipped => rest
    | .token kind => .ok ⟨kind, ⟨offset, stop⟩⟩ :: rest
    | .error kind => .error ⟨kind, ⟨offset, stop⟩⟩ :: rest

def scan (source : String) : List (Except LexError Token) :=
  scanFrom source.toList.length 0 source.toList

/-- The tokens of a source text, the last of which is the end of the source. -/
def tokens (source : String) : List Token :=
  (scan source).filterMap fun
    | .ok token => some token
    | .error _ => none

def lexErrors (source : String) : List LexError :=
  (scan source).filterMap fun
    | .ok _ => none
    | .error error => some error

end DeclaredMethods.Source
