import DeclaredMethods.Span

/-!
# Tokens of signatures

Keywords are identifiers here: most of them are also names of methods and of keyword parameters,
so it is the grammar that tells them apart.
-/

namespace DeclaredMethods.Signature

/-- Delimiters and operators. -/
inductive Mark where
  | doubleColon
  | colon
  | arrow
  | fatArrow
  | ellipsis
  | dot
  | comma
  | leftParen
  | rightParen
  | leftBracket
  | rightBracket
  | leftBrace
  | rightBrace
  | pipe
  | ampersand
  | caret
  | question
  | star
  | doubleStar
  | equals
  | less
  | greater
  | bang
  | plus
  | minus
  | slash
  | percent
  | tilde
  | atSign
deriving DecidableEq

namespace Mark

def spelling : Mark → List Char
  | doubleColon => [':', ':']
  | colon => [':']
  | arrow => ['-', '>']
  | fatArrow => ['=', '>']
  | ellipsis => ['.', '.', '.']
  | dot => ['.']
  | comma => [',']
  | leftParen => ['(']
  | rightParen => [')']
  | leftBracket => ['[']
  | rightBracket => [']']
  | leftBrace => ['\x7b']
  | rightBrace => ['\x7d']
  | pipe => ['|']
  | ampersand => ['&']
  | caret => ['^']
  | question => ['?']
  | star => ['*']
  | doubleStar => ['*', '*']
  | equals => ['=']
  | less => ['<']
  | greater => ['>']
  | bang => ['!']
  | plus => ['+']
  | minus => ['-']
  | slash => ['/']
  | percent => ['%']
  | tilde => ['~']
  | atSign => ['@']

/-- Every mark, longer ones before shorter ones. -/
def byLength : List Mark :=
  [ellipsis, doubleColon, arrow, fatArrow, doubleStar, colon, dot, comma, leftParen, rightParen,
    leftBracket, rightBracket, leftBrace, rightBrace, pipe, ampersand, caret, question, star,
    equals, less, greater, bang, plus, minus, slash, percent, tilde, atSign]

/-- Whether a mark can be part of the name of an operator method. -/
def isOperator : Mark → Bool
  | less | greater | equals | bang | plus | minus | star | doubleStar | slash | percent | tilde
  | caret | ampersand | pipe | leftBracket | rightBracket | atSign => true
  | _ => false

def isNameSuffix : Mark → Bool
  | question | bang | equals => true
  | _ => false

end Mark

inductive TokenKind where
  | ident (name : String)
  /-- A variable of an instance or of a class, with its sigil. -/
  | instanceVar (name : String)
  | globalVar (name : String)
  | int (value : Int)
  | str (value : String)
  | symbol (name : String)
  | mark (mark : Mark)
  | eof
deriving DecidableEq

/-- A token, where it stands and how it is written. -/
structure Token where
  kind : TokenKind
  span : Span
  text : String
deriving DecidableEq

namespace TokenKind

def isMark (kind : TokenKind) (expected : Mark) : Bool :=
  match kind with
  | mark found => found == expected
  | _ => false

def isWord (kind : TokenKind) (word : String) : Bool :=
  match kind with
  | ident name => name == word
  | _ => false

def isIdent : TokenKind → Bool
  | ident _ => true
  | _ => false

def isEof : TokenKind → Bool
  | eof => true
  | _ => false

/-- Whether a token can be part of the name of an operator method. -/
def isOperator : TokenKind → Bool
  | mark found => found.isOperator
  | _ => false

def isNameSuffix : TokenKind → Bool
  | mark found => found.isNameSuffix
  | _ => false

end TokenKind

end DeclaredMethods.Signature
