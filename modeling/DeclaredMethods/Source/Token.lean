import DeclaredMethods.Span
import DeclaredMethods.Text.Decimal
import DeclaredMethods.Text.Quoted

/-!
# Tokens of class bodies

Keywords, punctuation, literals and names of the Ruby subset that class and module bodies are
written in. Every kind has a label, which error messages use to show an unexpected token.
-/

namespace DeclaredMethods.Source

/-- The reserved words. -/
inductive Keyword where
  | class_
  | module_
  | def_
  | end_
  | do_
  | if_
  | unless_
  | elsif_
  | else_
  | while_
  | until_
  | case_
  | when_
  | then_
  | begin_
  | rescue_
  | ensure_
  | return_
  | yield_
  | self_
  | nil_
  | true_
  | false_
  | and_
  | or_
  | not_
deriving DecidableEq

namespace Keyword

def all : List Keyword :=
  [.class_, .module_, .def_, .end_, .do_, .if_, .unless_, .elsif_, .else_, .while_, .until_,
    .case_, .when_, .then_, .begin_, .rescue_, .ensure_, .return_, .yield_, .self_, .nil_,
    .true_, .false_, .and_, .or_, .not_]

def spelling : Keyword → String
  | class_ => "class"
  | module_ => "module"
  | def_ => "def"
  | end_ => "end"
  | do_ => "do"
  | if_ => "if"
  | unless_ => "unless"
  | elsif_ => "elsif"
  | else_ => "else"
  | while_ => "while"
  | until_ => "until"
  | case_ => "case"
  | when_ => "when"
  | then_ => "then"
  | begin_ => "begin"
  | rescue_ => "rescue"
  | ensure_ => "ensure"
  | return_ => "return"
  | yield_ => "yield"
  | self_ => "self"
  | nil_ => "nil"
  | true_ => "true"
  | false_ => "false"
  | and_ => "and"
  | or_ => "or"
  | not_ => "not"

def ofSpelling? (word : String) : Option Keyword :=
  all.find? fun keyword => keyword.spelling == word

def label : Keyword → String
  | class_ => "Class"
  | module_ => "Module"
  | def_ => "Def"
  | end_ => "End"
  | do_ => "Do"
  | if_ => "If"
  | unless_ => "Unless"
  | elsif_ => "Elsif"
  | else_ => "Else"
  | while_ => "While"
  | until_ => "Until"
  | case_ => "Case"
  | when_ => "When"
  | then_ => "Then"
  | begin_ => "Begin"
  | rescue_ => "Rescue"
  | ensure_ => "Ensure"
  | return_ => "Return"
  | yield_ => "Yield"
  | self_ => "SelfKw"
  | nil_ => "Nil"
  | true_ => "True"
  | false_ => "False"
  | and_ => "And"
  | or_ => "Or"
  | not_ => "Not"

end Keyword

/-- Operators and delimiters. -/
inductive Punct where
  | plus
  | minus
  | star
  | starStar
  | slash
  | percent
  | eqEq
  | eqEqEq
  | notEq
  | matches_
  | lt
  | gt
  | le
  | ge
  | spaceship
  | shiftLeft
  | assign
  | plusAssign
  | minusAssign
  | orAssign
  | andAssign
  | bang
  | andAnd
  | orOr
  | amp
  | pipe
  | question
  | fatArrow
  | arrow
  | ellipsis
  | dotDot
  | dot
  | safeNav
  | colonColon
  | colon
  | comma
  | semicolon
  | leftParen
  | rightParen
  | leftBrace
  | rightBrace
  | leftBracket
  | rightBracket
deriving DecidableEq

namespace Punct

/-- All operators and delimiters, longer spellings before shorter ones: the first one that a
text starts with is the longest one. -/
def byLength : List Punct :=
  [.eqEqEq, .spaceship, .orAssign, .andAssign, .ellipsis,
    .starStar, .eqEq, .notEq, .matches_, .le, .ge, .shiftLeft, .plusAssign, .minusAssign,
    .andAnd, .orOr, .fatArrow, .arrow, .dotDot, .safeNav, .colonColon,
    .plus, .minus, .star, .slash, .percent, .lt, .gt, .assign, .bang, .amp, .pipe, .question,
    .dot, .colon, .comma, .semicolon, .leftParen, .rightParen, .leftBrace, .rightBrace,
    .leftBracket, .rightBracket]

def spelling : Punct → List Char
  | plus => ['+']
  | minus => ['-']
  | star => ['*']
  | starStar => ['*', '*']
  | slash => ['/']
  | percent => ['%']
  | eqEq => ['=', '=']
  | eqEqEq => ['=', '=', '=']
  | notEq => ['!', '=']
  | matches_ => ['=', '~']
  | lt => ['<']
  | gt => ['>']
  | le => ['<', '=']
  | ge => ['>', '=']
  | spaceship => ['<', '=', '>']
  | shiftLeft => ['<', '<']
  | assign => ['=']
  | plusAssign => ['+', '=']
  | minusAssign => ['-', '=']
  | orAssign => ['|', '|', '=']
  | andAssign => ['&', '&', '=']
  | bang => ['!']
  | andAnd => ['&', '&']
  | orOr => ['|', '|']
  | amp => ['&']
  | pipe => ['|']
  | question => ['?']
  | fatArrow => ['=', '>']
  | arrow => ['-', '>']
  | ellipsis => ['.', '.', '.']
  | dotDot => ['.', '.']
  | dot => ['.']
  | safeNav => ['&', '.']
  | colonColon => [':', ':']
  | colon => [':']
  | comma => [',']
  | semicolon => [';']
  | leftParen => ['(']
  | rightParen => [')']
  | leftBrace => ['{']
  | rightBrace => ['}']
  | leftBracket => ['[']
  | rightBracket => [']']

def label : Punct → String
  | plus => "Plus"
  | minus => "Minus"
  | star => "Star"
  | starStar => "StarStar"
  | slash => "Slash"
  | percent => "Percent"
  | eqEq => "EqEq"
  | eqEqEq => "EqEqEq"
  | notEq => "Ne"
  | matches_ => "Match"
  | lt => "Lt"
  | gt => "Gt"
  | le => "Le"
  | ge => "Ge"
  | spaceship => "Spaceship"
  | shiftLeft => "Shl"
  | assign => "Eq"
  | plusAssign => "PlusEq"
  | minusAssign => "MinusEq"
  | orAssign => "OrEq"
  | andAssign => "AndEq"
  | bang => "Bang"
  | andAnd => "AndAnd"
  | orOr => "OrOr"
  | amp => "Amp"
  | pipe => "Pipe"
  | question => "Question"
  | fatArrow => "FatArrow"
  | arrow => "Arrow"
  | ellipsis => "Ellipsis"
  | dotDot => "DotDot"
  | dot => "Dot"
  | safeNav => "SafeNav"
  | colonColon => "ColonColon"
  | colon => "Colon"
  | comma => "Comma"
  | semicolon => "Semicolon"
  | leftParen => "LParen"
  | rightParen => "RParen"
  | leftBrace => "LBrace"
  | rightBrace => "RBrace"
  | leftBracket => "LBracket"
  | rightBracket => "RBracket"

end Punct

/-- What a token is, with the decoded value of a literal or name. Names of variables keep their
sigil, symbols lose their colon. -/
inductive TokenKind where
  | keyword (word : Keyword)
  | punct (mark : Punct)
  | int (value : Int)
  | float (value : Float)
  | str (value : String) (interpolated : Bool)
  | symbol (name : String)
  | symbolArray (names : List String)
  | wordArray (words : List String)
  | ident (name : String)
  | const (name : String)
  | instanceVar (name : String)
  | classVar (name : String)
  | globalVar (name : String)
  | newline
  | eof

namespace TokenKind

def isTerminator : TokenKind → Bool
  | newline => true
  | punct .semicolon => true
  | eof => true
  | _ => false

def isKeyword : TokenKind → Bool
  | keyword _ => true
  | _ => false

def isLiteral : TokenKind → Bool
  | int _ | float _ | str _ _ | symbol _ | symbolArray _ | wordArray _ => true
  | keyword .true_ | keyword .false_ | keyword .nil_ => true
  | _ => false

def isEof : TokenKind → Bool
  | eof => true
  | _ => false

def isNewline : TokenKind → Bool
  | newline => true
  | _ => false

def isWord (kind : TokenKind) (word : Keyword) : Bool :=
  match kind with
  | keyword found => found == word
  | _ => false

def isMark (kind : TokenKind) (mark : Punct) : Bool :=
  match kind with
  | punct found => found == mark
  | _ => false

/-- The spelling of a keyword where it stands as a name, as in `def class` or `if:`. -/
def keywordText? : TokenKind → Option String
  | keyword word => some word.spelling
  | _ => none

def label : TokenKind → String
  | keyword word => word.label
  | punct mark => mark.label
  | int _ => "Int"
  | float _ => "Float"
  | str _ _ => "Str"
  | symbol _ => "Symbol"
  | symbolArray _ => "SymbolArray"
  | wordArray _ => "WordArray"
  | ident _ => "Ident"
  | const _ => "Const"
  | instanceVar _ => "InstanceVar"
  | classVar _ => "ClassVar"
  | globalVar _ => "GlobalVar"
  | newline => "Newline"
  | eof => "Eof"

/-- The payload that messages show behind the label of a token. -/
def payload? : TokenKind → Option String
  | int value => some (toString value)
  | float value => some (Text.floatText .shown value)
  | str value interpolated =>
    some ("StrLit \x7b value: " ++ Text.quote value ++ ", interpolated: " ++
      (if interpolated then "true" else "false") ++ " \x7d")
  | symbol name | ident name | const name => some (Text.quote name)
  | instanceVar name | classVar name | globalVar name => some (Text.quote name)
  | symbolArray words | wordArray words =>
    some ("[" ++ ", ".intercalate (words.map Text.quote) ++ "]")
  | keyword _ | punct _ | newline | eof => none

/-- A token as messages show it: its label, and its value in parentheses. -/
def shown (kind : TokenKind) : String :=
  match kind.payload? with
  | some text => kind.label ++ "(" ++ text ++ ")"
  | none => kind.label

end TokenKind

structure Token where
  kind : TokenKind
  span : Span

/-- Why a piece of text is no token. -/
inductive LexErrorKind where
  | unexpectedChar
  | unterminatedString
  | invalidNumber
deriving DecidableEq

def LexErrorKind.message : LexErrorKind → String
  | unexpectedChar => "unexpected character"
  | unterminatedString => "unterminated string literal"
  | invalidNumber => "invalid number literal"

/-- A piece of text that is no token, and its place. -/
structure LexError where
  kind : LexErrorKind
  span : Span
deriving DecidableEq

end DeclaredMethods.Source
