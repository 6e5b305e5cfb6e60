import DeclaredMethods.Source.Cursor

/-!
# Operators and nesting

The binary operators with their strength, the tokens that close a body, and the productions that
a production may call one nesting level further in. Every expression inside an expression is
reached through one of the four fields of `Grammar`, so all other productions are plain
functions of the grammar one level further in.
-/

namespace DeclaredMethods.Source

/-- How strongly a binary operator binds, the weakest first. -/
inductive Precedence where
  | range
  | orOr
  | andAnd
  | equality
  | comparison
  | shift
  | term
  | factor
  | pow
deriving DecidableEq

namespace Precedence

/-- The place of a strength in the order of strengths. -/
def rank : Precedence → Nat
  | range => 0
  | orOr => 1
  | andAnd => 2
  | equality => 3
  | comparison => 4
  | shift => 5
  | term => 6
  | factor => 7
  | pow => 8

/-- The next stronger one; the strongest one is its own successor. -/
def next : Precedence → Precedence
  | range => orOr
  | orOr => andAnd
  | andAnd => equality
  | equality => comparison
  | comparison => shift
  | shift => term
  | term => factor
  | factor => pow
  | pow => pow

end Precedence

/-- How strongly a binary operator binds when it is written as a sign. -/
def BinaryOp.precedence : BinaryOp → Precedence
  | range | exclusiveRange => .range
  | or => .orOr
  | and => .andAnd
  | eq | caseEq | ne | matches_ | cmp => .equality
  | lt | gt | le | ge => .comparison
  | shiftLeft => .shift
  | add | sub => .term
  | mul | div | mod => .factor
  | pow => .pow

def Punct.binaryOp? : Punct → Option BinaryOp
  | dotDot => some .range
  | ellipsis => some .exclusiveRange
  | orOr => some .or
  | andAnd => some .and
  | eqEq => some .eq
  | eqEqEq => some .caseEq
  | notEq => some .ne
  | matches_ => some .matches_
  | spaceship => some .cmp
  | lt => some .lt
  | gt => some .gt
  | le => some .le
  | ge => some .ge
  | shiftLeft => some .shiftLeft
  | plus => some .add
  | minus => some .sub
  | star => some .mul
  | slash => some .div
  | percent => some .mod
  | starStar => some .pow
  | _ => none

def Punct.assignOp? : Punct → Option AssignOp
  | assign => some .assign
  | plusAssign => some .add
  | minusAssign => some .sub
  | orAssign => some .or
  | andAssign => some .and
  | _ => none

/-- The method name that an operator sign stands for in a definition. -/
def Punct.methodName? : Punct → Option String
  | plus => some "+"
  | minus => some "-"
  | star => some "*"
  | starStar => some "**"
  | slash => some "/"
  | percent => some "%"
  | eqEq => some "=="
  | eqEqEq => some "==="
  | notEq => some "!="
  | matches_ => some "=~"
  | lt => some "<"
  | gt => some ">"
  | le => some "<="
  | ge => some ">="
  | spaceship => some "<=>"
  | shiftLeft => some "<<"
  | bang => some "!"
  | _ => none

namespace TokenKind

def binaryOp? : TokenKind → Option BinaryOp
  | punct mark => mark.binaryOp?
  | _ => none

def assignOp? : TokenKind → Option AssignOp
  | punct mark => mark.assignOp?
  | _ => none

end TokenKind

/-- What closes a body. The end of the source closes every body. -/
inductive BodyEnd where
  /-- Nothing but the end of the source. -/
  | eof
  /-- `end` -/
  | end_
  /-- `elsif`, `else` or `end` -/
  | branch
  /-- `when`, `else` or `end` -/
  | when_
  /-- `rescue`, `else`, `ensure` or `end` -/
  | rescue_
  /-- A right brace. -/
  | brace
  /-- A right parenthesis. -/
  | paren
deriving DecidableEq

def BodyEnd.closes : BodyEnd → TokenKind → Bool
  | eof, _ => false
  | end_, kind => kind.isWord .end_
  | branch, kind => kind.isWord .elsif_ || kind.isWord .else_ || kind.isWord .end_
  | when_, kind => kind.isWord .when_ || kind.isWord .else_ || kind.isWord .end_
  | rescue_, kind =>
    kind.isWord .rescue_ || kind.isWord .else_ || kind.isWord .ensure_ || kind.isWord .end_
  | brace, kind => kind.isMark .rightBrace
  | paren, kind => kind.isMark .rightParen

/-- The productions one nesting level further in. -/
structure Grammar where
  /-- What may follow the word `not`. -/
  notOperand : Parse Expr
  /-- Expressions without the words `not`, `and` and `or`. -/
  expr : Parse Expr
  /-- Chains of binary operators that bind at least as strongly as given. -/
  binary : Precedence → Parse Expr
  /-- Operands with their prefix operators. -/
  unary : Parse Expr

end DeclaredMethods.Source
