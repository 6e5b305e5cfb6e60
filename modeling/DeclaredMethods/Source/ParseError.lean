import DeclaredMethods.Source.Token

/-!
# Syntax errors

Why a source is not well formed, and where. A lexical error keeps its own wording.
-/

namespace DeclaredMethods.Source

/-- Why a source is not well formed. -/
inductive ParseErrorKind where
  | unexpectedToken (expected : String) (found : TokenKind)
  | unexpectedEof (expected : String)
  | expectedExpr
  | expectedName
  | unsupported (construct : String)
  | tooDeep
  | lex (kind : LexErrorKind)

def ParseErrorKind.message : ParseErrorKind → String
  | unexpectedToken expected found =>
    "unexpected token: expected " ++ expected ++ ", found " ++ found.shown
  | unexpectedEof expected => "unexpected end of file: expected " ++ expected
  | expectedExpr => "expected expression"
  | expectedName => "expected name"
  | unsupported construct => "unsupported syntax: " ++ construct
  | tooDeep => "expression nested too deeply"
  | lex kind => kind.message

structure ParseError where
  kind : ParseErrorKind
  span : Span

def ParseError.ofLex (error : LexError) : ParseError :=
  ⟨.lex error.kind, error.span⟩

end DeclaredMethods.Source
