import DeclaredMethods.Span

/-!
# Errors in signatures
-/

namespace DeclaredMethods.Signature

inductive SyntaxErrorKind where
  | unexpectedToken (expected found : String)
  | unexpectedEof (expected : String)
  | invalidToken
deriving DecidableEq

structure SyntaxError where
  kind : SyntaxErrorKind
  span : Span
deriving DecidableEq

def SyntaxErrorKind.message : SyntaxErrorKind → String
  | unexpectedToken expected found =>
    "unexpected token: expected " ++ expected ++ ", found " ++ found
  | unexpectedEof expected => "unexpected end of signature: expected " ++ expected
  | invalidToken => "invalid token"

def SyntaxError.message (error : SyntaxError) : String :=
  error.kind.message

end DeclaredMethods.Signature
