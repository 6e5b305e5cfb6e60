import DeclaredMethods.Text.Bytes

/-!
# Places in a source text

A `Span` is a half-open range of byte offsets. `Spanned` pairs a value with the place it was
read from.
-/

namespace DeclaredMethods

/-- The byte offsets from `start` up to, and not including, `stop`. -/
structure Span where
  start : Nat
  stop : Nat
deriving DecidableEq, Inhabited

namespace Span

/-- The smallest span that covers two spans. -/
def merge (left right : Span) : Span where
  start := min left.start right.start
  stop := max left.stop right.stop

/-- One-based line and column of the start of a span, counted in bytes. -/
def lineColumn (span : Span) (source : String) : Nat × Nat :=
  Text.lineColumn source span.start

def text (span : Span) (source : String) : String :=
  Text.slice source span.start span.stop

end Span

/-- A value and the place it was read from. -/
structure Spanned (α : Type) where
  node : α
  span : Span

end DeclaredMethods
