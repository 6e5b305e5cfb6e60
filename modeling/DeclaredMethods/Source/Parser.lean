import DeclaredMethods.Source.Parser.Expression

/-!
# Parsing a source

The productions of one nesting level are built from those of the next one, as many levels as
expressions may be nested. Parsing never fails: it gives a tree for every source, with errors for
the places where the source is not well formed.
-/

namespace DeclaredMethods.Source

/-- The grammar in which expressions may be nested `levels` further times, where `enter` leads one
nesting level further in. -/
def grammarBy (enter : Parse Expr → Parse Expr) : Nat → Grammar
  | 0 => ⟨enter Parse.abandon, enter Parse.abandon, fun _ => enter Parse.abandon,
    enter Parse.abandon⟩
  | levels + 1 =>
    let g := grammarBy enter levels
    { notOperand := enter (notOperand g)
      expr := enter (assignment g)
      binary := fun least => enter (chain g least)
      unary := enter (operand g) }

/-- The grammar in which expressions may be nested `levels` further times. -/
def grammar : Nat → Grammar :=
  grammarBy Parse.nested

def fullGrammar : Grammar :=
  grammar maxDepth

def sourceFile (g : Grammar) : Parse SourceFile := do
  let inner ← body g .eof
  return ⟨inner, ⟨0, (← get).size⟩⟩

def run (source : String) : Option (SourceFile × Cursor) :=
  (sourceFile fullGrammar).run (.start source)

/-- A tree and the errors found while reading it. -/
structure ParseResult where
  file : SourceFile
  errors : List ParseError

/-- Parses a source. Every parse ends, so there is always a tree. -/
def parse (source : String) : ParseResult :=
  match run source with
  | some (file, cursor) => ⟨file, cursor.errors⟩
  | none => ⟨⟨⟨[], ⟨0, 0⟩⟩, ⟨0, 0⟩⟩, []⟩

end DeclaredMethods.Source
