import DeclaredMethods.Declaration.Value
import DeclaredMethods.Source.Syntax

/-!
# Evaluating literals

Arguments are evaluated as far as they are literals: numbers, texts, symbols, arrays and hashes of
them, in any number of parentheses. Everything else is an error at its place.
-/

namespace DeclaredMethods

open Source

/-- Why an expression is no literal. -/
inductive EvalErrorKind where
  | unsupported
  | unsupportedKey
  | interpolated
deriving DecidableEq

def EvalErrorKind.message : EvalErrorKind → String
  | unsupported => "unsupported expression in declaration arguments"
  | unsupportedKey => "unsupported hash key"
  | interpolated => "interpolated strings are not literals"

/-- An expression that is no literal, and its place. -/
structure EvalError where
  kind : EvalErrorKind
  span : Span
deriving DecidableEq

def evalLiteral (span : Span) : Literal → Except EvalError Value
  | .int value => .ok (.int value)
  | .float value => .ok (.float value)
  | .str value interpolated =>
    if interpolated then .error ⟨.interpolated, span⟩ else .ok (.str value)
  | .symbol name => .ok (.symbol name)

/-- The hash key that equals the value of the expression at `span`. -/
def hashKey (value : Value) (span : Span) : Except EvalError HashKey :=
  match value.key? with
  | some key => .ok key
  | none => .error ⟨.unsupportedKey, span⟩

/-- Adds the entries of a hash that is splatted into the hash at `span`. -/
def splat (span : Span) (entries : OrderedMap HashKey Value) :
    Value → Except EvalError (OrderedMap HashKey Value)
  | .hash inner => .ok (entries.insertAll inner.entries)
  | _ => .error ⟨.unsupported, span⟩

mutual

def evalExpr : Expr → Except EvalError Value
  | ⟨node, span⟩ => evalNode span node

/-- The value of an expression of the given form at the given place. -/
def evalNode (span : Span) : Node → Except EvalError Value
  | .nil => .ok .nil
  | .true => .ok (.bool true)
  | .false => .ok (.bool false)
  | .literal literal => evalLiteral span literal
  | .array items => (evalExprs items).map .array
  | .hash entries => (evalEntries span .empty entries).map .hash
  | .paren body => evalBody span body
  | _ => .error ⟨.unsupported, span⟩

def evalBody (span : Span) : Body → Except EvalError Value
  | ⟨[expr], _⟩ => evalExpr expr
  | _ => .error ⟨.unsupported, span⟩

def evalExprs : List Expr → Except EvalError (List Value)
  | [] => .ok []
  | expr :: exprs => do
    let value ← evalExpr expr
    let values ← evalExprs exprs
    return value :: values

/-- Adds the entries of a hash literal at `span`, one after the other. -/
def evalEntries (span : Span) (found : OrderedMap HashKey Value) :
    List HashEntry → Except EvalError (OrderedMap HashKey Value)
  | [] => .ok found
  | entry :: entries => do
    let found ← evalEntry span found entry
    evalEntries span found entries

/-- Adds an entry of a hash literal at `span`. A key that is given again keeps its place and gets
the later value. -/
def evalEntry (span : Span) (found : OrderedMap HashKey Value) :
    HashEntry → Except EvalError (OrderedMap HashKey Value)
  | .pair ⟨keyNode, keySpan⟩ value => do
    let keyValue ← evalNode keySpan keyNode
    let key ← hashKey keyValue keySpan
    let value ← evalExpr value
    return found.insert key value
  | .doubleSplat inner => do
    let value ← evalExpr inner
    splat span found value

end

/-- The value of an argument slot; a missing block argument is `nil`. -/
def evalSlot : Option Expr → Except EvalError Value
  | some expr => evalExpr expr
  | none => .ok .nil

/-- The values of all argument slots of a call; the last one is the block argument. -/
def evalArguments (args : Arguments) : Except EvalError (List Value) :=
  args.slots.mapM evalSlot

end DeclaredMethods
