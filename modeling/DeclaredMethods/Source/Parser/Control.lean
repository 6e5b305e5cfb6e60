import DeclaredMethods.Source.Parser.Statement

/-!
# Conditionals, loops and case distinctions

The branches behind `elsif` are conditionals inside the `else` branch of the one before, and all
of them share one `end`.
-/

namespace DeclaredMethods.Source

open Parse

/-- The condition and branches behind `if`, `unless` or `elsif`. The shared `end` is left to the
caller; less than `bound` times `elsif` is read. -/
def conditionalUpTo (g : Grammar) : Nat → Bool → Parse Node
  | 0, _ => failure
  | bound + 1, negated => do
    let condition ← notExpr g
    let _ ← eatWord .then_
    let thenBranch ← body g .branch
    let cursor ← get
    match cursor.current.kind with
    | .keyword .elsif_ =>
      advance
      let inner ← conditionalUpTo g bound false
      let span ← spanFrom cursor.current.span.start
      return .if_ condition thenBranch (some ⟨[⟨inner, span⟩], span⟩) negated
    | .keyword .else_ =>
      advance
      return .if_ condition thenBranch (some (← body g .end_)) negated
    | _ => return .if_ condition thenBranch none negated

/-- A conditional that starts with `if` or `unless`. Each `elsif` is a token, so the tokens left
bound their number. -/
def conditional (g : Grammar) (negated : Bool) : Parse Expr := do
  let start ← currentStart
  advance
  let node ← conditionalUpTo g (← get).rounds negated
  expectWord .end_ "'end' to close conditional"
  finish start node

/-- A loop that starts with `while` or `until`. -/
def loop (g : Grammar) (negated : Bool) : Parse Expr := do
  let start ← currentStart
  advance
  let condition ← withDo false (notExpr g)
  let _ ← eatWord .do_
  let inner ← body g .end_
  expectWord .end_ "'end' to close loop"
  finish start (.while_ condition inner negated)

def whenClauses (g : Grammar) : Parse (List WhenClause) :=
  iterate (fun whens => do
    if ← eatWord .when_ then
      let first ← g.expr
      let patterns ← whileComma (do skipNewlines; g.expr) [first]
      let _ ← eatWord .then_
      let inner ← body g .when_
      return .again (whens ++ [⟨patterns, inner⟩])
    else
      return .done whens) []

def caseSubject? (g : Grammar) : Parse (Option Expr) := do
  if (← get).atTerminator then
    return none
  else
    return some (← notExpr g)

def caseDistinction (g : Grammar) : Parse Expr := do
  let start ← currentStart
  advance
  let subject ← caseSubject? g
  skipTerminators
  let whens ← whenClauses g
  if whens.isEmpty then fail (.unsupported "case without when")
  let elseBranch ← bodyBehind? g .else_ .end_
  expectWord .end_ "'end' to close case"
  finish start (.case_ subject whens elseBranch)

end DeclaredMethods.Source
