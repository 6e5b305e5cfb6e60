import DeclaredMethods.Source.Parser.Grammar

/-!
# Arguments and hash literals

Arguments are separated by commas. Pairs among them, written without braces, make up one hash
that stands where the first of them stands. A label is a name directly followed by a colon.
-/

namespace DeclaredMethods.Source

open Parse

def labelName? (cursor : Cursor) : Option String :=
  if cursor.nextIsMark .colon && cursor.nextIsAdjacent then
    match cursor.current.kind with
    | .ident name => some name
    | .const name => some name
    | .str value _ => some value
    | kind => kind.keywordText?
  else
    none

/-- A label with its colon, if one stands here. -/
def label? : Parse (Option (Spanned String)) := do
  let cursor ← get
  match labelName? cursor with
  | some name =>
    advance
    advance
    return some ⟨name, cursor.current.span.start, cursor.next.span.stop⟩
  | none => return none

/-- The value of a label without one: the variable or method of the same name. -/
def shorthandValue (label : Spanned String) : Parse Expr := do
  if (← get).isLocal label.node then
    return ⟨.ident label.node, label.span⟩
  else
    return ⟨.call none label .none none false, label.span⟩

/-- A pair with a label, or a double splat, if one stands here. Pairs with an arrow are left to
the caller, since any expression can be their key. -/
def hashEntry? (g : Grammar) (closer : Option Punct) : Parse (Option HashEntry) := do
  if ← eat .starStar then
    return some (.doubleSplat (← g.expr))
  else
    match ← label? with
    | none => return none
    | some label =>
      if closer.isSome then skipNewlines
      let cursor ← get
      let value ←
        if cursor.atMark .comma || cursor.atTerminator || cursor.atCloser closer then
          shorthandValue label
        else
          g.expr
      return some (.pair ⟨.literal (.symbol label.node), label.span⟩ value)

structure GivenArguments where
  positional : List Expr := []
  blockArg : Option Expr := none
  /-- The pairs, with where the first one starts and how many arguments stand before it. -/
  pairs : Option (Nat × Nat × List HashEntry) := none

namespace GivenArguments

def addPositional (given : GivenArguments) (value : Expr) : GivenArguments :=
  { given with positional := given.positional ++ [value] }

def addEntry (given : GivenArguments) (start : Nat) (entry : HashEntry) : GivenArguments :=
  match given.pairs with
  | some (index, first, entries) =>
    { given with pairs := some (index, first, entries ++ [entry]) }
  | none => { given with pairs := some (given.positional.length, start, [entry]) }

/-- The argument list, with the pairs as one hash at their place. -/
def close (given : GivenArguments) (parenthesized : Bool) : Parse Arguments := do
  match given.pairs with
  | some (index, start, entries) =>
    let hash ← finish start (.hash entries)
    return ⟨given.positional.take index ++ hash :: given.positional.drop index, given.blockArg,
      parenthesized⟩
  | none => return ⟨given.positional, given.blockArg, parenthesized⟩

end GivenArguments

def argument (g : Grammar) (closer : Option Punct) (given : GivenArguments) :
    Parse GivenArguments := do
  let start ← currentStart
  if ← eat .amp then
    return { given with blockArg := some (← g.unary) }
  else
    match ← hashEntry? g closer with
    | some entry => return given.addEntry start entry
    | none =>
      let value ← g.expr
      if ← eat .fatArrow then
        skipNewlines
        return given.addEntry start (.pair value (← g.expr))
      else
        return given.addPositional value

/-- Arguments separated by commas. With a closing mark, lines may end between them. -/
def argumentList (g : Grammar) (closer : Option Punct) : Parse Arguments := do
  let given ← iterate (fun given => do
    if closer.isSome then skipNewlines
    let cursor ← get
    if cursor.atEnd || cursor.atCloser closer then
      return .done given
    else
      let given ← argument g closer given
      if ← eat .comma then
        skipNewlines
        return .again given
      else
        return .done given) ({} : GivenArguments)
  given.close closer.isSome

/-- The arguments of a call without parentheses. A `do` behind them belongs to the call. -/
def commandArguments (g : Grammar) : Parse Arguments :=
  withDo false (argumentList g none)

/-- The arguments up to and including the closing mark; the opening mark has been read. -/
def enclosedArguments (g : Grammar) (closer : Punct) (expected : String) : Parse Arguments := do
  let args ← withDo true (argumentList g (some closer))
  skipNewlines
  expect closer expected
  return args

def literalEntry (g : Grammar) : Parse HashEntry := do
  match ← hashEntry? g (some .rightBrace) with
  | some entry => return entry
  | none =>
    let key ← g.expr
    skipNewlines
    expect .fatArrow "'=>' in hash literal"
    skipNewlines
    return .pair key (← g.expr)

/-- The entries of a hash literal up to and including its right brace. -/
def hashLiteral (g : Grammar) : Parse (List HashEntry) := do
  let entries ← withDo true (iterate (fun entries => do
    skipNewlines
    let cursor ← get
    if cursor.atEnd || cursor.atMark .rightBrace then
      return .done entries
    else
      let entries := entries ++ [← literalEntry g]
      skipNewlines
      if ← eat .comma then return .again entries else return .done entries) [])
  skipNewlines
  expect .rightBrace "'\x7d'"
  return entries

end DeclaredMethods.Source
