import DeclaredMethods.Source.Parser.Statement

/-!
# Parameters, blocks and lambdas

Parameter lists of methods, blocks and lambdas are read alike. A parenthesized parameter takes
its argument apart; its names become variables, and it counts as one parameter without a name.
-/

namespace DeclaredMethods.Source

open Parse

def paramName? : Parse (Option String) := do
  match ← currentKind with
  | .ident name =>
    advance
    return some name
  | _ => return none

/-- Whether a label stands at the current token. -/
def atLabel (cursor : Cursor) : Bool :=
  cursor.nextIsMark .colon && cursor.nextIsAdjacent

def keywordDefault (g : Grammar) (closer : Option Punct) : Parse (Option Expr) := do
  let cursor ← get
  if cursor.atMark .comma || cursor.atTerminator || cursor.atCloser closer then
    return none
  else
    return some (← g.binary .orOr)

def namedParam (g : Grammar) (closer : Option Punct) : Parse (ParamKind × Option Expr) := do
  if atLabel (← get) then
    advance
    advance
    return (.keyword, ← keywordDefault g closer)
  else
    advance
    if ← eat .assign then
      return (.optional, some (← g.binary .orOr))
    else
      return (.required, none)

/-- Whether a parameter list ends here. -/
def paramsEnd (closer : Option Punct) (cursor : Cursor) : Bool :=
  cursor.atEnd || cursor.atCloser closer || (closer.isNone && cursor.atTerminator)

/-- A parameter and whether the list can go on behind it; `destructured` reads the inside of a
parenthesized parameter. -/
def param? (g : Grammar) (closer : Option Punct) (destructured : Parse (List Param)) :
    Parse (Option Param) := do
  let start ← currentStart
  let parts? ← (do
    match ← currentKind with
    | .punct .star =>
      advance
      return some (← paramName?, ParamKind.rest, none)
    | .punct .starStar =>
      advance
      return some (← paramName?, .keywordRest, none)
    | .punct .amp =>
      advance
      return some (← paramName?, .block, none)
    | .punct .ellipsis =>
      advance
      return some (none, .rest, none)
    | .ident name =>
      let (kind, default) ← namedParam g closer
      return some (some name, kind, default)
    | .punct .leftParen =>
      advance
      let inner ← destructured
      expect .rightParen "')'"
      declareParams inner
      return some (none, .required, none)
    | _ =>
      unexpected "parameter"
      return none : Parse (Option (Option String × ParamKind × Option Expr)))
  match parts? with
  | some (name, kind, default) => return some ⟨name, kind, default, ← spanFrom start⟩
  | none => return none

/-- Parameters up to, and not including, the closing mark, or to the end of the line.
Parentheses may be nested at most `bound` times. -/
def paramListUpTo (g : Grammar) : Nat → Option Punct → Parse (List Param)
  | 0, _ => failure
  | bound + 1, closer =>
    iterate (fun params => do
      if closer.isSome then skipNewlines
      if paramsEnd closer (← get) then
        return .done params
      else
        match ← param? g closer (paramListUpTo g bound (some .rightParen)) with
        | none => return .done params
        | some param =>
          if ← eat .comma then
            return .again (params ++ [param])
          else
            return .done (params ++ [param])) []

/-- Parameters up to, and not including, the closing mark, or to the end of the line. Each
parenthesis is a token, so the tokens left bound their nesting. -/
def paramList (g : Grammar) (closer : Option Punct) : Parse (List Param) := do
  paramListUpTo g (← get).rounds closer

/-- The parameters of a block between bars, which become its variables. -/
def blockParams (g : Grammar) : Parse (List Param) := do
  if ← eat .orOr then
    return []
  else if ← eat .pipe then
    let params ← paramList g (some .pipe)
    expect .pipe "'|' to close block parameters"
    declareParams params
    return params
  else
    return []

def braceBlock (g : Grammar) : Parse Block := do
  let start ← currentStart
  advance
  let (params, inner) ← inScope true (do
    let params ← blockParams g
    let inner ← withDo true (body g .brace)
    expect .rightBrace "'\x7d' to close block"
    return (params, inner))
  return ⟨params, inner, ← spanFrom start⟩

def doBlock (g : Grammar) : Parse Block := do
  let start ← currentStart
  advance
  let (params, inner) ← inScope true (do
    let params ← blockParams g
    let inner ← withDo true (rescuedBody g)
    expectWord .end_ "'end' to close block"
    return (params, inner))
  return ⟨params, inner, ← spanFrom start⟩

/-- The parameters of a lambda, with or without parentheses. -/
def lambdaParams (g : Grammar) : Parse (List Param) := do
  if ← eat .leftParen then
    let params ← paramList g (some .rightParen)
    expect .rightParen "')'"
    return params
  else
    match ← currentKind with
    | .ident _ => paramList g none
    | _ => return []

def lambdaBody (g : Grammar) : Parse Body := do
  if ← eat .leftBrace then
    let inner ← withDo true (body g .brace)
    expect .rightBrace "'\x7d' to close lambda"
    return inner
  else if ← eatWord .do_ then
    let inner ← withDo true (rescuedBody g)
    expectWord .end_ "'end' to close lambda"
    return inner
  else
    unexpected "lambda body"
    return ⟨[], ← currentSpan⟩

/-- A lambda that starts at `start`; its arrow has been read. -/
def lambda (g : Grammar) (start : Nat) : Parse Block := do
  let (params, inner) ← inScope true (do
    let params ← lambdaParams g
    declareParams params
    let inner ← lambdaBody g
    return (params, inner))
  return ⟨params, inner, ← spanFrom start⟩

end DeclaredMethods.Source
