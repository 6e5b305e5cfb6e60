import DeclaredMethods.Source.Parser.Grammar

/-!
# Statements and bodies

A statement is an expression with the loosest operators, a multiple assignment, or either of
them with modifiers behind it. A body reads statements until a token that closes it; when a
statement does not end where it should, the tokens up to the next place to resume are skipped.
-/

namespace DeclaredMethods.Source

open Parse

/-- An expression that may start with the word `not`. -/
def notOperand (g : Grammar) : Parse Expr := do
  let start ← currentStart
  if (← get).atWord .not_ then
    let opSpan ← currentSpan
    advance
    let operand ← g.notOperand
    finish start (.unary ⟨.not, opSpan⟩ operand)
  else
    g.expr

def wordOp? : TokenKind → Option BinaryOp
  | .keyword .and_ => some .and
  | .keyword .or_ => some .or
  | _ => none

/-- An expression with the words `not`, `and` and `or`, the loosest operators. -/
def notExpr (g : Grammar) : Parse Expr := do
  let start ← currentStart
  let first ← notOperand g
  iterate (fun left => do
    match wordOp? (← currentKind) with
    | some op =>
      let opSpan ← currentSpan
      advance
      skipNewlines
      let right ← notOperand g
      return .again (← finish start (.binary left ⟨op, opSpan⟩ right))
    | none => return .done left) first

/-- The target of an assignment: a bare name becomes a local variable. -/
def assignTarget (target : Expr) : Parse Expr := do
  match target.node with
  | .call none name args _ _ =>
    if args.isEmpty && !args.parenthesized then
      declare name.node
      return ⟨.ident name.node, target.span⟩
    else
      return target
  | _ => return target

/-- A multiple assignment whose first target has been read, if a comma follows it. -/
def multipleAssignment (g : Grammar) (start : Nat) (first : Expr) : Parse Expr := do
  if (← get).atMark .comma && first.node.isAssignable then
    let firstTarget ← assignTarget first
    let targets ← whileComma (do assignTarget (← g.unary)) [firstTarget]
    let targetSpan ← spanFrom start
    expect .assign "'=' in multiple assignment"
    skipNewlines
    let valueStart ← currentStart
    let firstValue ← g.expr
    let values ← whileComma (do skipNewlines; g.expr) [firstValue]
    let value ←
      match values with
      | [value] => pure value
      | values => finish valueStart (.array values)
    finish start (.assign ⟨.array targets, targetSpan⟩ .assign value)
  else
    return first

/-- One modifier behind a statement that was read since `start`, if there is one. -/
def modifier (g : Grammar) (start : Nat) (expr : Expr) : Parse (Round Expr) := do
  let cursor ← get
  let modifierStart := cursor.current.span.start
  match cursor.current.kind with
  | .keyword .if_ | .keyword .unless_ =>
    advance
    let condition ← notExpr g
    return .again (← finish start
      (.if_ condition (.single expr) none (cursor.atWord .unless_)))
  | .keyword .while_ | .keyword .until_ =>
    advance
    let condition ← notExpr g
    return .again (← finish start (.while_ condition (.single expr) (cursor.atWord .until_)))
  | .keyword .rescue_ =>
    advance
    let fallback ← notExpr g
    let rescueSpan ← spanFrom modifierStart
    return .again (← finish start
      (.begin_ (.single expr) [⟨[], none, ⟨[fallback], rescueSpan⟩⟩] none none))
  | _ => return .done expr

def statement (g : Grammar) : Parse Expr := do
  let start ← currentStart
  let first ← notExpr g
  let expr ← multipleAssignment g start first
  iterate (modifier g start) expr

/-- Skips to the next place where a statement can start, and reports what stands in between. -/
def resume (until_ : BodyEnd) : Parse Unit := do
  let kind ← currentKind
  if kind.isTerminator || until_.closes kind then
    return ()
  else
    unexpected "end of statement"
    skipWhile fun kind => !kind.isTerminator && !until_.closes kind

/-- Statements up to a token that closes the body, which is left to the caller. -/
def body (g : Grammar) (until_ : BodyEnd) : Parse Body := do
  let start ← currentStart
  let statements ← iterate (fun statements => do
    skipTerminators
    let cursor ← get
    if cursor.atEnd || until_.closes cursor.current.kind then
      return .done statements
    else
      let expr ← statement g
      resume until_
      if (← get).position = cursor.position then advance
      return .again (statements ++ [expr])) []
  return ⟨statements, ← spanFrom start⟩

def rescueBinding : Parse (Option String) := do
  if ← eat .fatArrow then
    match ← currentKind with
    | .ident name =>
      advance
      declare name
      return some name
    | _ =>
      fail .expectedName
      return none
  else
    return none

def rescueExceptions (g : Grammar) : Parse (List Expr) :=
  iterate (fun exceptions => do
    let cursor ← get
    if cursor.atTerminator || cursor.atMark .fatArrow || cursor.atWord .then_ then
      return .done exceptions
    else
      let exceptions := exceptions ++ [← g.expr]
      if ← eat .comma then return .again exceptions else return .done exceptions) []

def bodyBehind? (g : Grammar) (word : Keyword) (until_ : BodyEnd) : Parse (Option Body) := do
  if ← eatWord word then
    return some (← body g until_)
  else
    return none

/-- The clauses behind a body that may be rescued. The closing `end` is left to the caller. -/
def rescueClauses (g : Grammar) (main : Body) : Parse Node := do
  let rescues ← iterate (fun rescues => do
    if ← eatWord .rescue_ then
      let exceptions ← rescueExceptions g
      let binding ← rescueBinding
      let _ ← eatWord .then_
      let handler ← body g .rescue_
      return .again (rescues ++ [⟨exceptions, binding, handler⟩])
    else
      return .done rescues) []
  let elseBranch ← bodyBehind? g .else_ .rescue_
  let ensure ← bodyBehind? g .ensure_ .end_
  return .begin_ main rescues elseBranch ensure

/-- A body that may be rescued. With clauses behind it, it becomes a single statement. -/
def rescuedBody (g : Grammar) : Parse Body := do
  let start ← currentStart
  let main ← body g .rescue_
  let cursor ← get
  if cursor.atWord .rescue_ || cursor.atWord .else_ || cursor.atWord .ensure_ then
    let node ← rescueClauses g main
    let span ← spanFrom start
    return ⟨[⟨node, span⟩], span⟩
  else
    return main

end DeclaredMethods.Source
