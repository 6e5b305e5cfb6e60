import DeclaredMethods.Source.Parser.Call
import DeclaredMethods.Source.Parser.Control
import DeclaredMethods.Source.Parser.Definition

/-!
# Expressions

From the inside out: primary expressions, what may follow them, prefix operators, chains of
binary operators by strength, and assignments and conditional expressions.
-/

namespace DeclaredMethods.Source

open Parse

def tokenExpr (node : Node) : Parse Expr := do
  let span ← currentSpan
  advance
  return ⟨node, span⟩

/-- A symbol. An equals sign that touches it belongs to its name. -/
def symbolLiteral (name : String) : Parse Expr := do
  let start ← currentStart
  advance
  let cursor ← get
  if cursor.atMark .assign && !cursor.spaceBefore then
    advance
    finish start (.literal (.symbol (name ++ "=")))
  else
    finish start (.literal (.symbol name))

/-- A list of words: all its items stand at the place of the list. -/
def wordList (words : List String) (item : String → Literal) : Parse Expr := do
  let span ← currentSpan
  advance
  return ⟨.array (words.map fun word => ⟨.literal (item word), span⟩), span⟩

/-- A local variable or a call of a method by its name alone. -/
def identifier (g : Grammar) (name : String) : Parse Expr := do
  let span ← currentSpan
  advance
  let cursor ← get
  if cursor.isLocal name && !cursor.atCallParen then
    return ⟨.ident name, span⟩
  else
    callTail g none ⟨name, span⟩ false span.start

/-- A constant, or a call of a method with a capitalized name. -/
def constant (g : Grammar) (name : String) : Parse Expr := do
  let span ← currentSpan
  advance
  if (← get).atCallParen then
    callTail g none ⟨name, span⟩ false span.start
  else
    let segments ← constSegments name
    finish span.start (.const ⟨false, segments⟩)

def rootConstant : Parse Expr := do
  let start ← currentStart
  advance
  match ← currentKind with
  | .const name =>
    advance
    let segments ← constSegments name
    finish start (.const ⟨true, segments⟩)
  | _ =>
    fail .expectedName
    finish start .error

def arrayLiteral (g : Grammar) : Parse Expr := do
  let start ← currentStart
  advance
  let args ← enclosedArguments g .rightBracket "']'"
  finish start (.array args.positional)

def hashExpr (g : Grammar) : Parse Expr := do
  let start ← currentStart
  advance
  let entries ← hashLiteral g
  finish start (.hash entries)

/-- Statements in parentheses. -/
def parenthesized (g : Grammar) : Parse Expr := do
  let start ← currentStart
  advance
  let inner ← withDo true (body g .paren)
  expect .rightParen "')'"
  finish start (.paren inner)

def lambdaExpr (g : Grammar) : Parse Expr := do
  let start ← currentStart
  advance
  let block ← lambda g start
  finish start (.lambda block)

def beginExpr (g : Grammar) : Parse Expr := do
  let start ← currentStart
  advance
  let main ← body g .rescue_
  let node ← rescueClauses g main
  expectWord .end_ "'end' to close begin"
  finish start node

/-- Whether nothing that could be a value follows. -/
def atValueEnd (cursor : Cursor) : Bool :=
  match cursor.current.kind with
  | .keyword .if_ | .keyword .unless_ | .keyword .while_ | .keyword .until_ => true
  | .keyword .rescue_ | .keyword .end_ => true
  | .punct .rightBrace | .punct .rightParen => true
  | kind => kind.isTerminator

def returnExpr (g : Grammar) : Parse Expr := do
  let start ← currentStart
  advance
  if atValueEnd (← get) then
    finish start (.return_ none)
  else
    let value ← g.expr
    finish start (.return_ (some value))

def yieldExpr (g : Grammar) : Parse Expr := do
  let start ← currentStart
  advance
  let args ← callArguments g
  finish start (.yield_ args.positional)

/-- A token that starts no expression. Tokens that close a construct are left to it. -/
def noExpression : Parse Expr := do
  let cursor ← get
  fail .expectedExpr
  match cursor.current.kind with
  | .eof | .keyword .end_ | .punct .rightBrace | .punct .rightParen | .punct .rightBracket =>
    return ⟨.error, cursor.current.span⟩
  | _ =>
    advance
    finish cursor.current.span.start .error

def primary (g : Grammar) : Parse Expr := do
  match ← currentKind with
  | .keyword .nil_ => tokenExpr .nil
  | .keyword .true_ => tokenExpr .true
  | .keyword .false_ => tokenExpr .false
  | .keyword .self_ => tokenExpr .self
  | .int value => tokenExpr (.literal (.int value))
  | .float value => tokenExpr (.literal (.float value))
  | .str value interpolated => tokenExpr (.literal (.str value interpolated))
  | .symbol name => symbolLiteral name
  | .symbolArray words => wordList words .symbol
  | .wordArray words => wordList words fun word => .str word false
  | .instanceVar name => tokenExpr (.var .instance_ name)
  | .classVar name => tokenExpr (.var .class_ name)
  | .globalVar name => tokenExpr (.var .global name)
  | .ident name => identifier g name
  | .const name => constant g name
  | .punct .colonColon => rootConstant
  | .punct .leftBracket => arrayLiteral g
  | .punct .leftBrace => hashExpr g
  | .punct .leftParen => parenthesized g
  | .punct .arrow => lambdaExpr g
  | .keyword .class_ => classDefinition g
  | .keyword .module_ => moduleDefinition g
  | .keyword .def_ => methodDefinition g
  | .keyword .if_ => conditional g false
  | .keyword .unless_ => conditional g true
  | .keyword .while_ => loop g false
  | .keyword .until_ => loop g true
  | .keyword .case_ => caseDistinction g
  | .keyword .begin_ => beginExpr g
  | .keyword .return_ => returnExpr g
  | .keyword .yield_ => yieldExpr g
  | _ => noExpression

def dotCall (g : Grammar) (start : Nat) (receiver : Expr) : Parse (Round Expr) := do
  let safeNavigation := (← get).atMark .safeNav
  advance
  skipNewlines
  match ← methodName? with
  | some name => return .again (← callTail g (some receiver) name safeNavigation start)
  | none =>
    fail .expectedName
    return .done receiver

/-- What a constant name behind `::` makes of the expression in front of it. -/
def scopedNode (outer : Expr) (name : Spanned String) : Node :=
  match outer.node with
  | .const path => .const { path with segments := path.segments ++ [name.node] }
  | _ => .call (some outer) name .none none false

/-- A constant or a call behind `::`, which has not been read. -/
def scopedName (g : Grammar) (start : Nat) (outer : Expr) : Parse (Round Expr) := do
  advance
  let cursor ← get
  let span := cursor.current.span
  match cursor.current.kind, cursor.nextIsMark .leftParen with
  | .const name, false =>
    advance
    return .again (← finish start (scopedNode outer ⟨name, span⟩))
  | .const name, true =>
    advance
    return .again (← callTail g (some outer) ⟨name, span⟩ false start)
  | .ident name, _ =>
    advance
    return .again (← callTail g (some outer) ⟨name, span⟩ false start)
  | _, _ =>
    fail .expectedName
    return .done outer

/-- An index in brackets, the first of which has not been read. -/
def indexCall (g : Grammar) (start : Nat) (receiver : Expr) : Parse (Round Expr) := do
  let span ← currentSpan
  advance
  let args ← enclosedArguments g .rightBracket "']'"
  return .again (← finish start (.call (some receiver) ⟨"[]", span⟩ args none false))

/-- One call, name or index behind an expression that was read since `start`. A dot at the start
of the next line goes on with the expression. -/
def trailer (g : Grammar) (start : Nat) (expr : Expr) : Parse (Round Expr) := do
  let cursor ← get
  if cursor.current.kind.isNewline && (cursor.nextIsMark .dot || cursor.nextIsMark .safeNav) then
    advance
  let cursor ← get
  match cursor.current.kind with
  | .punct .dot | .punct .safeNav => dotCall g start expr
  | .punct .colonColon => scopedName g start expr
  | .punct .leftBracket =>
    if cursor.spaceBefore then return .done expr else indexCall g start expr
  | _ => return .done expr

/-- An expression with the calls, names and indices behind it. -/
def trailed (g : Grammar) : Parse Expr := do
  let start ← currentStart
  let first ← primary g
  iterate (trailer g start) first

/-- The negation of an expression; the sign of a number becomes part of it. -/
def negated (opSpan : Span) (operand : Expr) : Node :=
  match operand.node with
  | .literal (.int value) => .literal (.int (-value))
  | .literal (.float value) => .literal (.float (-value))
  | _ => .unary ⟨.neg, opSpan⟩ operand

def operand (g : Grammar) : Parse Expr := do
  let opSpan ← currentSpan
  match ← currentKind with
  | .punct .bang | .keyword .not_ =>
    advance
    let inner ← g.unary
    finish opSpan.start (.unary ⟨.not, opSpan⟩ inner)
  | .punct .minus =>
    advance
    let inner ← g.unary
    finish opSpan.start (negated opSpan inner)
  | .punct .star =>
    advance
    let inner ← g.unary
    finish opSpan.start (.splat inner)
  | _ => trailed g

/-- The least strength of the operators to the right of an operator: only powers associate to
the right. -/
def rightLeast (op : BinaryOp) : Precedence :=
  if op = .pow then op.precedence else op.precedence.next

/-- A chain of binary operators that bind at least as strongly as given. -/
def chain (g : Grammar) (least : Precedence) : Parse Expr := do
  let start ← currentStart
  let first ← g.unary
  iterate (fun left => do
    let cursor ← get
    match cursor.current.kind.binaryOp? with
    | some op =>
      if op.precedence.rank < least.rank then
        return .done left
      else
        advance
        skipNewlines
        let right ← g.binary (rightLeast op)
        return .again (← finish start (.binary left ⟨op, cursor.current.span⟩ right))
    | none => return .done left) first

/-- The branches of a conditional expression whose condition and question mark have been read. -/
def ternary (g : Grammar) (start : Nat) (condition : Expr) : Parse Expr := do
  skipNewlines
  let thenExpr ← g.expr
  skipNewlines
  expect .colon "':' in ternary"
  skipNewlines
  let elseExpr ← g.expr
  finish start (.if_ condition (.single thenExpr) (some (.single elseExpr)) false)

def assignmentOp? (target : Expr) (cursor : Cursor) : Option AssignOp :=
  if target.node.isAssignable then cursor.current.kind.assignOp? else none

def assignment (g : Grammar) : Parse Expr := do
  let start ← currentStart
  let left ← g.binary .range
  match assignmentOp? left (← get) with
  | some op =>
    advance
    skipNewlines
    let target ← assignTarget left
    let value ← g.expr
    finish start (.assign target op value)
  | none =>
    if ← eat .question then ternary g start left else return left

end DeclaredMethods.Source
