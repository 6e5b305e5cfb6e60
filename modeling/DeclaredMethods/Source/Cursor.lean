import DeclaredMethods.Source.Lexer
import DeclaredMethods.Source.Syntax
import DeclaredMethods.Source.ParseError
import DeclaredMethods.Iteration

/-!
# The parser's cursor

A cursor stands between the tokens already read and those still to come. It shows the current
and the next token; a lexical error is reported as soon as the token behind it is fetched, two
tokens ahead. Beside the place in the source it carries what the grammar depends on: the local
variables in scope, whether a `do` may start a block, and how deeply expressions are nested.

Productions change a cursor only through the operations of this module.
-/

namespace DeclaredMethods.Source

/-- Local variables of a scope. Blocks also see the variables around them; the bodies of
methods, classes and modules do not. -/
structure Scope where
  locals : List String
  inherits : Bool

/-- The state of a parse. -/
structure Cursor where
  previous : Token
  current : Token
  next : Token
  /-- Tokens and lexical errors behind the next token. -/
  pending : List (Except LexError Token)
  /-- Number of bytes of the source. -/
  size : Nat
  errors : List ParseError
  /-- Scopes, the innermost first. -/
  scopes : List Scope
  /-- Whether a `do` may attach to the call being read. Command arguments and loop conditions
  leave it to the construct around them. -/
  allowDo : Bool
  /-- Number of tokens read so far. -/
  position : Nat
  /-- How deeply the current expression is nested. -/
  depth : Nat
  /-- Set once expressions were nested too deeply: what follows is skipped, and errors that only
  stem from this are not reported. -/
  tooDeep : Bool

/-- How deeply expressions may be nested. -/
def maxDepth : Nat := 128

/-- The next token of a stream, the lexical errors in front of it and what follows it. Behind
the stream there is only the end of the source. -/
def fetch (size : Nat) :
    List (Except LexError Token) → List ParseError × Token × List (Except LexError Token)
  | [] => ([], ⟨.eof, ⟨size, size⟩⟩, [])
  | .ok token :: rest => ([], token, rest)
  | .error error :: rest =>
    let (errors, token, pending) := fetch size rest
    (.ofLex error :: errors, token, pending)

namespace Cursor

def start (source : String) : Cursor :=
  let size := Text.byteLength source.toList
  let (firstErrors, current, pending) := fetch size (scan source)
  let (nextErrors, next, pending) := fetch size pending
  { previous := ⟨.eof, ⟨0, 0⟩⟩
    current := current
    next := next
    pending := pending
    size := size
    errors := firstErrors ++ nextErrors
    scopes := [⟨[], false⟩]
    allowDo := true
    position := 0
    depth := 0
    tooDeep := false }

def advance (cursor : Cursor) : Cursor :=
  let (errors, token, pending) := fetch cursor.size cursor.pending
  { cursor with
    previous := cursor.current
    current := cursor.next
    next := token
    pending := pending
    errors := cursor.errors ++ errors
    position := cursor.position + 1 }

/-- A bound on the number of times a loop that reads a token in every round can run. -/
def rounds (cursor : Cursor) : Nat :=
  cursor.pending.length + 3

def atEnd (cursor : Cursor) : Bool :=
  cursor.current.kind.isEof

def atWord (cursor : Cursor) (word : Keyword) : Bool :=
  cursor.current.kind.isWord word

def atMark (cursor : Cursor) (mark : Punct) : Bool :=
  cursor.current.kind.isMark mark

def nextIsMark (cursor : Cursor) (mark : Punct) : Bool :=
  cursor.next.kind.isMark mark

/-- Whether the current token is the mark that closes the construct, if a mark does. -/
def atCloser (cursor : Cursor) (closer : Option Punct) : Bool :=
  match closer with
  | some mark => cursor.atMark mark
  | none => false

/-- Whether the current token ends a statement. -/
def atTerminator (cursor : Cursor) : Bool :=
  cursor.current.kind.isTerminator

/-- Whether a gap separates the previous token from the current one. -/
def spaceBefore (cursor : Cursor) : Bool :=
  cursor.previous.span.stop < cursor.current.span.start

/-- Whether the current and the next token touch. -/
def nextIsAdjacent (cursor : Cursor) : Bool :=
  cursor.current.span.stop == cursor.next.span.start

/-- Whether the current token opens an argument list: a parenthesis that touches the name. -/
def atCallParen (cursor : Cursor) : Bool :=
  cursor.atMark .leftParen && !cursor.spaceBefore

/-- The span from `start` to the end of the last token read. -/
def spanFrom (cursor : Cursor) (start : Nat) : Span :=
  ⟨start, max cursor.previous.span.stop start⟩

/-- Records an error, unless what is read is skipped. -/
def report (cursor : Cursor) (error : ParseError) : Cursor :=
  if cursor.tooDeep then cursor else { cursor with errors := cursor.errors ++ [error] }

def pushScope (cursor : Cursor) (inherits : Bool) : Cursor :=
  { cursor with scopes := ⟨[], inherits⟩ :: cursor.scopes }

/-- Closes the innermost scope; the outermost one stays. -/
def popScope (cursor : Cursor) : Cursor :=
  match cursor.scopes with
  | _ :: outer :: rest => { cursor with scopes := outer :: rest }
  | _ => cursor

/-- Makes a name a local variable of the innermost scope. -/
def declare (cursor : Cursor) (name : String) : Cursor :=
  match cursor.scopes with
  | scope :: rest =>
    if scope.locals.contains name then cursor
    else { cursor with scopes := { scope with locals := name :: scope.locals } :: rest }
  | [] => cursor

/-- Whether a name is a local variable of one of the scopes, the innermost first. -/
def knows (name : String) : List Scope → Bool
  | [] => false
  | scope :: outer => scope.locals.contains name || (scope.inherits && knows name outer)

def isLocal (cursor : Cursor) (name : String) : Bool :=
  knows name cursor.scopes

end Cursor

/-- A step of a parse: it reads tokens and gives a value. A step would give nothing if one of its
loops went on forever. -/
abbrev Parse := StateT Cursor Option

namespace Parse

def advance : Parse Unit :=
  modify Cursor.advance

def currentKind : Parse TokenKind := do
  return (← get).current.kind

def currentSpan : Parse Span := do
  return (← get).current.span

def currentStart : Parse Nat := do
  return (← get).current.span.start

/-- The span from `start` to the end of the last token read. -/
def spanFrom (start : Nat) : Parse Span := do
  return (← get).spanFrom start

/-- The expression that was read since `start`. -/
def finish (start : Nat) (node : Node) : Parse Expr := do
  return ⟨node, ← spanFrom start⟩

/-- Reports an error at the current token. -/
def fail (kind : ParseErrorKind) : Parse Unit :=
  modify fun cursor => cursor.report ⟨kind, cursor.current.span⟩

/-- Reports the current token as unexpected. -/
def unexpected (expected : String) : Parse Unit := do
  fail (.unexpectedToken expected (← currentKind))

def eatWord (word : Keyword) : Parse Bool := do
  if (← get).atWord word then
    advance
    return true
  else
    return false

def eat (mark : Punct) : Parse Bool := do
  if (← get).atMark mark then
    advance
    return true
  else
    return false

/-- Reports what stands here instead of what was expected. -/
def missing (expected : String) : Parse Unit := do
  if (← get).atEnd then fail (.unexpectedEof expected) else unexpected expected

/-- Reads the given keyword, or reports that it is missing. -/
def expectWord (word : Keyword) (expected : String) : Parse Unit := do
  if (← get).atWord word then advance else missing expected

/-- Reads the given mark, or reports that it is missing. -/
def expect (mark : Punct) (expected : String) : Parse Unit := do
  if (← get).atMark mark then advance else missing expected

/-- Makes a name a local variable. -/
def declare (name : String) : Parse Unit :=
  modify fun cursor => cursor.declare name

/-- Makes the names of parameters local variables. -/
def declareParams : List Param → Parse Unit
  | [] => pure ()
  | param :: params => do
    match param.name with
    | some name => declare name
    | none => pure ()
    declareParams params

/-- Runs a step in a scope of its own. -/
def inScope {α : Type} (inherits : Bool) (inner : Parse α) : Parse α := do
  modify fun cursor => cursor.pushScope inherits
  let value ← inner
  modify Cursor.popScope
  return value

/-- Runs a step in which a `do` may or may not start a block. -/
def withDo {α : Type} (allowed : Bool) (inner : Parse α) : Parse α := do
  let saved := (← get).allowDo
  modify fun cursor => { cursor with allowDo := allowed }
  let value ← inner
  modify fun cursor => { cursor with allowDo := saved }
  return value

/-- Repeats a step until it is done. The step reads a token in every round but the last, so the
bound is never reached. -/
def iterate {α : Type} (step : α → Parse (Round α)) (init : α) : Parse α := do
  iterateWithin (← get).rounds step init

/-- Reads tokens as long as they satisfy a test, which the end of the source must not. -/
def skipWhile (test : TokenKind → Bool) : Parse Unit :=
  iterate (fun _ => do
    if test (← currentKind) then
      advance
      return .again ()
    else
      return .done ()) ()

/-- Reads line ends. -/
def skipNewlines : Parse Unit :=
  skipWhile TokenKind.isNewline

/-- Reads line ends and semicolons. -/
def skipTerminators : Parse Unit :=
  skipWhile fun kind => kind.isNewline || kind.isMark .semicolon

/-- Reads a comma and an item as often as a comma stands here, and adds the items to a list. -/
def whileComma {α : Type} (item : Parse α) (items : List α) : Parse (List α) :=
  iterate (fun items => do
    if ← eat .comma then
      return .again (items ++ [← item])
    else
      return .done items) items

/-- Skips the rest of the source because expressions are nested too deeply. -/
def abandon : Parse Expr := do
  let span ← currentSpan
  fail .tooDeep
  modify fun cursor => { cursor with tooDeep := true }
  skipWhile fun kind => !kind.isEof
  return ⟨.error, span⟩

/-- Runs a step one nesting level further in, unless the limit is reached. -/
def nested (inner : Parse Expr) : Parse Expr := do
  if maxDepth ≤ (← get).depth then
    abandon
  else
    modify fun cursor => { cursor with depth := cursor.depth + 1 }
    let expr ← inner
    modify fun cursor => { cursor with depth := cursor.depth - 1 }
    return expr

end Parse

end DeclaredMethods.Source
