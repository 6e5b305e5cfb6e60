import DeclaredMethods.Iteration
import DeclaredMethods.Signature.Error
import DeclaredMethods.Signature.Lexer

/-!
# Steps of reading a signature

A cursor stands in front of the tokens still to be read and shows two of them. The first error
ends the reading.
-/

namespace DeclaredMethods.Signature

/-- The tokens still to be read. -/
structure Cursor where
  upcoming : List Token
  /-- The place behind the last token. -/
  ending : Span
  /-- Where the token read last ends. -/
  previousStop : Nat

namespace Cursor

def eofToken (cursor : Cursor) : Token :=
  ⟨.eof, cursor.ending, ""⟩

def current (cursor : Cursor) : Token :=
  cursor.upcoming.head?.getD cursor.eofToken

def next (cursor : Cursor) : Token :=
  cursor.upcoming.tail.head?.getD cursor.eofToken

def advance (cursor : Cursor) : Cursor :=
  { cursor with
    upcoming := cursor.upcoming.tail
    previousStop := cursor.current.span.stop }

/-- A bound on the number of times a loop that reads a token in every round can run, and on how
deeply types and declarations can be nested. -/
def rounds (cursor : Cursor) : Nat :=
  cursor.upcoming.length + 1

def atMark (cursor : Cursor) (mark : Mark) : Bool :=
  cursor.current.kind.isMark mark

def nextIsMark (cursor : Cursor) (mark : Mark) : Bool :=
  cursor.next.kind.isMark mark

def atWord (cursor : Cursor) (word : String) : Bool :=
  cursor.current.kind.isWord word

/-- Whether the current token touches the one in front of it. -/
def isAdjacent (cursor : Cursor) : Bool :=
  cursor.current.span.start == cursor.previousStop

/-- The error that something else was expected here. -/
def expected (cursor : Cursor) (what : String) : SyntaxError :=
  if cursor.current.kind.isEof then ⟨.unexpectedEof what, cursor.current.span⟩
  else ⟨.unexpectedToken what cursor.current.text, cursor.current.span⟩

end Cursor

/-- A step of reading a signature. -/
abbrev Parse := StateT Cursor (Except SyntaxError)

namespace Parse

def advance : Parse Unit :=
  modify Cursor.advance

def currentKind : Parse TokenKind := do
  return (← get).current.kind

/-- Ends the reading with the error that something else was expected here. -/
def fail {α : Type} (expected : String) : Parse α := do
  throw ((← get).expected expected)

def eat (mark : Mark) : Parse Bool := do
  if (← get).atMark mark then
    advance
    return true
  else
    return false

def eatWord (word : String) : Parse Bool := do
  if (← get).atWord word then
    advance
    return true
  else
    return false

def expect (mark : Mark) (expected : String) : Parse Unit := do
  if (← get).atMark mark then advance else fail expected

def ident (expected : String) : Parse String := do
  match ← currentKind with
  | .ident name =>
    advance
    return name
  | _ => fail expected

/-- Fails unless everything has been read. -/
def expectEnd (expected : String) : Parse Unit := do
  if (← currentKind).isEof then return () else fail expected

/-- Repeats a step until it is done. The step reads a token in every round but the last, so the
bound is never reached. -/
def iterate {α : Type} (step : α → Parse (Round α)) (init : α) : Parse α := do
  iterateUpTo (← get).rounds step init

/-- Reads items, each behind the given mark, and adds them to a list. -/
def whileMark {α : Type} (mark : Mark) (item : Parse α) (items : List α) : Parse (List α) :=
  iterate (fun items => do
    if ← eat mark then
      return .again (items ++ [← item])
    else
      return .done items) items

def commaSeparated {α : Type} (item : Parse α) : Parse (List α) := do
  whileMark .comma item [← item]

/-- Reads items with commas between them up to a closing mark, in front of which there may be a
comma, and adds each to what was read before it. -/
def itemsUntil {α : Type} (close : Mark) (add : α → Parse α) (init : α) : Parse α :=
  iterate (fun items => do
    if (← get).atMark close then
      return .done items
    else
      let items ← add items
      if ← eat .comma then
        return .again items
      else
        return .done items) init

end Parse

end DeclaredMethods.Signature
