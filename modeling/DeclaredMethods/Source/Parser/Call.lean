import DeclaredMethods.Source.Parser.Arguments
import DeclaredMethods.Source.Parser.Block

/-!
# Calls

A call is a method name with arguments, in parentheses that touch the name or without any, and a
block. Without parentheses, a gap and the token behind it decide whether an argument follows.
-/

namespace DeclaredMethods.Source

open Parse

/-- A method name behind a dot. Keywords are names there. -/
def methodName? : Parse (Option (Spanned String)) := do
  let cursor ← get
  let name? :=
    match cursor.current.kind with
    | .ident name => some name
    | .const name => some name
    | kind => kind.keywordText?
  match name? with
  | some name =>
    advance
    return some ⟨name, cursor.current.span⟩
  | none => return none

/-- Whether the current token begins the first argument of a call without parentheses. -/
def startsCommandArgument (cursor : Cursor) : Bool :=
  cursor.spaceBefore &&
    match cursor.current.kind with
    | .int _ | .float _ | .str _ _ | .symbol _ | .symbolArray _ | .wordArray _ => true
    | .const _ | .ident _ | .instanceVar _ | .classVar _ | .globalVar _ => true
    | .keyword .nil_ | .keyword .true_ | .keyword .false_ | .keyword .self_ => true
    | .keyword .def_ | .keyword .case_ => true
    | .punct .leftBracket | .punct .arrow => true
    | .punct .colonColon =>
      match cursor.next.kind with
      | .const _ => true
      | _ => false
    | .punct .star | .punct .starStar | .punct .amp | .punct .minus | .punct .bang =>
      cursor.nextIsAdjacent
    | .keyword _ => atLabel cursor
    | _ => false

def callArguments (g : Grammar) : Parse Arguments := do
  let cursor ← get
  if cursor.atCallParen then
    advance
    enclosedArguments g .rightParen "')'"
  else if startsCommandArgument cursor then
    commandArguments g
  else
    return .none

def callBlock? (g : Grammar) : Parse (Option Block) := do
  let cursor ← get
  if cursor.atMark .leftBrace then
    return some (← braceBlock g)
  else if cursor.atWord .do_ && cursor.allowDo then
    return some (← doBlock g)
  else
    return none

/-- A call that starts at `start` and whose name has been read. -/
def callTail (g : Grammar) (receiver : Option Expr) (name : Spanned String)
    (safeNavigation : Bool) (start : Nat) : Parse Expr := do
  let args ← callArguments g
  let block ← callBlock? g
  finish start (.call receiver name args block safeNavigation)

end DeclaredMethods.Source
