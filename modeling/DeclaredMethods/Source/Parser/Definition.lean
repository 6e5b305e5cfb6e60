import DeclaredMethods.Source.Parser.Block

/-!
# Definitions

Classes, modules, singleton classes and methods. A definition whose head cannot be read is
skipped with its body, so that its `end` does not close what is around it.
-/

namespace DeclaredMethods.Source

open Parse

/-- The names behind a constant, each with the `::` before it. -/
def constSegments (first : String) : Parse (List String) :=
  iterate (fun segments => do
    let cursor ← get
    match cursor.atMark .colonColon, cursor.next.kind with
    | true, .const name =>
      advance
      advance
      return .again (segments ++ [name])
    | _, _ => return .done segments) [first]

/-- The name of a class or module. -/
def constPath? : Parse (Option (Spanned ConstPath)) := do
  let start ← currentStart
  let absolute ← eat .colonColon
  match ← currentKind with
  | .const first =>
    advance
    let segments ← constSegments first
    return some ⟨⟨absolute, segments⟩, ← spanFrom start⟩
  | _ =>
    fail .expectedName
    return none

/-- Skips the rest of a definition that starts at `start` and whose head could not be read. -/
def skipDefinition (g : Grammar) (start : Nat) : Parse Expr := do
  let _ ← inScope false (body g .end_)
  expectWord .end_ "'end'"
  finish start .error

/-- The singleton class of an object; `class <<` has been read. -/
def singletonClass (g : Grammar) (start : Nat) : Parse Expr := do
  let target ← g.expr
  let inner ← inScope false (body g .end_)
  expectWord .end_ "'end' to close singleton class"
  finish start (.singletonClass target inner)

def superclass? (g : Grammar) : Parse (Option Expr) := do
  if ← eat .lt then
    return some (← g.expr)
  else
    return none

def classDefinition (g : Grammar) : Parse Expr := do
  let start ← currentStart
  advance
  if ← eat .shiftLeft then
    singletonClass g start
  else
    match ← constPath? with
    | none => skipDefinition g start
    | some name =>
      let superclass ← superclass? g
      let inner ← inScope false (rescuedBody g)
      expectWord .end_ "'end' to close class"
      finish start (.classDef name superclass inner)

def moduleDefinition (g : Grammar) : Parse Expr := do
  let start ← currentStart
  advance
  match ← constPath? with
  | none => skipDefinition g start
  | some name =>
    let inner ← inScope false (body g .end_)
    expectWord .end_ "'end' to close module"
    finish start (.moduleDef name inner)

/-- What a method of a single object is defined on, if a name and a dot stand here. -/
def definitionReceiver? : Parse (Option Expr) := do
  let cursor ← get
  let node? : Option Node :=
    match cursor.current.kind with
    | .keyword .self_ => some .self
    | .const name => some (.const ⟨false, [name]⟩)
    | .ident name => some (.ident name)
    | _ => none
  match cursor.nextIsMark .dot, node? with
  | true, some node =>
    advance
    advance
    return some ⟨node, cursor.current.span⟩
  | _, _ => return none

/-- Reads the name of a method before the `=` of a setter: a name, a keyword, an operator sign
or a pair of brackets. -/
def baseMethodName? : Parse (Option String) := do
  match ← currentKind with
  | .ident name =>
    advance
    return some name
  | .const name =>
    advance
    return some name
  | .keyword word =>
    advance
    return some word.spelling
  | .punct .leftBracket =>
    advance
    if ← eat .rightBracket then return some "[]" else return none
  | .punct mark =>
    match mark.methodName? with
    | some name =>
      advance
      return some name
    | none => return none
  | _ => return none

def atSetterSign (cursor : Cursor) : Bool :=
  cursor.atMark .assign && !cursor.spaceBefore &&
    (cursor.nextIsMark .leftParen || !cursor.nextIsAdjacent) && !cursor.next.kind.isNewline

def definitionName? : Parse (Option (Spanned String)) := do
  let start ← currentStart
  match ← baseMethodName? with
  | none => return none
  | some name =>
    if atSetterSign (← get) then
      advance
      return some ⟨name ++ "=", ← spanFrom start⟩
    else
      return some ⟨name, ← spanFrom start⟩

/-- The parameters of a method, with or without parentheses. -/
def definitionParams (g : Grammar) : Parse (List Param) := do
  let cursor ← get
  if cursor.atMark .leftParen then
    advance
    let params ← paramList g (some .rightParen)
    expect .rightParen "')'"
    return params
  else if cursor.atTerminator || cursor.atMark .assign then
    return []
  else
    paramList g none

/-- The body of a method: one statement behind an equals sign, or statements up to `end`. -/
def definitionBody (g : Grammar) : Parse Body := do
  if ← eat .assign then
    skipNewlines
    let start ← currentStart
    let expr ← statement g
    return ⟨[expr], ← spanFrom start⟩
  else
    let inner ← rescuedBody g
    expectWord .end_ "'end' to close method"
    return inner

def methodDefinition (g : Grammar) : Parse Expr := do
  let start ← currentStart
  advance
  let receiver ← definitionReceiver?
  match ← definitionName? with
  | none =>
    fail .expectedName
    skipDefinition g start
  | some name =>
    let (params, inner) ← inScope false (do
      let params ← definitionParams g
      declareParams params
      let inner ← definitionBody g
      return (params, inner))
    finish start (.methodDef receiver name params inner)

end DeclaredMethods.Source
