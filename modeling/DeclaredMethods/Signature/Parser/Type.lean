import DeclaredMethods.Signature.Cursor
import DeclaredMethods.Signature.Type

/-!
# Reading types

Types are read by layers: a primary type, an optional type, an intersection and a union. The
layers above the primary types are functions of the reader for primary types, and so are the
primary types that hold other types; `primaryUpTo` ties the knot by how deeply types are nested.

The type parameters in scope are an argument: a bare name among them is a variable.
-/

namespace DeclaredMethods.Signature.Parse

def typeName : Parse TypeName := do
  let absolute ← eat .doubleColon
  let first ← ident "type name"
  let (path, name) ← iterate (fun (path, name) => do
    let cursor ← get
    if cursor.atMark .doubleColon && cursor.next.kind.isIdent then
      advance
      let inner ← ident "type name"
      return .again (path ++ [name], inner)
    else
      return .done (path, name)) ([], first)
  return ⟨path, name, absolute⟩

/-- Reads a name and a colon if both stand here. -/
def label? : Parse (Option String) := do
  let cursor ← get
  match cursor.current.kind with
  | .ident name =>
    if cursor.nextIsMark .colon then
      advance
      advance
      return some name
    else
      return none
  | _ => return none

/-- Reads a type that a question mark may follow. A question mark in front of a brace belongs to
the block of a method type. What a method returns is read at this layer, so that a bar behind it
separates overloads. -/
def optionalType (primary : Parse TypeExpr) : Parse TypeExpr := do
  let type ← primary
  let cursor ← get
  if cursor.atMark .question && !cursor.nextIsMark .leftBrace then
    advance
    return .optional type
  else
    return type

/-- Reads types with a mark between them; a single one stands for itself. -/
def chain (mark : Mark) (make : List TypeExpr → TypeExpr) (part : Parse TypeExpr) :
    Parse TypeExpr := do
  let first ← part
  match ← whileMark mark part [first] with
  | [type] => return type
  | types => return make types

/-- Reads an intersection or a type of a lower layer. -/
def intersectionType (primary : Parse TypeExpr) : Parse TypeExpr :=
  chain .ampersand .intersection (optionalType primary)

def fullType (primary : Parse TypeExpr) : Parse TypeExpr :=
  chain .pipe .union (intersectionType primary)

/-- Reads a parameter: a type that a name may follow. -/
def param (primary : Parse TypeExpr) : Parse Param := do
  let type ← fullType primary
  match ← currentKind with
  | .ident name =>
    advance
    return ⟨type, some name⟩
  | _ => return ⟨type, none⟩

/-- Reads a parameter of any kind and adds it to those in front of it. -/
def addParam (primary : Parse TypeExpr) (params : Params) : Parse Params := do
  if ← eat .doubleStar then
    return { params with restKeywords := some (← param primary) }
  else if ← eat .star then
    return { params with rest := some (← param primary) }
  else
    let isOptional ← eat .question
    match ← label? with
    | some keyword =>
      let param ← param primary
      if isOptional then
        return { params with optionalKeywords := params.optionalKeywords ++ [(keyword, param)] }
      else
        return { params with requiredKeywords := params.requiredKeywords ++ [(keyword, param)] }
    | none =>
      let param ← param primary
      if isOptional then
        return { params with optional := params.optional ++ [param] }
      else if params.rest.isSome || !params.optional.isEmpty then
        return { params with trailing := params.trailing ++ [param] }
      else
        return { params with required := params.required ++ [param] }

/-- Reads a parameter list if one stands here. -/
def params (primary : Parse TypeExpr) : Parse Params := do
  if ← eat .leftParen then
    let params ← itemsUntil .rightParen (addParam primary) .none
    expect .rightParen "`)`"
    return params
  else
    return .none

/-- Skips what a block or proc binds `self` to. -/
def skipSelfBinding (primary : Parse TypeExpr) : Parse Unit := do
  let cursor ← get
  if cursor.atMark .leftBracket && cursor.next.kind.isWord "self" then
    advance
    advance
    expect .colon "`:`"
    let _ ← fullType primary
    expect .rightBracket "`]`"

/-- Reads what stands between the braces of a block, and the closing one. -/
def blockBody (primary : Parse TypeExpr) (required : Bool) : Parse BlockType := do
  expect .leftBrace "`\x7b`"
  let params ← params primary
  skipSelfBinding primary
  expect .arrow "`->`"
  let returnType ← optionalType primary
  expect .rightBrace "`\x7d`"
  return ⟨params, returnType, required⟩

def block? (primary : Parse TypeExpr) : Parse (Option BlockType) := do
  let cursor ← get
  if cursor.atMark .question && cursor.nextIsMark .leftBrace then
    advance
    return some (← blockBody primary false)
  else if cursor.atMark .leftBrace then
    return some (← blockBody primary true)
  else
    return none

/-- Reads parameters, a block and what is returned, of a method with the given type
parameters. -/
def function (primary : Parse TypeExpr) (typeParams : List String) : Parse MethodType := do
  let params ← params primary
  skipSelfBinding primary
  let block ← block? primary
  expect .arrow "`->`"
  let returnType ← optionalType primary
  return ⟨typeParams, params, block, returnType⟩

def typeArgs (primary : Parse TypeExpr) : Parse (List TypeExpr) := do
  if ← eat .leftBracket then
    let args ← commaSeparated (fullType primary)
    expect .rightBracket "`]`"
    return args
  else
    return []

/-- Reads a named type, which is a variable if it is a bare name in scope. -/
def namedType (scope : List String) (primary : Parse TypeExpr) : Parse TypeExpr := do
  let name ← typeName
  let args ← typeArgs primary
  if !name.absolute && name.path.isEmpty && args.isEmpty && scope.contains name.name then
    return .variable_ name.name
  else
    return .ofName name args

def tuple (primary : Parse TypeExpr) : Parse TypeExpr := do
  let items ← itemsUntil .rightBracket
    (fun items => return items ++ [← fullType primary]) []
  expect .rightBracket "`]`"
  return .tuple items

def recordKey : Parse String := do
  match ← label? with
  | some key => return key
  | none =>
    match ← currentKind with
    | .symbol key | .str key =>
      advance
      expect .fatArrow "`=>`"
      return key
    | .int value =>
      advance
      expect .fatArrow "`=>`"
      return toString value
    | _ => fail "record field"

def record (primary : Parse TypeExpr) : Parse TypeExpr := do
  let fields ← itemsUntil .rightBrace (fun fields => do
    let _ ← eat .question
    let key ← recordKey
    return fields ++ [(key, ← fullType primary)]) []
  expect .rightBrace "`\x7d`"
  return .record fields

def wordType (scope : List String) (primary : Parse TypeExpr) (word : String) :
    Parse TypeExpr := do
  let cursor ← get
  if cursor.nextIsMark .doubleColon then
    namedType scope primary
  else if word == "untyped" then
    advance
    return .any
  else if word == "true" || word == "false" then
    advance
    return .literal (.bool (word == "true"))
  else if word == "singleton" && cursor.nextIsMark .leftParen then
    advance
    advance
    let name ← typeName
    expect .rightParen "`)`"
    return .singleton name
  else
    match BaseType.ofKeyword? word with
    | some base =>
      advance
      return .base base
    | none => namedType scope primary

/-- Reads a primary type, given a reader for the primary types inside it. -/
def primaryWith (scope : List String) (inner : Parse TypeExpr) : Parse TypeExpr := do
  match ← currentKind with
  | .mark .leftParen =>
    advance
    let type ← fullType inner
    expect .rightParen "`)`"
    return type
  | .mark .leftBracket =>
    advance
    tuple inner
  | .mark .leftBrace =>
    advance
    record inner
  | .mark .caret =>
    advance
    return .proc (← function inner [])
  | .mark .doubleColon => namedType scope inner
  | .int value =>
    advance
    return .literal (.int value)
  | .str value =>
    advance
    return .literal (.str value)
  | .symbol name =>
    advance
    return .literal (.symbol name)
  | .ident word => wordType scope inner word
  | _ => fail "type"

/-- Reads a primary type in which types are nested at most `depth` deep. -/
def primaryUpTo (scope : List String) : Nat → Parse TypeExpr
  | 0 => fail "type"
  | depth + 1 => primaryWith scope (primaryUpTo scope depth)

/-- Reads a primary type. A token is read before each nested type, so the number of tokens
bounds the depth. -/
def primary (scope : List String) : Parse TypeExpr := do
  primaryUpTo scope (← get).rounds

def type (scope : List String) : Parse TypeExpr :=
  fullType (primary scope)

/-- Reads the type parameters of a method type if there are any. Each is in scope in its own
bound and behind it. -/
def methodTypeParams (scope : List String) : Parse (List String) := do
  if ← eat .leftBracket then
    let names ← iterate (fun names => do
      let _ ← eatWord "unchecked"
      let names := names ++ [← ident "type parameter"]
      if ← eat .less then
        let _ ← type (scope ++ names)
      if ← eat .comma then
        return .again names
      else
        return .done names) []
    expect .rightBracket "`]`"
    return names
  else
    return []

def methodType (scope : List String) : Parse MethodType := do
  let typeParams ← methodTypeParams scope
  function (primary (scope ++ typeParams)) typeParams

end DeclaredMethods.Signature.Parse
