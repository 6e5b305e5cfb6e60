import DeclaredMethods.Signature.Declaration
import DeclaredMethods.Signature.Parser.Type

/-!
# Reading declarations

Declarations hold members, and members can be declarations: the reader for members is a function
of the reader for declarations, and `declarationUpTo` ties the knot by how deeply declarations
are nested. Declarations of values have no part in the types, so they are read and dropped.
-/

namespace DeclaredMethods.Signature.Parse

/-- Reads the type parameters of a declaration if there are any. Each is in scope in its own
bound and default and behind them. -/
def typeParams (scope : List String) : Parse (List TypeParam) := do
  if ← eat .leftBracket then
    let params ← iterate (fun params => do
      let _ ← eatWord "unchecked"
      if !(← eatWord "in") then
        let _ ← eatWord "out"
      let name ← ident "type parameter"
      let scope := scope ++ params.map TypeParam.name ++ [name]
      let upperBound ← if ← eat .less then some <$> type scope else pure none
      if ← eat .equals then
        let _ ← type scope
      let params := params ++ [⟨name, upperBound⟩]
      if ← eat .comma then
        return .again params
      else
        return .done params) []
    expect .rightBracket "`]`"
    return params
  else
    return []

/-- Reads a name with type arguments. -/
def parent (scope : List String) : Parse Parent := do
  let name ← typeName
  return ⟨name, ← typeArgs (primary scope)⟩

/-- Skips the declaration of a constant or global variable if one stands here, and says whether
one did. -/
def skipValueDeclaration (scope : List String) : Parse Bool := do
  match ← currentKind with
  | .globalVar _ =>
    advance
    skipValueType
  | .ident _ | .mark .doubleColon =>
    let _ ← typeName
    skipValueType
  | _ => return false
where
  skipValueType : Parse Bool := do
    expect .colon "`:`"
    let _ ← type scope
    return true

def skipInstanceVariable (scope : List String) : Parse Unit := do
  match ← currentKind with
  | .instanceVar _ =>
    advance
    expect .colon "`:`"
    let _ ← type scope
  | _ => fail "instance variable"

/-- Reads what says that a member belongs to the class itself, or to both the class and its
instances. -/
def memberScope : Parse MemberScope := do
  let cursor ← get
  if cursor.atWord "self" && cursor.nextIsMark .dot then
    advance
    advance
    return .singleton
  else if cursor.atWord "self" && cursor.nextIsMark .question then
    advance
    advance
    expect .dot "`.`"
    return .both
  else
    return .instance_

/-- Reads the name of a method: an identifier and the mark that may end it, or the marks that
make up an operator. The parts of a name touch. -/
def memberName : Parse String := do
  let token := (← get).current
  match token.kind with
  | .ident name =>
    advance
    let cursor ← get
    if cursor.isAdjacent && cursor.current.kind.isNameSuffix then
      advance
      return token.text ++ cursor.current.text
    else
      return name
  | kind =>
    if kind.isOperator then
      advance
      iterate (fun name => do
        let cursor ← get
        if cursor.isAdjacent && cursor.current.kind.isOperator then
          advance
          return .again (name ++ cursor.current.text)
        else
          return .done name) token.text
    else
      fail "method name"

/-- Reads the overloads of a method, and whether they are added to those that were there. -/
def overloads (scope : List String) : Parse (List MethodType × Bool) :=
  iterate (fun (overloads, _) => do
    if ← eat .ellipsis then
      return .done (overloads, true)
    else
      let overloads := overloads ++ [← methodType scope]
      if ← eat .pipe then
        return .again (overloads, false)
      else
        return .done (overloads, false)) ([], false)

def methodMember (scope : List String) : Parse Member := do
  let belonging ← memberScope
  let name ← memberName
  expect .colon "`:`"
  let (overloads, overloading) ← overloads scope
  return .method name belonging overloads overloading

def attributeMember (scope : List String) (kind : AttributeKind) : Parse Member := do
  let belonging ← memberScope
  let name ← ident "attribute name"
  if ← eat .leftParen then
    match ← currentKind with
    | .instanceVar _ => advance
    | _ => pure ()
    expect .rightParen "`)`"
  expect .colon "`:`"
  return .attribute kind name (← type scope) belonging

/-- Reads another name for a method behind its keyword. -/
def aliasMember : Parse Member := do
  let belonging ← memberScope
  let newName ← memberName
  let _ ← memberScope
  let oldName ← memberName
  return .alias_ newName oldName belonging

/-- A reader for declarations in a scope, which reads nothing if none stands there. -/
abbrev DeclarationReader := List String → Parse (Option Declaration)

/-- Reads a member that starts with a word, or skips one that has no part in the types. -/
def wordMember (inner : DeclarationReader) (scope : List String) (word : String) :
    Parse (Option Member) := do
  if word == "def" then
    advance
    return some (← methodMember scope)
  else if word == "attr_reader" then
    advance
    return some (← attributeMember scope .reader)
  else if word == "attr_writer" then
    advance
    return some (← attributeMember scope .writer)
  else if word == "attr_accessor" then
    advance
    return some (← attributeMember scope .accessor)
  else if word == "alias" then
    advance
    return some (← aliasMember)
  else if word == "include" then
    advance
    return some (.include_ (← parent scope))
  else if word == "prepend" then
    advance
    return some (.prepend (← parent scope))
  else if word == "extend" then
    advance
    return some (.extend (← parent scope))
  else if word == "public" || word == "private" then
    advance
    return none
  else if word == "self" && (← get).nextIsMark .dot then
    advance
    advance
    skipInstanceVariable scope
    return none
  else
    match ← inner scope with
    | some declaration => return some (.declaration declaration)
    | none =>
      if ← skipValueDeclaration scope then return none else fail "member"

def member (inner : DeclarationReader) (scope : List String) : Parse (Option Member) := do
  match ← currentKind with
  | .ident word => wordMember inner scope word
  | .instanceVar _ =>
    skipInstanceVariable scope
    return none
  | _ => fail "member"

def members (inner : DeclarationReader) (scope : List String) : Parse (List Member) :=
  iterate (fun members => do
    if ← eatWord "end" then
      return .done members
    else if (← currentKind).isEof then
      fail "`end`"
    else
      match ← member inner scope with
      | some member => return .again (members ++ [member])
      | none => return .again members) []

def classDeclaration (inner : DeclarationReader) (scope : List String) : Parse Declaration := do
  let name ← typeName
  if ← eat .equals then
    return .classAlias name (← typeName) false
  else
    let params ← typeParams scope
    let scope := scope ++ params.map TypeParam.name
    let superclass ← if ← eat .less then some <$> parent scope else pure none
    return .class_ name params superclass (← members inner scope)

def moduleDeclaration (inner : DeclarationReader) (scope : List String) : Parse Declaration := do
  let name ← typeName
  if ← eat .equals then
    return .classAlias name (← typeName) true
  else
    let params ← typeParams scope
    let scope := scope ++ params.map TypeParam.name
    let selfTypes ← if ← eat .colon then commaSeparated (parent scope) else pure []
    return .module_ name params selfTypes (← members inner scope)

def interfaceDeclaration (inner : DeclarationReader) (scope : List String) :
    Parse Declaration := do
  let name ← typeName
  let params ← typeParams scope
  return .interface name params (← members inner (scope ++ params.map TypeParam.name))

/-- Reads a name for a type behind its keyword. -/
def typeAliasDeclaration (scope : List String) : Parse Declaration := do
  let name ← typeName
  let params ← typeParams scope
  expect .equals "`=`"
  return .typeAlias name params (← type (scope ++ params.map TypeParam.name))

/-- Reads a declaration of a type if one stands here, given a reader for those inside it. -/
def declarationWith (inner : DeclarationReader) : DeclarationReader := fun scope => do
  if ← eatWord "class" then
    return some (← classDeclaration inner scope)
  else if ← eatWord "module" then
    return some (← moduleDeclaration inner scope)
  else if ← eatWord "interface" then
    return some (← interfaceDeclaration inner scope)
  else if ← eatWord "type" then
    return some (← typeAliasDeclaration scope)
  else
    return none

/-- Reads a declaration in which declarations are nested at most `depth` deep. -/
def declarationUpTo : Nat → DeclarationReader
  | 0 => fun _ => fail "declaration"
  | depth + 1 => declarationWith (declarationUpTo depth)

/-- Reads a declaration of a type if one stands here. A token is read before each nested
declaration, so the number of tokens bounds the depth. -/
def declaration? : Parse (Option Declaration) := do
  declarationUpTo (← get).rounds []

/-- Skips the names of one import: a name, all names of a namespace, or a name under another
one. -/
def skipUseClause : Parse Unit := do
  let _ ← eat .doubleColon
  let _ ← ident "use clause"
  iterate (fun _ => do
    if ← eat .doubleColon then
      if ← eat .star then
        return .done ()
      else
        let _ ← ident "use clause"
        return .again ()
    else
      return .done ()) ()
  if ← eatWord "as" then
    let _ ← ident "alias name"

def declarations : Parse (List Declaration) :=
  iterate (fun declarations => do
    if (← currentKind).isEof then
      return .done declarations
    else if ← eatWord "use" then
      let _ ← commaSeparated skipUseClause
      return .again declarations
    else
      match ← declaration? with
      | some declaration => return .again (declarations ++ [declaration])
      | none =>
        if ← skipValueDeclaration [] then
          return .again declarations
        else
          fail "declaration") []

end DeclaredMethods.Signature.Parse
