import DeclaredMethods.OrderedMap
import DeclaredMethods.Signature.Parser
import DeclaredMethods.Signature.Substitution

/-!
# Environments

An environment holds every declaration that was loaded, by its absolute name. A class or module
can be declared in several pieces. Names are looked up from the namespace they are written in: the
innermost enclosing namespace that declares a name wins, then the root.
-/

namespace DeclaredMethods.Signature

/-- One piece of a class or module. -/
structure Fragment where
  /-- The namespace that names written in the piece are looked up from. -/
  context : List String
  superclass : Option Parent
  /-- The members that are not declarations. -/
  members : List Member

/-- A class or module. What the first piece says about its kind and its type parameters holds for
all of them. -/
structure ClassEntry where
  isModule : Bool
  typeParams : List String
  fragments : List Fragment

structure InterfaceEntry where
  context : List String
  typeParams : List String
  members : List Member

/-- A name for a type. -/
structure AliasEntry where
  context : List String
  type : TypeExpr

/-- A name for a class or module. -/
structure ClassAliasEntry where
  context : List String
  oldName : TypeName

/-- All declarations by absolute name. -/
structure Environment where
  classes : OrderedMap TypeName ClassEntry
  interfaces : OrderedMap TypeName InterfaceEntry
  aliases : OrderedMap TypeName AliasEntry
  classAliases : OrderedMap TypeName ClassAliasEntry

def Member.isDeclaration : Member → Bool
  | declaration _ => true
  | _ => false

namespace Environment

def empty : Environment := ⟨.empty, .empty, .empty, .empty⟩

def addFragment (env : Environment) (name : TypeName) (isModule : Bool)
    (typeParams : List TypeParam) (superclass : Option Parent) (members : List Member) :
    Environment :=
  let fragment : Fragment :=
    ⟨name.segments, superclass, members.filter fun member => !member.isDeclaration⟩
  { env with
    classes := env.classes.alter name fun
      | some entry => { entry with fragments := entry.fragments ++ [fragment] }
      | none => ⟨isModule, typeParams.map TypeParam.name, [fragment]⟩ }

mutual

/-- Adds a declaration that is written in the namespace `outer`, and those inside it. -/
def addDeclaration (outer : List String) (env : Environment) : Declaration → Environment
  | .class_ name typeParams superclass members =>
    let name := name.inContext outer
    addNested name.segments (env.addFragment name false typeParams superclass members) members
  | .module_ name typeParams _ members =>
    let name := name.inContext outer
    addNested name.segments (env.addFragment name true typeParams none members) members
  | .interface name typeParams members =>
    { env with
      interfaces := env.interfaces.insert (name.inContext outer)
        ⟨outer, typeParams.map TypeParam.name, members⟩ }
  | .typeAlias name _ type =>
    { env with aliases := env.aliases.insert (name.inContext outer) ⟨outer, type⟩ }
  | .classAlias newName oldName _ =>
    { env with
      classAliases := env.classAliases.insert (newName.inContext outer) ⟨outer, oldName⟩ }

def addNested (outer : List String) (env : Environment) : List Member → Environment
  | [] => env
  | member :: members => addNested outer (addMember outer env member) members

def addMember (outer : List String) (env : Environment) : Member → Environment
  | .declaration declaration => addDeclaration outer env declaration
  | .method .. | .attribute .. | .alias_ .. | .include_ _ | .prepend _ | .extend _ => env

end

def addDeclarations (env : Environment) (declarations : List Declaration) : Environment :=
  declarations.foldl (addDeclaration []) env

/-- Adds the declarations of a signature text. An error leaves the environment as it was. -/
def load (env : Environment) (source : String) : Except SyntaxError Environment :=
  (parseSignature source).map env.addDeclarations

def contains (env : Environment) (name : TypeName) : Bool :=
  let name := name.rooted
  env.classes.contains name || env.interfaces.contains name || env.aliases.contains name ||
    env.classAliases.contains name

def isModule (env : Environment) (name : TypeName) : Bool :=
  match env.classes.get? name.rooted with
  | some entry => entry.isModule
  | none => false

/-- The names of the classes and modules in the order of their declarations. -/
def classNames (env : Environment) : List TypeName :=
  env.classes.keys

/-- A namespace and those around it, from the innermost to the root. -/
def enclosing (context : List String) : List (List String) :=
  (List.range (context.length + 1)).reverse.map context.take

/-- The absolute name that a name written in the given namespace stands for. -/
def resolve (env : Environment) (name : TypeName) (context : List String) : TypeName :=
  if name.absolute then name
  else (((enclosing context).map name.inContext).find? env.contains).getD name.rooted

/-- The name under which a name written in the given namespace is kept. It stays as it is written
where it stands for the same from the root, and becomes absolute otherwise. -/
def qualify (env : Environment) (context : List String) (name : TypeName) : TypeName :=
  if name.absolute then name
  else
    let resolved := env.resolve name context
    if resolved = name.rooted ∨ !env.contains resolved then name else resolved

/-- A type whose names are kept for use outside the namespace they are written in. -/
def qualifyType (env : Environment) (context : List String) (type : TypeExpr) : TypeExpr :=
  type.mapNames (env.qualify context)

/-- A method type whose names are kept for use outside the namespace they are written in. -/
def qualifyMethod (env : Environment) (context : List String) (method : MethodType) :
    MethodType :=
  method.mapNames (env.qualify context)

end Environment

end DeclaredMethods.Signature
