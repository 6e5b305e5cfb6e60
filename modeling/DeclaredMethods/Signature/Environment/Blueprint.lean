import DeclaredMethods.Signature.Definition
import DeclaredMethods.Signature.Environment.Basic

/-!
# What definitions are made of

The declarations of a type say which other types its definition is made of and what is added to
them. `Environment.blueprint?` reads this off the declarations, and `Parts.assemble` puts a
definition together once the definitions of the other types are known.

Later methods replace earlier ones of the same name: first come those of the superclass, then those
of the included modules, then the type's own, then those of the prepended modules. Aliases are
added at the end.
-/

namespace DeclaredMethods.Signature

/-- A type whose methods are inherited, and what its type parameters stand for. -/
structure Ancestor where
  name : TypeName
  args : List TypeExpr

/-- A method that a type declares itself. An overloading one keeps the overloads that were there
behind its own. -/
structure OwnMethod where
  name : String
  overloads : List MethodType
  overloading : Bool

structure Parts where
  typeParams : List String
  /-- The superclass and the included modules. -/
  inherited : List Ancestor
  own : List OwnMethod
  prepended : List Ancestor
  /-- New names for methods with the names they stand for. -/
  aliases : List (String × String)

/-- How the definition of a type is made. -/
inductive Blueprint where
  /-- It is the definition of another type. -/
  | sameAs (target : TypeName)
  /-- There is none, because the type is a name for a type that has no name itself. -/
  | unnamed (type : TypeExpr)
  | made (parts : Parts)

def includes : List Member → List Parent
  | [] => []
  | .include_ parent :: members => parent :: includes members
  | _ :: members => includes members

def prepends : List Member → List Parent
  | [] => []
  | .prepend parent :: members => parent :: prepends members
  | _ :: members => prepends members

def methodAliases : List Member → List (String × String)
  | [] => []
  | .alias_ newName oldName scope :: members =>
    if scope.isInstance then (newName, oldName) :: methodAliases members
    else methodAliases members
  | _ :: members => methodAliases members

def attributeMethods (kind : AttributeKind) (name : String) (type : TypeExpr) : List OwnMethod :=
  let reader : OwnMethod := ⟨name, [.returning type], false⟩
  let writer : OwnMethod := ⟨name ++ "=", [.writing ⟨type, some name⟩ type], false⟩
  match kind with
  | .reader => [reader]
  | .writer => [writer]
  | .accessor => [reader, writer]

namespace Environment

/-- The ancestor that is written in the given namespace. -/
def ancestor (env : Environment) (context : List String) (parent : Parent) : Ancestor :=
  ⟨env.resolve parent.name context, parent.args.map (env.qualifyType context)⟩

def memberMethods (env : Environment) (context : List String) : Member → List OwnMethod
  | .method name scope overloads overloading =>
    if scope.isInstance then [⟨name, overloads.map (env.qualifyMethod context), overloading⟩]
    else []
  | .attribute kind name type scope =>
    if scope.isInstance then attributeMethods kind name (env.qualifyType context type) else []
  | .alias_ .. | .include_ _ | .prepend _ | .extend _ | .declaration _ => []

/-- The name of the class that all others inherit from. -/
def objectName : TypeName := ⟨[], "Object", true⟩

/-- The name of the class without methods of its own. -/
def basicObjectName : TypeName := ⟨[], "BasicObject", true⟩

/-- The superclass of a class: the first one that a piece gives, or else the class that all others
inherit from, if it is declared. Modules have none. -/
def superclass (env : Environment) (name : TypeName) (entry : ClassEntry) : List Ancestor :=
  if entry.isModule then []
  else
    match entry.fragments.findSome? fun fragment =>
        fragment.superclass.map (env.ancestor fragment.context) with
    | some parent => [parent]
    | none =>
      if name ≠ objectName ∧ name ≠ basicObjectName ∧ env.classes.contains objectName then
        [⟨objectName, []⟩]
      else []

def classParts (env : Environment) (name : TypeName) (entry : ClassEntry) : Parts where
  typeParams := entry.typeParams
  inherited := env.superclass name entry ++ entry.fragments.flatMap fun fragment =>
    (includes fragment.members).map (env.ancestor fragment.context)
  own := entry.fragments.flatMap fun fragment =>
    fragment.members.flatMap (env.memberMethods fragment.context)
  prepended := entry.fragments.flatMap fun fragment =>
    (prepends fragment.members).map (env.ancestor fragment.context)
  aliases := entry.fragments.flatMap fun fragment => methodAliases fragment.members

def interfaceParts (env : Environment) (entry : InterfaceEntry) : Parts where
  typeParams := entry.typeParams
  inherited := (includes entry.members).map (env.ancestor entry.context)
  own := entry.members.flatMap (env.memberMethods entry.context)
  prepended := []
  aliases := methodAliases entry.members

/-- How the definition of a type with another name is made. -/
def aliasBlueprint (env : Environment) (entry : AliasEntry) : Blueprint :=
  match entry.type with
  | .instance_ target _ | .interface target _ | .alias_ target _ =>
    .sameAs (env.resolve target entry.context)
  | type => .unnamed type

/-- How the definition of an absolute name is made, if the name is declared as what its spelling
says it is. -/
def blueprint? (env : Environment) (name : TypeName) : Option Blueprint :=
  match name.kind with
  | .class_ =>
    match env.classAliases.get? name with
    | some entry => some (.sameAs (env.resolve entry.oldName entry.context))
    | none => (env.classes.get? name).map fun entry => .made (env.classParts name entry)
  | .interface => (env.interfaces.get? name).map fun entry => .made (env.interfaceParts entry)
  | .alias_ => (env.aliases.get? name).map env.aliasBlueprint

end Environment

/-- The types whose definitions a definition is made of, in the order in which they are looked
up. -/
def Blueprint.dependencies : Blueprint → List TypeName
  | sameAs target => [target]
  | unnamed _ => []
  | made parts => (parts.inherited ++ parts.prepended).map Ancestor.name

abbrev Methods := OrderedMap String MethodDefinition

namespace Methods

def inherit (methods : Methods) (args : List TypeExpr) (parent : InstanceDefinition) : Methods :=
  let bound := Substitution.ofParams parent.typeParams args
  methods.insertAll (parent.methods.entries.map fun (name, method) =>
    (name, { method with overloads := method.overloads.map (MethodType.substitute bound) }))

def declare (owner : TypeName) (methods : Methods) (method : OwnMethod) : Methods :=
  methods.alter method.name fun present =>
    let kept :=
      if method.overloading then (present.map MethodDefinition.overloads).getD [] else []
    ⟨method.name, method.overloads ++ kept, owner⟩

def addAlias (owner : TypeName) (methods : Methods) (names : String × String) :
    Except LookupError Methods :=
  match methods.get? names.2 with
  | some method => .ok (methods.insert names.1 { method with name := names.1 })
  | none => .error (.malformed owner (.unknownAliasedMethod names.1 names.2))

end Methods

namespace Parts

/-- Puts together the definition of a type, given the definitions of the types it inherits from
and of those that are prepended. -/
def assemble (parts : Parts) (name : TypeName) (inherited prepended : List InstanceDefinition) :
    Except LookupError InstanceDefinition := do
  let below := (parts.inherited.zip inherited).foldl
    (fun methods (ancestor, parent) => methods.inherit ancestor.args parent) .empty
  let own := parts.own.foldl (Methods.declare name) below
  let above := (parts.prepended.zip prepended).foldl
    (fun methods (ancestor, parent) => methods.inherit ancestor.args parent) own
  let methods ← parts.aliases.foldlM (Methods.addAlias name) above
  return ⟨name, parts.typeParams, methods⟩

end Parts

/-- Makes the definition of a type from the definitions of its dependencies, in their order. -/
def Blueprint.make (blueprint : Blueprint) (name : TypeName)
    (definitions : List InstanceDefinition) : Except LookupError InstanceDefinition :=
  match blueprint with
  | sameAs target =>
    match definitions with
    | definition :: _ => .ok definition
    | [] => .error (.malformed name (.unknownAncestor target))
  | unnamed type => .error (.malformed name (.unnamedAlias type))
  | made parts =>
    parts.assemble name (definitions.take parts.inherited.length)
      (definitions.drop parts.inherited.length)

end DeclaredMethods.Signature
