import DeclaredMethods.Signature.Environment.Blueprint

/-!
# Looking up definitions

The definition of a name is made from the definitions of its dependencies, which are looked up
first. A name that is met again while it is looked up is defined in a circle. No name is looked up
twice on the way to a dependency, so the number of declared names bounds how deep a lookup goes.

A `Repository` remembers the definitions it has made until more declarations are loaded. Both ways
of looking names up share the step `buildWith` from a name to its dependencies.
-/

namespace DeclaredMethods.Signature

/-- What looking up a name gives. -/
abbrev Lookup := Except LookupError InstanceDefinition

/-- Looks up names one after the other up to the first that fails. -/
def lookupAll {m : Type → Type} [Monad m] (lookup : TypeName → m Lookup) :
    List TypeName → m (Except LookupError (List InstanceDefinition))
  | [] => pure (.ok [])
  | name :: names => do
    match ← lookup name with
    | .error error => pure (.error error)
    | .ok definition =>
      match ← lookupAll lookup names with
      | .error error => pure (.error error)
      | .ok definitions => pure (.ok (definition :: definitions))

/-- Makes the definition of an absolute name, given a way to look up its dependencies. -/
def buildWith {m : Type → Type} [Monad m] (env : Environment) (lookup : TypeName → m Lookup)
    (name : TypeName) : m Lookup := do
  match env.blueprint? name with
  | none => pure (.error (.unknownType name))
  | some blueprint =>
    match ← lookupAll lookup blueprint.dependencies with
    | .error error => pure (.error (error.ofAncestor name))
    | .ok definitions => pure (blueprint.make name definitions)

namespace Environment

/-- A bound on how deep a lookup goes. -/
def lookupDepth (env : Environment) : Nat :=
  env.classes.entries.length + env.interfaces.entries.length + env.aliases.entries.length +
    env.classAliases.entries.length + 2

/-- Looks up a name while the names `visiting` are being looked up. -/
def lookupUpTo (env : Environment) : Nat → List TypeName → TypeName → Lookup
  | 0, _, name => .error (.cyclic name.rooted)
  | depth + 1, visiting, name =>
    let name := name.rooted
    if visiting.contains name then .error (.cyclic name)
    else
      Id.run (buildWith env
        (fun other => pure (env.lookupUpTo depth (name :: visiting) other)) name)

def definition (env : Environment) (name : TypeName) : Lookup :=
  env.lookupUpTo env.lookupDepth [] name

end Environment

abbrev Cache := OrderedMap TypeName InstanceDefinition

namespace Environment

/-- Looks up a name while the names `visiting` are being looked up, and remembers every definition
that is made on the way. -/
def cachedLookupUpTo (env : Environment) : Nat → List TypeName → TypeName → StateM Cache Lookup
  | 0, _, name => pure (.error (.cyclic name.rooted))
  | depth + 1, visiting, name => do
    let name := name.rooted
    match (← get).get? name with
    | some definition => return .ok definition
    | none =>
      if visiting.contains name then
        return .error (.cyclic name)
      else
        match ← buildWith env (env.cachedLookupUpTo depth (name :: visiting)) name with
        | .error error => return .error error
        | .ok definition =>
          modify fun cache => cache.insertNew name definition
          return .ok definition

end Environment

/-- An environment and the definitions that have been made from it. -/
structure Repository where
  environment : Environment
  cache : Cache

namespace Repository

/-- A repository that remembers nothing yet. -/
def ofEnvironment (env : Environment) : Repository :=
  ⟨env, .empty⟩

/-- Adds the declarations of a signature text. What was remembered is dropped, since more
declarations can change every definition. An error changes nothing. -/
def load (repository : Repository) (source : String) : Except SyntaxError Repository :=
  (repository.environment.load source).map ofEnvironment

/-- Looks up the definition of a name from the root. -/
def lookup (repository : Repository) (name : TypeName) : Lookup × Repository :=
  let env := repository.environment
  let (result, cache) := (env.cachedLookupUpTo env.lookupDepth [] name).run repository.cache
  (result, ⟨env, cache⟩)

end Repository

end DeclaredMethods.Signature
