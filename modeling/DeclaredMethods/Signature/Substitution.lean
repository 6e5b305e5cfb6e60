import DeclaredMethods.OrderedMap
import DeclaredMethods.Signature.Type

/-!
# Rebuilding types

A type is rebuilt from the inside out: a function is applied to every type inside it, after the
types inside that one have been rebuilt. Replacing type variables and renaming are two such
functions.
-/

namespace DeclaredMethods.Signature

mutual

def TypeExpr.map (f : TypeExpr → TypeExpr) : TypeExpr → TypeExpr
  | .any => f .any
  | .base base => f (.base base)
  | .instance_ name args => f (.instance_ name (TypeExpr.mapAll f args))
  | .singleton name => f (.singleton name)
  | .interface name args => f (.interface name (TypeExpr.mapAll f args))
  | .alias_ name args => f (.alias_ name (TypeExpr.mapAll f args))
  | .optional inner => f (.optional (inner.map f))
  | .union members => f (.union (TypeExpr.mapAll f members))
  | .intersection members => f (.intersection (TypeExpr.mapAll f members))
  | .tuple items => f (.tuple (TypeExpr.mapAll f items))
  | .record fields => f (.record (TypeExpr.mapFields f fields))
  | .literal value => f (.literal value)
  | .variable_ name => f (.variable_ name)
  | .proc method => f (.proc (method.map f))

def TypeExpr.mapAll (f : TypeExpr → TypeExpr) : List TypeExpr → List TypeExpr
  | [] => []
  | type :: types => type.map f :: TypeExpr.mapAll f types

def TypeExpr.mapFields (f : TypeExpr → TypeExpr) :
    List (String × TypeExpr) → List (String × TypeExpr)
  | [] => []
  | field :: fields => TypeExpr.mapField f field :: TypeExpr.mapFields f fields

def TypeExpr.mapField (f : TypeExpr → TypeExpr) : String × TypeExpr → String × TypeExpr
  | (key, type) => (key, type.map f)

def Param.map (f : TypeExpr → TypeExpr) : Param → Param
  | ⟨type, name⟩ => ⟨type.map f, name⟩

def Param.mapAll (f : TypeExpr → TypeExpr) : List Param → List Param
  | [] => []
  | param :: params => param.map f :: Param.mapAll f params

def Param.map? (f : TypeExpr → TypeExpr) : Option Param → Option Param
  | none => none
  | some param => some (param.map f)

def Param.mapKeywords (f : TypeExpr → TypeExpr) :
    List (String × Param) → List (String × Param)
  | [] => []
  | entry :: entries => Param.mapKeyword f entry :: Param.mapKeywords f entries

def Param.mapKeyword (f : TypeExpr → TypeExpr) : String × Param → String × Param
  | (key, param) => (key, param.map f)

def Params.map (f : TypeExpr → TypeExpr) : Params → Params
  | ⟨required, optional, rest, trailing, requiredKeywords, optionalKeywords, restKeywords⟩ =>
    ⟨Param.mapAll f required, Param.mapAll f optional, Param.map? f rest,
      Param.mapAll f trailing, Param.mapKeywords f requiredKeywords,
      Param.mapKeywords f optionalKeywords, Param.map? f restKeywords⟩

def BlockType.map (f : TypeExpr → TypeExpr) : BlockType → BlockType
  | ⟨params, returnType, required⟩ => ⟨params.map f, returnType.map f, required⟩

def BlockType.map? (f : TypeExpr → TypeExpr) : Option BlockType → Option BlockType
  | none => none
  | some block => some (block.map f)

def MethodType.map (f : TypeExpr → TypeExpr) : MethodType → MethodType
  | ⟨typeParams, params, block, returnType⟩ =>
    ⟨typeParams, params.map f, BlockType.map? f block, returnType.map f⟩

end

abbrev Substitution := OrderedMap String TypeExpr

namespace Substitution

/-- Binds variables to types in order; variables without a type are bound to `untyped`. -/
def bindAll (types : List TypeExpr) : List String → Substitution → Substitution
  | [], bound => bound
  | name :: names, bound =>
    bindAll types.tail names (bound.insert name (types.head?.getD .any))

def ofParams (names : List String) (types : List TypeExpr) : Substitution :=
  bindAll types names .empty

/-- The bindings of all variables but the given ones. -/
def without (bound : Substitution) (names : List String) : Substitution :=
  ⟨bound.entries.filter fun entry => !names.contains entry.1⟩

/-- What a type becomes that is a variable with a binding. -/
def apply (bound : Substitution) : TypeExpr → TypeExpr
  | .variable_ name => (bound.get? name).getD (.variable_ name)
  | type => type

end Substitution

def TypeExpr.substitute (bound : Substitution) (type : TypeExpr) : TypeExpr :=
  type.map bound.apply

/-- Replaces the type variables that the method does not bind itself. -/
def MethodType.substitute (bound : Substitution) (method : MethodType) : MethodType :=
  method.map (bound.without method.typeParams).apply

/-- What a type becomes whose own name is replaced. -/
def TypeExpr.rename (f : TypeName → TypeName) : TypeExpr → TypeExpr
  | .instance_ name args => .instance_ (f name) args
  | .singleton name => .singleton (f name)
  | .interface name args => .interface (f name) args
  | .alias_ name args => .alias_ (f name) args
  | type => type

def TypeExpr.mapNames (f : TypeName → TypeName) (type : TypeExpr) : TypeExpr :=
  type.map (TypeExpr.rename f)

def MethodType.mapNames (f : TypeName → TypeName) (method : MethodType) : MethodType :=
  method.map (TypeExpr.rename f)

end DeclaredMethods.Signature
