import DeclaredMethods.OrderedMap
import DeclaredMethods.Signature.Printer

/-!
# Instance definitions

The methods that instances of a type have, its own and those it gets from other types, and the
reasons why there may be no such definition.
-/

namespace DeclaredMethods.Signature

/-- A method of a type with its overloads in order. -/
structure MethodDefinition where
  name : String
  overloads : List MethodType
  /-- The type that the overloads were written in. -/
  definedIn : TypeName

structure InstanceDefinition where
  typeName : TypeName
  typeParams : List String
  methods : OrderedMap String MethodDefinition

def InstanceDefinition.method? (definition : InstanceDefinition) (name : String) :
    Option MethodDefinition :=
  definition.methods.get? name

/-- What is wrong with the declarations of a type. -/
inductive Defect where
  | unknownAncestor (missing : TypeName)
  | unnamedAlias (type : TypeExpr)
  | unknownAliasedMethod (newName oldName : String)

def Defect.text : Defect → String
  | unknownAncestor missing => "unknown ancestor " ++ missing.text
  | unnamedAlias type => "alias of `" ++ type.text ++ "` has no instance definition"
  | unknownAliasedMethod newName oldName =>
    "alias `" ++ newName ++ "` of unknown method `" ++ oldName ++ "`"

/-- Why a type has no definition. -/
inductive LookupError where
  | unknownType (name : TypeName)
  | cyclic (name : TypeName)
  | malformed (name : TypeName) (defect : Defect)

def LookupError.message : LookupError → String
  | unknownType name => "unknown type: " ++ name.text
  | cyclic name => "cyclic definition involving " ++ name.text
  | malformed name defect => "malformed definition of " ++ name.text ++ ": " ++ defect.text

/-- The error of a type whose ancestor has the given error: an unknown ancestor makes the
dependent type malformed. -/
def LookupError.ofAncestor (owner : TypeName) : LookupError → LookupError
  | unknownType missing => malformed owner (.unknownAncestor missing)
  | error => error

end DeclaredMethods.Signature
