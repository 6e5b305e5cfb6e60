import DeclaredMethods.Declaration.Normal
import DeclaredMethods.Signature.Definition

/-!
# Signatures of forwarded methods

A forwarded method has the signatures that the method has on what its target returns. The target is
looked up in the class around the declaration, and the method on every type that the target can
return. Lookups that fail contribute nothing; a target that can return anything, or no candidate
at all, leaves the method untyped.
-/

namespace DeclaredMethods

open Signature (TypeName TypeExpr MethodType InstanceDefinition LookupError)

abbrev DefinitionSource := TypeName → Except LookupError InstanceDefinition

/-- The signature of a method about which nothing is known. -/
def untypedSignature : String := "() -> untyped"

/-- The class around a delegation. At the top level there is none. -/
def Delegation.owner? (request : Delegation) : Option TypeName :=
  TypeName.ofPath? request.path.segments

/-- Why the overloads of a method were not found. -/
inductive MethodMiss where
  | noOwner (target : String)
  | failedLookup (name : TypeName) (error : LookupError)
  | noMethod (name : TypeName) (method : String)

def MethodMiss.message : MethodMiss → String
  | noOwner target => "Delegate to " ++ target ++ " has no owning class"
  | failedLookup name error => "Lookup of " ++ name.text ++ " failed: " ++ error.message
  | noMethod name method => name.text ++ " has no method " ++ method

/-- What a search for a method gives: its overloads, or why there are none. -/
abbrev MethodSearch := Except MethodMiss (List MethodType)

namespace MethodSearch

def found : MethodSearch → List MethodType
  | .ok overloads => overloads
  | .error _ => []

/-- Why nothing was found, if nothing was. -/
def misses : MethodSearch → List MethodMiss
  | .ok _ => []
  | .error miss => [miss]

end MethodSearch

def searchMethod (source : DefinitionSource) (name : TypeName) (method : String) : MethodSearch :=
  match source name with
  | .error error => .error (.failedLookup name error)
  | .ok definition =>
    match definition.method? method with
    | some found => .ok found.overloads
    | none => .error (.noMethod name method)

def searchTarget (source : DefinitionSource) (request : Delegation) : MethodSearch :=
  match request.owner? with
  | some owner => searchMethod source owner request.target
  | none => .error (.noOwner request.target)

def withoutOptional : TypeExpr → TypeExpr
  | .optional inner => inner
  | type => type

/-- The first occurrence of every item. -/
def distinct {α : Type} [DecidableEq α] : List α → List α → List α
  | _, [] => []
  | seen, item :: items =>
    if item ∈ seen then distinct seen items else item :: distinct (item :: seen) items

/-- The names of the types that a value of one of the given types can have. Types without a single
name are left out. -/
def candidateNames (types : List TypeExpr) : List TypeName :=
  distinct [] (types.filterMap fun type => (withoutOptional type).typeName?)

def targetTypes (source : DefinitionSource) (request : Delegation) : List TypeExpr :=
  (searchTarget source request).found.map MethodType.returnType

/-- The signatures of the method of a delegation, none of them twice. There is always one. -/
def delegationSignatures (source : DefinitionSource) (request : Delegation) : List String :=
  let types := targetTypes source request
  if types.any TypeExpr.isAny then [untypedSignature]
  else
    let candidates := (candidateNames types).flatMap fun name =>
      (searchMethod source name request.method).found
    match distinct [] (candidates.map MethodType.text) with
    | [] => [untypedSignature]
    | signatures => signatures

/-- The lookups for a delegation that found nothing, in order. -/
def delegationMisses (source : DefinitionSource) (request : Delegation) : List MethodMiss :=
  let types := targetTypes source request
  (searchTarget source request).misses ++
    if types.any TypeExpr.isAny then []
    else (candidateNames types).flatMap fun name =>
      (searchMethod source name request.method).misses

end DeclaredMethods
