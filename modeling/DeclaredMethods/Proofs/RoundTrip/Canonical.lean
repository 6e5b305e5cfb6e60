import DeclaredMethods.Proofs.RoundTrip.Pieces
import DeclaredMethods.Signature.Printer

/-!
# Canonical types

A type is canonical if its text can only be read as the type itself. What this asks is local: a
type must fit on its own, given the type parameters in scope, and so must the types it is made
of. A named type has a name of its kind that is no word with a meaning of its own, a union is no
member of a union, a question mark does not go on a symbol, and a parameter stands where its role
can be told.
-/

namespace DeclaredMethods.Signature

/-- Words that are types of their own or begin one. -/
def reservedWords : List String :=
  ["untyped", "true", "false", "singleton"] ++ BaseType.all.map BaseType.keyword

def TypeName.hasWords (name : TypeName) : Bool :=
  name.segments.all fun segment ↦ isWord segment.toList

/-- Whether a name with the given arguments refers to a type of the given kind: it has the
spelling of that kind, and if it is bare it is neither reserved nor a variable. -/
def TypeName.fits (name : TypeName) (scope : List String) (kind : NameKind)
    (args : List TypeExpr) : Bool :=
  name.hasWords && name.kind == kind &&
    (name.absolute || !name.path.isEmpty ||
      (!reservedWords.contains name.name && !(args.isEmpty && scope.contains name.name)))

def LiteralType.fits : LiteralType → Bool
  | int value => integerLimits.1 ≤ value && value ≤ integerLimits.2
  | str value => value.toList.all isPrintable
  | symbol name => isSymbolName name.toList
  | bool _ => true

/-- How a parameter is passed. -/
inductive Role where
  | required
  | optional
  | rest
  | trailing
  | keyword (key : String)
  | optionalKeyword (key : String)
  | restKeywords

def Role.fits : Role → Bool
  | keyword key | optionalKeyword key => isWord key.toList
  | _ => true

namespace Params

/-- The parameters with their roles in the order in which they are written. -/
def entries (params : Params) : List (Role × Param) :=
  params.required.map (fun param ↦ (.required, param)) ++
    params.optional.map (fun param ↦ (.optional, param)) ++
    params.rest.toList.map (fun param ↦ (.rest, param)) ++
    params.trailing.map (fun param ↦ (.trailing, param)) ++
    params.requiredKeywords.map (fun entry ↦ (.keyword entry.1, entry.2)) ++
    params.optionalKeywords.map (fun entry ↦ (.optionalKeyword entry.1, entry.2)) ++
    params.restKeywords.toList.map (fun param ↦ (.restKeywords, param))

def types (params : Params) : List TypeExpr :=
  params.entries.map fun entry ↦ entry.2.type

/-- Whether names and keywords are words, and required parameters stand behind others only where
an optional or rest parameter tells them apart. -/
def fits (params : Params) : Bool :=
  params.entries.all
      (fun entry ↦ entry.1.fits && entry.2.name.all fun name ↦ isWord name.toList) &&
    (params.trailing.isEmpty || params.rest.isSome || !params.optional.isEmpty)

end Params

namespace MethodType

def types (method : MethodType) : List TypeExpr :=
  method.params.types ++
    method.block.toList.flatMap (fun block ↦ block.params.types ++ [block.returnType]) ++
    [method.returnType]

def paramsFit (method : MethodType) : Bool :=
  method.params.fits && method.block.all fun block ↦ block.params.fits

end MethodType

namespace TypeExpr

def isIntersection : TypeExpr → Bool
  | intersection _ => true
  | _ => false

def isOptional : TypeExpr → Bool
  | optional _ => true
  | _ => false

def isSymbol : TypeExpr → Bool
  | literal (.symbol _) => true
  | _ => false

def components : TypeExpr → List TypeExpr
  | instance_ _ args | interface _ args | alias_ _ args => args
  | optional inner => [inner]
  | union types | intersection types | tuple types => types
  | record fields => fields.map Prod.snd
  | proc method => method.types
  | any | base _ | singleton _ | literal _ | variable_ _ => []

def fits (scope : List String) : TypeExpr → Bool
  | any | base _ | tuple _ => true
  | instance_ name args => name.fits scope .class_ args
  | interface name args => name.fits scope .interface args
  | alias_ name args => name.fits scope .alias_ args
  | singleton name => name.hasWords
  | optional inner => !inner.isOptional && !inner.isSymbol
  | union members => 2 ≤ members.length && members.all fun member ↦ !member.isUnion
  | intersection members =>
    2 ≤ members.length && members.all fun member ↦ !member.isIntersection
  | record fields => fields.all fun field ↦ isWord field.1.toList
  | literal value => value.fits
  | variable_ name => scope.contains name
  | proc method => method.typeParams.isEmpty && method.paramsFit

/-- A type that fits, as do all types inside it. -/
inductive Canonical (scope : List String) : TypeExpr → Prop
  | intro (type : TypeExpr) (fits : type.fits scope = true)
      (components : ∀ part ∈ type.components, Canonical scope part) : Canonical scope type

/-- Checks that a type is canonical and nested at most `depth` deep. -/
def isCanonicalUpTo (scope : List String) : Nat → TypeExpr → Bool
  | 0, _ => false
  | depth + 1, type => type.fits scope && type.components.all (isCanonicalUpTo scope depth)

/-- The test goes down as far as its bound, so passing it with any bound suffices. -/
theorem canonical_of_isCanonicalUpTo {scope : List String} (depth : Nat) {type : TypeExpr}
    (h : type.isCanonicalUpTo scope depth = true) : type.Canonical scope := by
  induction depth generalizing type with
  | zero => cases h
  | succ depth ih =>
    rw [isCanonicalUpTo, Bool.and_eq_true] at h
    exact .intro type h.1 fun part hpart ↦ ih (List.all_eq_true.1 h.2 part hpart)

end TypeExpr

def isTypeParam (name : String) : Bool :=
  isWord name.toList && !reservedWords.contains name && name != "unchecked"

/-- A method type whose parameters fit and all of whose types are canonical where its type
parameters are in scope. -/
structure MethodType.Canonical (method : MethodType) : Prop where
  typeParams : method.typeParams.all isTypeParam = true
  params : method.paramsFit = true
  types : ∀ type ∈ method.types, type.Canonical method.typeParams

end DeclaredMethods.Signature
