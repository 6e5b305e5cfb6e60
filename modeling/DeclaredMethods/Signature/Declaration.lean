import DeclaredMethods.Signature.Type

/-!
# Declarations in signatures

What a signature file declares: classes, modules and interfaces with their members, and names
for types and classes.
-/

namespace DeclaredMethods.Signature

structure TypeParam where
  name : String
  upperBound : Option TypeExpr

/-- A superclass, mixin or self type. -/
structure Parent where
  name : TypeName
  args : List TypeExpr

/-- Whether a member belongs to the instances, to the class itself or to both. -/
inductive MemberScope where
  | instance_
  | singleton
  | both
deriving DecidableEq

def MemberScope.isInstance : MemberScope → Bool
  | instance_ | both => true
  | singleton => false

/-- Which methods an attribute stands for. -/
inductive AttributeKind where
  | reader
  | writer
  | accessor
deriving DecidableEq

mutual

inductive Declaration where
  | class_ (name : TypeName) (typeParams : List TypeParam) (superclass : Option Parent)
      (members : List Member)
  | module_ (name : TypeName) (typeParams : List TypeParam) (selfTypes : List Parent)
      (members : List Member)
  | interface (name : TypeName) (typeParams : List TypeParam) (members : List Member)
  | typeAlias (name : TypeName) (typeParams : List TypeParam) (type : TypeExpr)
  | classAlias (newName oldName : TypeName) (isModule : Bool)

inductive Member where
  /-- A method with its overloads; an overloading one adds them to those that were there. -/
  | method (name : String) (scope : MemberScope) (overloads : List MethodType)
      (overloading : Bool)
  | attribute (kind : AttributeKind) (name : String) (type : TypeExpr) (scope : MemberScope)
  | alias_ (newName oldName : String) (scope : MemberScope)
  | include_ (parent : Parent)
  | prepend (parent : Parent)
  | extend (parent : Parent)
  | declaration (declaration : Declaration)

end

end DeclaredMethods.Signature
