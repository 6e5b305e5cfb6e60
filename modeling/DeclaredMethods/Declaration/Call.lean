import DeclaredMethods.Source.Syntax

/-!
# Declaration calls

The calls in class bodies that generate methods, and what is known about the place of a call:
the visibility in force and the keyword that opened the namespace.
-/

namespace DeclaredMethods

/-- The calls that generate methods. -/
inductive DeclarationKind where
  | classAttribute
  | delegate
deriving DecidableEq

namespace DeclarationKind

def methodName : DeclarationKind → String
  | classAttribute => "class_attribute"
  | delegate => "delegate"

/-- The declaration that a method of this name makes when it is called without a receiver. -/
def ofMethodName? : String → Option DeclarationKind
  | "class_attribute" => some classAttribute
  | "delegate" => some delegate
  | _ => none

end DeclarationKind

/-- The visibility of methods in a class body. -/
inductive Visibility where
  | public_
  | protected_
  | private_
deriving DecidableEq

/-- The visibility that a bare call of this name puts in force. -/
def Visibility.ofMethodName? : String → Option Visibility
  | "public" => some .public_
  | "protected" => some .protected_
  | "private" => some .private_
  | _ => none

/-- The keyword that opened a namespace. -/
inductive NamespaceKind where
  | class_
  | module_
deriving DecidableEq

def NamespaceKind.keyword : NamespaceKind → String
  | class_ => "class"
  | module_ => "module"

structure MethodCall where
  kind : DeclarationKind
  /-- The arguments as written. -/
  args : Source.Arguments
  /-- Whether the call stands under a bare `private`. -/
  isPrivate : Bool
  /-- The place of the whole call. -/
  span : Span

end DeclaredMethods
