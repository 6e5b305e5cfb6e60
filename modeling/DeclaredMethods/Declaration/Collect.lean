import DeclaredMethods.Declaration.Call
import DeclaredMethods.OrderedMap
import DeclaredMethods.Source.Outline

/-!
# Collecting declaration calls

A walk over the outline of a source finds every declaration call and files it under the namespace
it stands in. A bare visibility call changes the visibility for the statements behind it in the
same body, and for what is inside them; the bodies of classes, modules and singleton classes
start public.
-/

namespace DeclaredMethods

open Source

/-- What was found in one or more sources. -/
structure Declarations where
  /-- The declaration calls of each namespace, in the order they were found. -/
  calls : OrderedMap Namespace (List MethodCall)
  /-- The keyword that first opened each namespace. -/
  kinds : OrderedMap Namespace NamespaceKind

namespace Declarations

/-- Nothing found. -/
def empty : Declarations := ⟨.empty, .empty⟩

def isEmpty (found : Declarations) : Bool :=
  found.calls.isEmpty

/-- The keyword that a namespace was opened with. Namespaces that no definition names
themselves count as classes. -/
def namespaceKind (found : Declarations) (path : Namespace) : NamespaceKind :=
  (found.kinds.get? path).getD .class_

def addCalls (found : Declarations) (path : Namespace) (calls : List MethodCall) :
    Declarations :=
  { found with calls := found.calls.alter path fun present => present.getD [] ++ calls }

/-- Notes the keyword that opened a namespace, unless it has been opened before. -/
def addKind (found : Declarations) (path : Namespace) (kind : NamespaceKind) : Declarations :=
  { found with kinds := found.kinds.insertNew path kind }

/-- What was found in two collections, the first one first. -/
def merge (left right : Declarations) : Declarations :=
  let withCalls := right.calls.entries.foldl
    (fun found entry => found.addCalls entry.1 entry.2) left
  right.kinds.entries.foldl (fun found entry => found.addKind entry.1 entry.2) withCalls

end Declarations

/-- What is in force at a place in a source. -/
structure Place where
  path : Namespace
  visibility : Visibility

namespace Place

def top : Place := ⟨.root, .public_⟩

/-- The body of a class or module. -/
def enter (place : Place) (name : ConstPath) : Place :=
  ⟨place.path.nested name, .public_⟩

/-- The same namespace with another visibility. -/
def withVisibility (place : Place) (visibility : Visibility) : Place :=
  { place with visibility := visibility }

end Place

/-- The place of the bodies directly inside an expression, and the keyword that opens it. -/
def bodyPlace (place : Place) : Node → Place × Option NamespaceKind
  | .classDef name _ _ => (place.enter name.node, some .class_)
  | .moduleDef name _ => (place.enter name.node, some .module_)
  | .singletonClass _ _ => (place.withVisibility .public_, none)
  | _ => (place, none)

def declarationOf? : Node → Option (DeclarationKind × Arguments)
  | .call none name args _ _ =>
    (DeclarationKind.ofMethodName? name.node).map fun kind => (kind, args)
  | _ => none

/-- The visibility that a statement puts in force: it is exactly one of the three words. -/
def visibilityChange? : Node → Option Visibility
  | .call none name args none _ =>
    if args.isEmpty then Visibility.ofMethodName? name.node else none
  | _ => none

namespace Declarations

/-- Files an expression if it is a declaration call. -/
def record (found : Declarations) (place : Place) (expr : Expr) : Declarations :=
  match declarationOf? expr.node with
  | some (kind, args) =>
    found.addCalls place.path [⟨kind, args, place.visibility = .private_, expr.span⟩]
  | none => found

/-- Notes that a body is entered. -/
def enter (found : Declarations) (inner : Place × Option NamespaceKind) : Declarations :=
  match inner.2 with
  | some kind => found.addKind inner.1.path kind
  | none => found

end Declarations

/-- The visibility that the statement of an outline puts in force. -/
def Source.Outline.visibility? : Outline → Option Visibility
  | .expression expr _ => visibilityChange? expr.node
  | .sequence _ _ => none

def Source.Outline.isSequence : Outline → Bool
  | .expression _ _ => false
  | .sequence _ _ => true

mutual

/-- Collects what is inside an outline that stands at `place`. -/
def visit (place : Place) : Outline → Declarations → Declarations
  | .expression expr children, found =>
    visitParts place (bodyPlace place expr.node) children (found.record place expr)
  | .sequence _ statements, found => visitStatements place statements found

/-- Collects what is inside the children of an expression: expressions stand where it stands,
bodies may open a place of their own. -/
def visitParts (place : Place) (inner : Place × Option NamespaceKind) :
    List Outline → Declarations → Declarations
  | [], found => found
  | child :: children, found =>
    visitParts place inner children
      (if child.isSequence then visit inner.1 child (found.enter inner)
        else visit place child found)

/-- Collects what is inside the statements of a body. A statement that changes the visibility is
nothing else. -/
def visitStatements (place : Place) : List Outline → Declarations → Declarations
  | [], found => found
  | statement :: statements, found =>
    match statement.visibility? with
    | some visibility => visitStatements (place.withVisibility visibility) statements found
    | none => visitStatements place statements (visit place statement found)

end

namespace Declarations

def collectFrom (found : Declarations) (file : SourceFile) : Declarations :=
  visit .top (.ofBody file.body) found

def collect (file : SourceFile) : Declarations :=
  empty.collectFrom file

end Declarations

end DeclaredMethods
