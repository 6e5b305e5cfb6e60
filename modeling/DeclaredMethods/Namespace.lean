/-!
# Namespaces

A namespace is the chain of class and module names around a place in a source, from the
outermost inward. A `ConstPath` is a constant name as it is written, which is looked up from the
namespace it stands in unless it starts at the root.
-/

namespace DeclaredMethods

/-- A constant name as written, such as `Foo::Bar` or `::Foo`. -/
structure ConstPath where
  /-- Whether the path starts with `::`. -/
  absolute : Bool
  /-- Names from outermost to innermost. -/
  segments : List String
deriving DecidableEq

def joinSegments (segments : List String) : String :=
  "::".intercalate segments

def ConstPath.text (path : ConstPath) : String :=
  (if path.absolute then "::" else "") ++ joinSegments path.segments

/-- The chain of class and module names around a place. The empty chain is the top level. -/
structure Namespace where
  segments : List String
deriving DecidableEq, Inhabited

namespace Namespace

/-- The top level. -/
def root : Namespace := ⟨[]⟩

def isRoot (path : Namespace) : Bool :=
  path.segments.isEmpty

/-- The innermost name. -/
def last? (path : Namespace) : Option String :=
  path.segments.getLast?

/-- The enclosing namespace. The root encloses itself. -/
def parent (path : Namespace) : Namespace :=
  ⟨path.segments.dropLast⟩

/-- The namespace that a class or module of the given name opens inside this one. An absolute
name opens the same namespace everywhere. -/
def nested (path : Namespace) (name : ConstPath) : Namespace :=
  ⟨if name.absolute then name.segments else path.segments ++ name.segments⟩

/-- The text of a namespace; the root has none. -/
def text (path : Namespace) : String :=
  joinSegments path.segments

/-- Segment by segment order of namespaces, a part before the whole. -/
def compareSegments : List String → List String → Ordering
  | [], [] => .eq
  | [], _ :: _ => .lt
  | _ :: _, [] => .gt
  | a :: as, b :: bs =>
    if a < b then .lt else if b < a then .gt else compareSegments as bs

def order (left right : Namespace) : Ordering :=
  compareSegments left.segments right.segments

end Namespace

end DeclaredMethods
