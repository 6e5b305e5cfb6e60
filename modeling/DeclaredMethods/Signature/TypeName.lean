import DeclaredMethods.Namespace

/-!
# Type names

A type name is a name in a namespace, written from the root or relative to where it stands. Its
spelling tells whether it names a class, an interface or an alias.
-/

namespace DeclaredMethods.Signature

inductive NameKind where
  /-- A class or module. -/
  | class_
  | interface
  | alias_
deriving DecidableEq

/-- A type name such as `::Foo::Bar` or `_Each`. A relative and an absolute name differ. -/
structure TypeName where
  /-- The names around it, outermost first. -/
  path : List String
  name : String
  absolute : Bool
deriving DecidableEq, Inhabited

/-- Splits a text at every `::`, where `segment` holds the characters read since the last one. -/
def splitColons (segment : List Char) : List Char → List (List Char)
  | [] => [segment]
  | ':' :: ':' :: text => segment :: splitColons [] text
  | c :: text => splitColons (segment ++ [c]) text

namespace TypeName

/-- The names around a type name and its own, outermost first. -/
def segments (name : TypeName) : List String :=
  name.path ++ [name.name]

def ofSegments? (absolute : Bool) (segments : List String) : Option TypeName :=
  segments.getLast?.map fun name => ⟨segments.dropLast, name, absolute⟩

def ofPath? (segments : List String) : Option TypeName :=
  ofSegments? true segments

/-- Reads segments that are joined by `::`, none of which may be empty. -/
def readSegments? (text : List Char) : Option (List String) :=
  let segments := splitColons [] text
  if segments.any List.isEmpty then none else some (segments.map String.ofList)

def parse? (text : String) : Option TypeName :=
  match text.toList with
  | ':' :: ':' :: rest => (readSegments? rest).bind (ofSegments? true)
  | relative => (readSegments? relative).bind (ofSegments? false)

def kind (name : TypeName) : NameKind :=
  match name.name.toList with
  | c :: _ => if c = '_' then .interface else if c.isUpper then .class_ else .alias_
  | [] => .alias_

def rooted (name : TypeName) : TypeName :=
  { name with absolute := true }

/-- The absolute name that a name written inside a namespace would have there. -/
def inContext (name : TypeName) (context : List String) : TypeName :=
  if name.absolute then name else ⟨context ++ name.path, name.name, true⟩

def text (name : TypeName) : String :=
  (if name.absolute then "::" else "") ++ joinSegments name.segments

end TypeName

end DeclaredMethods.Signature
