import DeclaredMethods.Declaration.Collect
import DeclaredMethods.Delegation
import DeclaredMethods.Log

/-!
# Generated signature documents

The declarations of a source become a signature document: one block for every namespace in which
something was declared, with the generated methods as members. A call without a normal form is
left out and reported; it does not affect the others.
-/

namespace DeclaredMethods

/-- The members of an attribute. The class itself always has a reader and a writer. -/
def attributeMembers (declared : AttributeDeclaration) : List String :=
  let name := declared.name
  ["def self." ++ name ++ ": () -> untyped", "def self." ++ name ++ "=: (untyped) -> untyped"] ++
    (if declared.instancePredicate then ["def self." ++ name ++ "?: () -> bool"] else []) ++
    (if declared.instanceReader then ["def " ++ name ++ ": () -> untyped"] else []) ++
    (if declared.instanceWriter then ["def " ++ name ++ "=: (untyped) -> untyped"] else []) ++
    (if declared.instancePredicate && declared.instanceReader then
      ["def " ++ name ++ "?: () -> bool"] else [])

/-- The signatures of a forwarded method in one text. -/
def overloadText (source : DefinitionSource) (request : Delegation) : String :=
  " | ".intercalate (delegationSignatures source request)

/-- The member of a forwarded method. -/
def delegateMember (source : DefinitionSource) (delegate : DelegateDeclaration) : String :=
  (if delegate.isPrivate then "private " else "") ++ "def " ++ delegate.methodName ++ ": " ++
    overloadText source delegate.request

def declarationMembers (source : DefinitionSource) : Declaration → List String
  | .attribute declared => attributeMembers declared
  | .delegate delegate => [delegateMember source delegate]

/-- The members of a call; a call without a normal form has none. -/
def callMembers (source : DefinitionSource) (path : Namespace) (call : MethodCall) :
    List String :=
  match normalize path call with
  | .ok declarations => declarations.flatMap (declarationMembers source)
  | .error _ => []

/-- The first line of every document. Names are written so that they need not be resolved
again. -/
def documentHeader : String := "# resolve-type-names: false"

/-- The block of a namespace. Members of the top level stand by themselves. -/
def blockText (found : Declarations) (path : Namespace) (members : List String) : String :=
  if path.isRoot then String.join (members.map (· ++ "\n"))
  else
    (found.namespaceKind path).keyword ++ " " ++ path.text ++ "\n" ++
      String.join (members.map ("  " ++ · ++ "\n")) ++ "end\n"

def block? (source : DefinitionSource) (found : Declarations)
    (entry : Namespace × List MethodCall) : Option String :=
  let members := entry.2.flatMap (callMembers source entry.1)
  if members.isEmpty then none else some (blockText found entry.1 members)

def document? (source : DefinitionSource) (found : Declarations) : Option String :=
  match found.calls.entries.filterMap (block? source found) with
  | [] => none
  | blocks => some (documentHeader ++ "\n" ++ String.join (blocks.map ("\n" ++ ·)))

structure SkippedCall where
  kind : DeclarationKind
  path : Namespace
  span : Span
  error : DeclarationError

/-- A call as one that is left out, if it has no normal form. -/
def skippedCall? (path : Namespace) (call : MethodCall) : Option SkippedCall :=
  match normalize path call with
  | .ok _ => none
  | .error error => some ⟨call.kind, path, call.span, error⟩

/-- The calls that are left out, in order. -/
def skippedCalls (found : Declarations) : List SkippedCall :=
  found.calls.entries.flatMap fun entry => entry.2.filterMap (skippedCall? entry.1)

/-- What is generated from the declarations of a source. -/
structure Generated where
  document : Option String
  skipped : List SkippedCall

def generate (source : DefinitionSource) (found : Declarations) : Generated :=
  ⟨document? source found, skippedCalls found⟩

/-- The text of a namespace in messages. -/
def shownNamespace (path : Namespace) : String :=
  if path.isRoot then "top level" else path.text

def declarationLog (source : DefinitionSource) : Declaration → List LogEntry
  | .attribute _ => []
  | .delegate delegate =>
    let request := delegate.request
    (delegationMisses source request).map (fun miss => ⟨.debug, .search, miss.message⟩) ++
      [⟨.debug, .document, delegate.methodName ++ " delegates to " ++ request.target ++ "." ++
        request.method ++ ": " ++ overloadText source request⟩]

def callLog (source : DefinitionSource) (path : Namespace) (call : MethodCall) : List LogEntry :=
  match normalize path call with
  | .ok declarations => declarations.flatMap (declarationLog source)
  | .error error =>
    [⟨.warn, .document, "Skipping " ++ call.kind.methodName ++ " in " ++ shownNamespace path ++
      ": " ++ error.message⟩]

/-- What is noted while a document is generated. -/
def documentLog (source : DefinitionSource) (found : Declarations) : List LogEntry :=
  found.calls.entries.flatMap fun entry => entry.2.flatMap (callLog source entry.1)

end DeclaredMethods
