import DeclaredMethods.Declaration.Collect
import DeclaredMethods.Declaration.Evaluate
import DeclaredMethods.Source.Dump
import DeclaredMethods.Source.Parser
import DeclaredMethods.Text.Padded

/-!
# Listings

What the commands print: the tokens of a source, the declarations found in it, as a listing or as
data, and errors and warnings with the line they point to.
-/

namespace DeclaredMethods.CommandLine

open Source (ParseError LexError)

/-- An error or warning with its place and the line it points to. -/
def diagnosticLines (severity message path source : String) (span : Option Span) : List String :=
  ("  " ++ severity ++ ": " ++ message) ::
    match span with
    | none => ["   --> " ++ path]
    | some span =>
      let (line, column) := span.lineColumn source
      ("   --> " ++ path ++ ":" ++ toString line ++ ":" ++ toString column) ::
        match (Text.lines source)[line - 1]? with
        | some text =>
          ["    |", Text.padLeft 4 (toString line) ++ " | " ++ text, "    |"]
        | none => []

def placeColumn (source : String) (span : Span) : String :=
  let (line, column) := span.lineColumn source
  Text.padLeft 4 (toString line) ++ ":" ++ Text.padRight 3 (toString column) ++ "  "

def tokenLine (source : String) : Except LexError Source.Token → String
  | .ok token =>
    placeColumn source token.span ++
      Text.padRight 24 (Text.shorten 24 token.kind.shown) ++ "  " ++
      Text.quote (Text.shorten 40 (token.span.text source))
  | .error error => placeColumn source error.span ++ "ERROR: " ++ error.kind.message

def tokenListing (path source : String) : List String :=
  ["Tokenizing: " ++ path, ""] ++ (Source.scan source).map (tokenLine source) ++
    ["", toString (Source.tokens source).length ++ " tokens, " ++
      toString (Source.lexErrors source).length ++ " errors"]

def argumentText (call : MethodCall) : String :=
  match evalArguments call.args with
  | .ok values => ", ".intercalate (values.map Value.text)
  | .error error => "<" ++ error.kind.message ++ ">"

def callLine (source : String) (call : MethodCall) : String :=
  "    " ++ Text.padLeft 4 (toString (call.span.lineColumn source).1) ++ " | " ++
    (if call.isPrivate then "private " else "") ++ call.kind.methodName ++ "(" ++
    argumentText call ++ ")"

def namespaceLine (found : Declarations) (path : Namespace) : String :=
  if path.isRoot then "  (top level)"
  else "  " ++ (found.namespaceKind path).keyword ++ " " ++ path.text

def declarationLines (found : Declarations) (source : String) : List String :=
  found.calls.entries.flatMap fun (path, calls) =>
    namespaceLine found path :: calls.map (callLine source)

def errorLines (path source : String) (errors : List ParseError) : List String :=
  if errors.isEmpty then []
  else
    ["Errors:"] ++ errors.flatMap (fun error =>
      diagnosticLines "error" error.kind.message path source (some error.span)) ++ [""]

def callCount (found : Declarations) : Nat :=
  (found.calls.entries.flatMap fun entry => entry.2).length

def declarationListing (path source : String) (parsed : Source.ParseResult) : List String :=
  let found := Declarations.collect parsed.file
  ["Parsing: " ++ path, ""] ++ errorLines path source parsed.errors ++ ["Declarations:"] ++
    declarationLines found source ++
    ["", toString (callCount found) ++ " declarations, " ++ toString parsed.errors.length ++
      " errors"]

def callDump (found : Declarations) (path : Namespace) (call : MethodCall) : Text.Json :=
  .object [("namespace", .strings path.segments),
    ("namespace_kind", .str (if path.isRoot then "top" else (found.namespaceKind path).keyword)),
    ("method", .str call.kind.methodName),
    ("private", .bool call.isPrivate),
    ("span", .array [.int call.span.start, .int call.span.stop]),
    ("arguments", .array (Source.DumpStyle.plain.exprs call.args.positional)),
    ("block_argument", Source.DumpStyle.plain.expr? call.args.blockArg)]

def declarationDump (found : Declarations) : Text.Json :=
  .array (found.calls.entries.flatMap fun (path, calls) => calls.map (callDump found path))

end DeclaredMethods.CommandLine
