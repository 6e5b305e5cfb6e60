import DeclaredMethods.Signature.Parser.Declaration

/-!
# Reading signatures

A signature file, a type and a method type are read from their whole text. Reading ends at the
first invalid piece of the text, which is reported unless an error was found in front of it, so
that nothing is dropped silently.
-/

namespace DeclaredMethods.Signature

/-- The cursor in front of the valid tokens of a text. -/
def Cursor.start (source : String) : Cursor :=
  let pieces := scan source
  let size := Text.byteLength source.toList
  { upcoming := validTokens pieces
    ending := (firstInvalid? pieces).getD ⟨size, size⟩
    previousStop := 0 }

def parseAll {α : Type} (reading : Parse α) (source : String) : Except SyntaxError α :=
  match (reading.run (.start source)).map Prod.fst, firstInvalid? (scan source) with
  | result, none => result
  | .ok _, some span => .error ⟨.invalidToken, span⟩
  | .error error, some span =>
    if span.start ≤ error.span.start then .error ⟨.invalidToken, span⟩ else .error error

/-- A whole text is read if it has no invalid piece and its tokens are read. -/
theorem parseAll_eq_ok_iff {α : Type} {reading : Parse α} {source : String} {value : α} :
    parseAll reading source = .ok value ↔
      firstInvalid? (scan source) = none ∧
        ∃ after, reading.run (.start source) = .ok (value, after) := by
  unfold parseAll
  cases hrun : reading.run (.start source) with
  | error error =>
    cases firstInvalid? (scan source) with
    | none => simp [Except.map]
    | some span =>
      simp only [Except.map]
      split <;> simp
  | ok result =>
    obtain ⟨result, after⟩ := result
    cases firstInvalid? (scan source) <;> simp [Except.map]

def parseSignature (source : String) : Except SyntaxError (List Declaration) :=
  parseAll Parse.declarations source

def parseType (source : String) : Except SyntaxError TypeExpr :=
  parseAll (do
    let type ← Parse.type []
    Parse.expectEnd "end of type"
    return type) source

def parseMethodType (source : String) : Except SyntaxError MethodType :=
  parseAll (do
    let method ← Parse.methodType []
    Parse.expectEnd "end of method type"
    return method) source

end DeclaredMethods.Signature
