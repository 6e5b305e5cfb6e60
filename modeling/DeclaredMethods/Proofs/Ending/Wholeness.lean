import DeclaredMethods.Proofs.Document.Texts
import DeclaredMethods.Proofs.Ending.Declarations

/-!
# Texts are read as a whole

A text is never cut off silently. If it has an invalid piece, it is refused with an error that is
placed at the first invalid piece or at a token in front of it. If something is read from it, all of
its pieces are tokens and the reading has used them up.

Reading can also be done over the pieces of the whole text, where each invalid piece is taken for an
end of the text. Although the pieces behind the first such end can be seen, this makes no
difference.
-/

namespace DeclaredMethods.Signature

/-- The token that a piece of a text is taken for. An invalid piece is taken for an end. -/
def pieceToken : Except Span Token → Token
  | .ok token => token
  | .error span => ⟨.eof, span, ""⟩

/-- The cursor in front of all pieces of a text and of its end. -/
def Cursor.stream (source : String) : Cursor :=
  let size := Text.byteLength source.toList
  { upcoming := (scan source).map pieceToken ++ [⟨.eof, ⟨size, size⟩, ""⟩]
    ending := ⟨size, size⟩
    previousStop := 0 }

section Pieces

variable (tokens : List Token) (span : Span) (rest : List (Except Span Token))

/-- The valid tokens are those in front of the first invalid piece. -/
theorem validTokens_append_error :
    validTokens (tokens.map .ok ++ .error span :: rest) = tokens := by
  induction tokens with
  | nil => rfl
  | cons token tokens ih => exact congrArg (token :: ·) ih

theorem firstInvalid?_append_error :
    firstInvalid? (tokens.map .ok ++ .error span :: rest) = some span := by
  induction tokens with
  | nil => rfl
  | cons token tokens ih => exact ih

end Pieces

theorem eq_map_ok_of_firstInvalid? {scanned : List (Except Span Token)}
    (h : firstInvalid? scanned = none) : scanned = (validTokens scanned).map .ok := by
  induction scanned with
  | nil => rfl
  | cons piece scanned ih =>
    cases piece with
    | error span => cases h
    | ok token => exact congrArg (.ok token :: ·) (ih h)

/-- The first end stands behind the valid tokens. -/
theorem exists_behind_validTokens (scanned : List (Except Span Token)) (last : Span) :
    ∃ behind, scanned.map pieceToken ++ [⟨.eof, last, ""⟩] =
      validTokens scanned ++ ⟨.eof, (firstInvalid? scanned).getD last, ""⟩ :: behind := by
  induction scanned with
  | nil => exact ⟨[], rfl⟩
  | cons piece scanned ih =>
    cases piece with
    | error span => exact ⟨scanned.map pieceToken ++ [⟨.eof, last, ""⟩], rfl⟩
    | ok token =>
      obtain ⟨behind, hbehind⟩ := ih
      exact ⟨behind, congrArg (token :: ·) hbehind⟩

def Ending.ofText (source : String) : Ending where
  inFront := validTokens (scan source)
  span := (Cursor.start source).ending
  behind := (Cursor.stream source).upcoming.drop ((validTokens (scan source)).length + 1)
  kind_ne_eof := by
    intro token hmem heof
    have hpiece : some token.kind ∈ pieces source.toList :=
      List.mem_map_of_mem (mem_of_mem_validTokens hmem)
    rw [heof] at hpiece
    exact eof_not_mem_pieces source.toList hpiece

theorem upcoming_stream (source : String) :
    (Cursor.stream source).upcoming = validTokens (scan source) ++
      (Ending.ofText source).token :: (Ending.ofText source).behind := by
  obtain ⟨behind, hbehind⟩ :=
    exists_behind_validTokens (scan source) ⟨Text.byteLength source.toList, _⟩
  have hstream : (Cursor.stream source).upcoming =
      validTokens (scan source) ++ (Ending.ofText source).token :: behind := hbehind
  have hdrop : (Ending.ofText source).behind = behind := by
    rw [Ending.ofText, hstream, List.drop_append, List.drop_of_length_le (Nat.le_add_right _ 1),
      Nat.add_sub_cancel_left]
    rfl
  rw [hdrop, hstream]

/-- The cursor in front of the valid tokens stands beside the one in front of the whole text. -/
theorem alongside_stream (source : String) :
    Alongside (.ofText source) (.start source) (.stream source) :=
  ⟨List.suffix_refl _, rfl, upcoming_stream source, rfl⟩

/-- A reading that stops at every end and comes to it if it returns something. -/
structure UsesUp {α : Type} (reading : Parse α) : Prop where
  stops : ∀ ending limit, Stops ending limit (fun _ ↦ 0) reading reading
  upcoming_eq_nil : ∀ {ending short long value after}, Alongside ending short long →
    reading.run short = .ok (value, after) → after.upcoming = []

def Parse.untilEnd {α : Type} (reading : Parse α) (expected : String) : Parse α := do
  let value ← reading
  expectEnd expected
  return value

/-- A reading in front of the end uses up all tokens. -/
theorem usesUp_untilEnd {α : Type} {reading : Parse α}
    (h : ∀ ending limit, Stops ending limit (fun _ ↦ 0) reading reading) (expected : String) :
    UsesUp (reading.untilEnd expected) where
  stops := by
    intro ending limit
    refine (h ending limit).bind fun value ↦ ?_
    have hend : Stops ending limit (fun _ ↦ 0) (Parse.expectEnd expected)
        (Parse.expectEnd expected) :=
      .currentKind_bind fun _ ↦ .ite (.pure rfl) (.fail _)
    exact hend.bind fun _ ↦ .pure rfl
  upcoming_eq_nil := by
    intro ending short long value after halong hrun
    obtain ⟨_, middle, hreading, hrun⟩ := run_bind_eq_ok hrun
    obtain ⟨⟨⟩, _, hend, hpure⟩ := run_bind_eq_ok hrun
    cases hpure
    obtain ⟨_, -, -, halong', -⟩ :=
      (h ending (short.upcoming.length + 1) short long halong (Nat.lt_succ_self _)).exists_of_run
        hreading
    have heof := run_expectEnd hend
    have hstay : (Parse.expectEnd expected).run middle = .ok ((), middle) := by
      change (if middle.current.kind.isEof then pure () else Parse.fail expected :
        Parse Unit).run middle = _
      rw [if_pos heof]
      rfl
    rw [hstay] at hend
    cases hend
    exact halong'.upcoming_eq_nil heof

theorem usesUp_declarations : UsesUp Parse.declarations where
  stops := fun _ _ ↦ Parse.stops_declarations
  upcoming_eq_nil := by
    intro ending short long value after halong hrun
    obtain ⟨_, before, before', halong', hdone⟩ := exists_done_of_iterateUpTo
      Parse.stops_fileRound short.rounds [] halong (Nat.lt_succ_self _) (Nat.lt_succ_self _) hrun
    obtain ⟨heof, rfl⟩ := Parse.isEof_of_run_fileRound hdone
    exact halong'.upcoming_eq_nil heof

/-- A text is read as a whole: the result is what the reading makes of all of its tokens, or an
error. -/
structure ReadsWhole {α : Type} (source : String) (reading : Parse α)
    (result : Except SyntaxError α) : Prop where
  /-- A text with an invalid piece is refused. The error is that of the first invalid piece, or one
  that the reading has met at a token in front of it. -/
  refused : ∀ (tokens : List Token) span rest, scan source = tokens.map .ok ++ .error span :: rest →
    ∃ error, result = .error error ∧ error.span.start ≤ span.start ∧
      (error = ⟨.invalidToken, span⟩ ∨ reading.run (.start source) = .error error ∧
        ∃ token ∈ tokens, error.span = token.span)
  /-- What is returned has been read from all pieces of the text, each of which is a token. -/
  consumed : ∀ value, result = .ok value → ∃ (tokens : List Token) (after : Cursor),
    scan source = tokens.map .ok ∧ (Cursor.start source).upcoming = tokens ∧
      reading.run (.start source) = .ok (value, after) ∧ after.upcoming = []
  /-- Nothing changes if the reading goes over all pieces and takes the invalid ones for ends. It
  comes to a halt at the first of them. -/
  streamed : (∃ error, reading.run (.start source) = .error error ∧
      reading.run (.stream source) = .error error) ∨
    ∃ value after after', reading.run (.start source) = .ok (value, after) ∧
      reading.run (.stream source) = .ok (value, after') ∧
      after'.upcoming = (Cursor.stream source).upcoming.drop (validTokens (scan source)).length

/-- Whether the text goes on behind its first end makes no difference. -/
theorem UsesUp.stopsAt_text {α : Type} {reading : Parse α} (h : UsesUp reading) (source : String) :
    StopsAt (.ofText source) (fun _ ↦ 0) reading reading (.start source) (.stream source) :=
  h.stops _ _ _ _ (alongside_stream source) (Nat.lt_succ_self _)

/-- A text with an invalid piece is refused, with an error at that piece or at a token in front of
it. -/
theorem UsesUp.refused {α : Type} {reading : Parse α} (h : UsesUp reading) {source : String}
    {tokens : List Token} {span : Span} {rest : List (Except Span Token)}
    (hscan : scan source = tokens.map .ok ++ .error span :: rest) :
    ∃ error, parseAll reading source = .error error ∧ error.span.start ≤ span.start ∧
      (error = ⟨.invalidToken, span⟩ ∨ reading.run (.start source) = .error error ∧
        ∃ token ∈ tokens, error.span = token.span) := by
  have hinvalid : firstInvalid? (scan source) = some span :=
    hscan ▸ firstInvalid?_append_error tokens span rest
  have hvalid : validTokens (scan source) = tokens :=
    hscan ▸ validTokens_append_error tokens span rest
  have hspan : (Cursor.start source).ending = span := congrArg (Option.getD · _) hinvalid
  unfold parseAll
  rw [hinvalid]
  rcases simulates_exact_iff.1 (h.stopsAt_text source) with
    ⟨error, hrun, -, hreaches⟩ | ⟨value, after, _, hrun, -⟩
  · rw [hrun]
    dsimp only [Except.map]
    split
    · exact ⟨⟨.invalidToken, span⟩, rfl, Nat.le_refl _, .inl rfl⟩
    · next hless =>
      refine ⟨error, rfl, Nat.le_of_not_le hless, .inr ⟨rfl, ?_⟩⟩
      rcases hreaches with hend | ⟨token, hmem, htoken⟩
      · rw [hend] at hless
        exact absurd (Nat.le_of_eq (congrArg Span.start hspan.symm)) hless
      · exact ⟨token, hvalid ▸ hmem, htoken⟩
  · rw [hrun]
    exact ⟨⟨.invalidToken, span⟩, rfl, Nat.le_refl _, .inl rfl⟩

/-- A text that is accepted has no invalid piece, and all its tokens are read. -/
theorem UsesUp.consumed {α : Type} {reading : Parse α} (h : UsesUp reading) {source : String}
    {value : α} (hparse : parseAll reading source = .ok value) :
    ∃ (tokens : List Token) (after : Cursor), scan source = tokens.map .ok ∧
      (Cursor.start source).upcoming = tokens ∧ reading.run (.start source) = .ok (value, after) ∧
      after.upcoming = [] := by
  obtain ⟨hinvalid, after, hrun⟩ := parseAll_eq_ok_iff.1 hparse
  exact ⟨validTokens (scan source), after, eq_map_ok_of_firstInvalid? hinvalid, rfl, hrun,
    h.upcoming_eq_nil (alongside_stream source) hrun⟩

/-- Reading the valid tokens is reading the whole stream up to its first end. -/
theorem UsesUp.streamed {α : Type} {reading : Parse α} (h : UsesUp reading) (source : String) :
    (∃ error, reading.run (.start source) = .error error ∧
        reading.run (.stream source) = .error error) ∨
      ∃ value after after', reading.run (.start source) = .ok (value, after) ∧
        reading.run (.stream source) = .ok (value, after') ∧
        after'.upcoming =
          (Cursor.stream source).upcoming.drop (validTokens (scan source)).length := by
  rcases simulates_exact_iff.1 (h.stopsAt_text source) with
    ⟨error, hfirst, hsecond, -⟩ | ⟨value, after, after', hfirst, hsecond, halong', -⟩
  · exact .inl ⟨error, hfirst, hsecond⟩
  · refine .inr ⟨value, after, after', hfirst, hsecond, ?_⟩
    rw [halong'.upcoming_eq, h.upcoming_eq_nil (alongside_stream source) hfirst,
      upcoming_stream, List.drop_left, List.nil_append]

/-- Signatures, types and method types are read as a whole. -/
theorem parse_readsWhole (source : String) :
    ReadsWhole source Parse.declarations (parseSignature source) ∧
      ReadsWhole source ((Parse.type []).untilEnd "end of type") (parseType source) ∧
      ReadsWhole source ((Parse.methodType []).untilEnd "end of method type")
        (parseMethodType source) := by
  have hwhole : ∀ {α : Type} {reading : Parse α}, UsesUp reading →
      ReadsWhole source reading (parseAll reading source) := fun h ↦
    ⟨fun _ _ _ ↦ h.refused, fun _ ↦ h.consumed, h.streamed source⟩
  refine ⟨hwhole usesUp_declarations, hwhole (usesUp_untilEnd ?_ _), hwhole (usesUp_untilEnd ?_ _)⟩
  · exact fun _ _ ↦ Parse.stops_type []
  · exact fun _ _ ↦ Parse.stops_methodType []

end DeclaredMethods.Signature
