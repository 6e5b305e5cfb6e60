import DeclaredMethods.Proofs.Parsing.Expressions

/-!
# A parse reads its source once

Lexical errors are passed on as they are met, in order and none twice, whatever else is reported.
The end of the source stays behind all other tokens. Both are kept by every way of moving a
cursor, so they hold along every parse.

Together with the count of tokens that all reading keeps, this gives the main result: a parse of
any text ends, it ends at the end of the source after reading each token once, and its lexical
errors are those of the text.
-/

namespace DeclaredMethods.Source

open Parse

/-- The lexical errors are passed on, and the end of the source stays behind all tokens. -/
structure Cursor.KeepsStream (c c' : Cursor) : Prop where
  lexical_eq : c'.lexical = c.lexical
  eofLast : EofLast c.upcoming → EofLast c'.upcoming

namespace Cursor.KeepsStream

variable {c c' c'' : Cursor}

theorem trans (h : KeepsStream c c') (h' : KeepsStream c' c'') : KeepsStream c c'' :=
  ⟨h'.lexical_eq.trans h.lexical_eq, fun hlast ↦ h'.eofLast (h.eofLast hlast)⟩

/-- Reading a token moves its errors from the stream to the report, and loses none. -/
theorem advance (c : Cursor) : KeepsStream c c.advance :=
  ⟨lexical_advance c, eofLast_advance⟩

theorem stay (hupcoming : c'.upcoming = c.upcoming) (herrors : c'.errors = c.errors) :
    KeepsStream c c' where
  lexical_eq := by rw [lexical, lexical, hupcoming, herrors]
  eofLast hlast := by rwa [hupcoming]

/-- An error that is not lexical is no part of what the tokens report. -/
theorem report (c : Cursor) {error : ParseError} (herror : error.lexical? = none) :
    KeepsStream c { c with errors := c.errors ++ [error] } where
  lexical_eq :=
    calc (c.errors ++ [error]).filterMap ParseError.lexical? ++ errorsOf c.upcoming
        = c.errors.filterMap ParseError.lexical? ++ errorsOf c.upcoming := by
          rw [List.filterMap_append, List.filterMap_cons_none herror, List.filterMap_nil,
            List.append_nil]
      _ = c.lexical := rfl
  eofLast := id

end Cursor.KeepsStream

def streaming : Discipline :=
  .ofStream Cursor.KeepsStream .trans (fun _ ↦ .advance _) .report
    fun hupcoming _ herrors ↦ .stay hupcoming herrors

/-- Every parse ends, at the end of the source, and obeys every discipline. -/
theorem exists_run (d : Discipline) (source : String) :
    ∃ file cursor, run source = some (file, cursor) ∧ cursor.atEnd = true ∧
      d.Leads (.start source) cursor := by
  obtain ⟨file, cursor, hrun, hleads, hend⟩ :=
    (obeysAt_sourceFile (d := d) (.start source)).exists_run
  exact ⟨file, cursor, hrun, hend, hleads⟩

/-- A parse gives what its run leaves. -/
theorem parse_of_run {source : String} {file : SourceFile} {cursor : Cursor}
    (h : run source = some (file, cursor)) : parse source = ⟨file, cursor.errors⟩ := by
  unfold parse
  rw [h]

/-- A parse of any text ends. It ends at the end of the source and has read each token in front
of it once, and the lexical errors among its errors are those of the text, in their order. -/
theorem parse_reads_source_once (source : String) :
    ∃ file cursor, run source = some (file, cursor) ∧ parse source = ⟨file, cursor.errors⟩ ∧
      cursor.current.kind = .eof ∧
      cursor.position = (tokens source).countP Token.isInner ∧
      (parse source).errors.filterMap ParseError.lexical? = lexErrors source := by
  obtain ⟨file, cursor, hrun, hend, hleads⟩ := exists_run streaming source
  have hparse := parse_of_run hrun
  have hlast : EofLast cursor.upcoming := hleads.rel.eofLast (Cursor.eofLast_start source)
  refine ⟨file, cursor, hrun, hparse, kind_of_atEnd hend, ?_, ?_⟩
  · calc cursor.position
        = cursor.position + cursor.unread.length := by
          rw [Cursor.unread_eq_nil hlast hend, List.length_nil, Nat.add_zero]
      _ = 0 + (Cursor.start source).unread.length := hleads.onward.count
      _ = (tokens source).countP Token.isInner := by
          rw [Nat.zero_add, Cursor.unread_start, List.countP_eq_length_filter]
  · calc (parse source).errors.filterMap ParseError.lexical?
        = cursor.errors.filterMap ParseError.lexical? := by rw [hparse]
      _ = cursor.lexical := (Cursor.lexical_of_atEnd hlast hend).symm
      _ = (Cursor.start source).lexical := hleads.rel.lexical_eq
      _ = lexErrors source := Cursor.lexical_start source

end DeclaredMethods.Source
