import DeclaredMethods.Source.Cursor
import Mathlib.Data.List.Basic

/-!
# What a cursor has still to read

A cursor shows two tokens of a stream and keeps the rest. The tokens in front of the end of the
source that it has not read yet are its unread tokens; reading one takes the first of them away.
The lexical errors it has reported and those still to come are always the same list.

The end of the source stands behind all other tokens of a text, so a cursor that has reached it
has nothing left to read.
-/

namespace DeclaredMethods.Source

def tokensOf (stream : List (Except LexError Token)) : List Token :=
  stream.filterMap fun
    | .ok token => some token
    | .error _ => none

def errorsOf (stream : List (Except LexError Token)) : List LexError :=
  stream.filterMap fun
    | .ok _ => none
    | .error error => some error

theorem tokensOf_ok (token : Token) (stream : List (Except LexError Token)) :
    tokensOf (.ok token :: stream) = token :: tokensOf stream :=
  rfl

/-- Whether a token stands in front of the end of the source. -/
def Token.isInner (token : Token) : Bool :=
  !token.kind.isEof

def ParseError.lexical? : ParseError → Option LexError
  | ⟨.lex kind, span⟩ => some ⟨kind, span⟩
  | _ => none

/-- Fetching loses no lexical error: those in front of the token are reported. -/
theorem fetch_errors (size : Nat) (stream : List (Except LexError Token)) :
    (fetch size stream).1.filterMap ParseError.lexical? ++ errorsOf (fetch size stream).2.2 =
      errorsOf stream := by
  induction stream with
  | nil => rfl
  | cons item rest ih =>
    cases item with
    | ok token => rfl
    | error error => exact congrArg (error :: ·) ih

/-- Fetching loses no token in front of the end of the source. -/
theorem fetch_tokens (size : Nat) (stream : List (Except LexError Token)) :
    ((fetch size stream).2.1 :: tokensOf (fetch size stream).2.2).filter Token.isInner =
      (tokensOf stream).filter Token.isInner := by
  induction stream with
  | nil => rfl
  | cons item rest ih =>
    cases item with
    | ok token => rfl
    | error error => exact ih

def isEnd : Except LexError Token → Bool
  | .ok token => token.kind.isEof
  | .error _ => false

/-- Nothing but the end of the source follows the end of the source. -/
def EofLast (stream : List (Except LexError Token)) : Prop :=
  stream.Pairwise fun earlier later ↦ isEnd earlier = true → isEnd later = true

theorem eofLast_cons_of_inner {item : Except LexError Token}
    {stream : List (Except LexError Token)} (hitem : isEnd item = false)
    (hstream : EofLast stream) : EofLast (item :: stream) := by
  refine List.pairwise_cons.2 ⟨fun later _ hend ↦ ?_, hstream⟩
  rw [hitem] at hend
  cases hend

/-- Fetching from the end gives the end again. -/
theorem eofLast_fetch (size : Nat) (stream : List (Except LexError Token))
    (h : EofLast stream) :
    EofLast (.ok (fetch size stream).2.1 :: (fetch size stream).2.2) := by
  induction stream with
  | nil => exact List.pairwise_singleton _ _
  | cons item rest ih =>
    cases item with
    | ok token => exact h
    | error error => exact ih h.tail

theorem eofLast_cons_fetch (size : Nat) (first : Except LexError Token)
    (stream : List (Except LexError Token)) (h : EofLast (first :: stream)) :
    EofLast (first :: .ok (fetch size stream).2.1 :: (fetch size stream).2.2) := by
  induction stream with
  | nil => exact List.pairwise_pair.2 fun _ ↦ rfl
  | cons item rest ih =>
    cases item with
    | ok token => exact h
    | error error => exact ih (h.sublist (.cons_cons first (List.sublist_cons_self _ _)))

section Ends

variable {first : Except LexError Token} {stream : List (Except LexError Token)}

/-- Behind the end of the source there is nothing else. -/
theorem isEnd_of_mem (hfirst : isEnd first = true) (h : EofLast (first :: stream)) :
    ∀ item ∈ first :: stream, isEnd item = true := by
  intro item hitem
  rcases List.mem_cons.1 hitem with rfl | hitem
  · exact hfirst
  · exact (List.pairwise_cons.1 h).1 item hitem hfirst

/-- Where only the end of the source is left there is no token to read. -/
theorem filter_tokensOf_eq_nil (h : ∀ item ∈ stream, isEnd item = true) :
    (tokensOf stream).filter Token.isInner = [] := by
  induction stream with
  | nil => rfl
  | cons item rest ih =>
    have hitem := h item List.mem_cons_self
    have hrest := ih fun later hlater ↦ h later (List.mem_cons_of_mem item hlater)
    cases item with
    | ok token =>
      rw [tokensOf_ok, List.filter_cons_of_neg, hrest]
      rw [Token.isInner, Bool.not_eq_true', Bool.not_eq_false]
      exact hitem
    | error error => exact hrest

/-- Where only the end of the source is left there is no lexical error. -/
theorem errorsOf_eq_nil (h : ∀ item ∈ stream, isEnd item = true) : errorsOf stream = [] := by
  induction stream with
  | nil => rfl
  | cons item rest ih =>
    have hitem := h item List.mem_cons_self
    cases item with
    | ok token => exact ih fun later hlater ↦ h later (List.mem_cons_of_mem _ hlater)
    | error error => cases hitem

end Ends

namespace Cursor

/-- The stream behind the tokens that have been read, with the two that the cursor shows. -/
def upcoming (cursor : Cursor) : List (Except LexError Token) :=
  .ok cursor.current :: .ok cursor.next :: cursor.pending

/-- The tokens that are still to be read. -/
def unread (cursor : Cursor) : List Token :=
  (tokensOf cursor.upcoming).filter Token.isInner

/-- The lexical errors reported so far and those still to come. -/
def lexical (cursor : Cursor) : List LexError :=
  cursor.errors.filterMap ParseError.lexical? ++ errorsOf cursor.upcoming

/-- Reading a token leaves those behind it. -/
theorem unread_advance (cursor : Cursor) :
    cursor.advance.unread = (cursor.next :: tokensOf cursor.pending).filter Token.isInner := by
  have hfetch := fetch_tokens cursor.size cursor.pending
  calc cursor.advance.unread
      = (cursor.next :: (fetch cursor.size cursor.pending).2.1 ::
          tokensOf (fetch cursor.size cursor.pending).2.2).filter Token.isInner := rfl
    _ = (cursor.next :: tokensOf cursor.pending).filter Token.isInner := by
        rw [List.filter_cons, hfetch, ← List.filter_cons]

/-- Reading a token takes it from the unread ones. -/
theorem unread_eq_cons {cursor : Cursor} (h : cursor.atEnd = false) :
    cursor.unread = cursor.current :: cursor.advance.unread := by
  have hinner : cursor.current.isInner = true := by
    rw [Token.isInner, ← atEnd, h, Bool.not_false]
  rw [unread_advance]
  exact List.filter_cons_of_pos hinner

/-- The items of the stream outnumber the unread tokens. -/
theorem length_unread_lt_rounds (cursor : Cursor) : cursor.unread.length < cursor.rounds := by
  have htokens : (tokensOf cursor.upcoming).length ≤ cursor.upcoming.length :=
    List.length_filterMap_le _ _
  have hunread : cursor.unread.length ≤ (tokensOf cursor.upcoming).length :=
    List.length_filter_le _ _
  have hupcoming : cursor.upcoming.length = cursor.pending.length + 2 := rfl
  unfold rounds
  omega

theorem eofLast_advance {cursor : Cursor} (h : EofLast cursor.upcoming) :
    EofLast cursor.advance.upcoming :=
  eofLast_cons_fetch _ _ _ h.tail

/-- Reading a token passes on the lexical errors that its successors bring. -/
theorem lexical_advance (cursor : Cursor) : cursor.advance.lexical = cursor.lexical := by
  have hfetch := fetch_errors cursor.size cursor.pending
  calc cursor.advance.lexical
      = (cursor.errors ++ (fetch cursor.size cursor.pending).1).filterMap ParseError.lexical? ++
          errorsOf (fetch cursor.size cursor.pending).2.2 := rfl
    _ = cursor.errors.filterMap ParseError.lexical? ++ errorsOf cursor.pending := by
        rw [List.filterMap_append, List.append_assoc, hfetch]
    _ = cursor.lexical := rfl

section Ends

variable {cursor : Cursor}

theorem isEnd_upcoming (hlast : EofLast cursor.upcoming) (h : cursor.atEnd = true) :
    ∀ item ∈ cursor.upcoming, isEnd item = true :=
  isEnd_of_mem h hlast

/-- A cursor at the end has nothing left to read. -/
theorem unread_eq_nil (hlast : EofLast cursor.upcoming) (h : cursor.atEnd = true) :
    cursor.unread = [] :=
  filter_tokensOf_eq_nil (isEnd_upcoming hlast h)

/-- A cursor at the end has passed on all lexical errors. -/
theorem lexical_of_atEnd (hlast : EofLast cursor.upcoming) (h : cursor.atEnd = true) :
    cursor.lexical = cursor.errors.filterMap ParseError.lexical? := by
  rw [lexical, errorsOf_eq_nil (isEnd_upcoming hlast h), List.append_nil]

end Ends

end Cursor

section Lexemes

variable {text : List Char}

/-- No piece of a text is the end of the source. -/
def Lexeme.isInner (lexeme : Lexeme) : Bool :=
  match lexeme.reading with
  | .token kind => !kind.isEof
  | _ => true

theorem isInner_integerLexeme (length value : Nat) :
    (integerLexeme length value).isInner = true := by
  unfold integerLexeme
  split <;> rfl

theorem isInner_basedNumber {lexeme : Lexeme} (h : basedNumber? text = some lexeme) :
    lexeme.isInner = true := by
  unfold basedNumber? at h
  split at h
  all_goals
    first
    | cases h
    | obtain ⟨digits, -, rfl⟩ := Option.map_eq_some_iff.1 h
      exact isInner_integerLexeme _ _

theorem isInner_numberLexeme (first : Char) (text : List Char) :
    (numberLexeme first text).isInner = true := by
  unfold numberLexeme
  split
  · rename_i lexeme hlexeme
    split at hlexeme
    · exact isInner_basedNumber hlexeme
    · cases hlexeme
  · unfold decimalNumber
    dsimp only
    split
    · rfl
    · exact isInner_integerLexeme _ _

/-- A piece of a text that is neither a whole number nor the end of the source. -/
def Lexeme.isOther (lexeme : Lexeme) : Bool :=
  match lexeme.reading with
  | .token .eof | .token (.int _) | .error .invalidNumber => false
  | _ => true

/-- What is neither a number nor the end is not the end. -/
theorem Lexeme.isInner_of_isOther {lexeme : Lexeme} (h : lexeme.isOther = true) :
    lexeme.isInner = true := by
  obtain ⟨length, reading⟩ := lexeme
  cases reading with
  | token kind => cases kind <;> first | rfl | cases h
  | _ => rfl

theorem isOther_wordLexeme (first : Char) (text : List Char) :
    (wordLexeme first text).isOther = true := by
  unfold wordLexeme
  split
  · rfl
  · dsimp only
    split <;> rfl

theorem isOther_delimitedLexeme (opening : Nat) (inside : Nat × Bool) (text : List Char)
    (missing : LexErrorKind) (decode : List Char → TokenKind)
    (hmissing : ∀ length, Lexeme.isOther ⟨length, .error missing⟩ = true)
    (hdecode : ∀ length chars, Lexeme.isOther ⟨length, .token (decode chars)⟩ = true) :
    (delimitedLexeme opening inside text missing decode).isOther = true := by
  unfold delimitedLexeme
  dsimp only
  split
  · exact hdecode _ _
  · exact hmissing _

theorem isOther_punctLexeme (text : List Char) : (punctLexeme text).isOther = true := by
  unfold punctLexeme
  split <;> rfl

theorem isOther_colonLexeme (text : List Char) : (colonLexeme text).isOther = true := by
  unfold colonLexeme
  split
  · exact isOther_delimitedLexeme _ _ _ _ _ (fun _ ↦ rfl) fun _ _ ↦ rfl
  · split
    · rfl
    · exact isOther_punctLexeme _

theorem isOther_atLexeme (text : List Char) : (atLexeme text).isOther = true := by
  unfold atLexeme
  split <;> split <;> rfl

theorem isOther_dollarLexeme (text : List Char) : (dollarLexeme text).isOther = true := by
  unfold dollarLexeme
  split <;> rfl

theorem isOther_percentLexeme (text : List Char) : (percentLexeme text).isOther = true := by
  unfold percentLexeme
  split
  · rename_i lexeme hlexeme
    unfold wordListLexeme? wordListLexeme?.listLexeme at hlexeme
    split at hlexeme <;> cases hlexeme
    all_goals exact isOther_delimitedLexeme _ _ _ _ _ (fun _ ↦ rfl) fun _ _ ↦ rfl
  · exact isOther_punctLexeme _

theorem isOther_equalsLexeme (text : List Char) : (equalsLexeme text).isOther = true := by
  unfold equalsLexeme
  split
  · rfl
  · exact isOther_punctLexeme _

theorem isOther_backslashLexeme (text : List Char) : (backslashLexeme text).isOther = true := by
  unfold backslashLexeme
  split <;> rfl

theorem isOther_returnLexeme (text : List Char) : (returnLexeme text).isOther = true := by
  unfold returnLexeme
  split <;> rfl

/-- What does not start with a digit is no whole number. -/
theorem isOther_lexemeAt {first : Char} (h : first.isDigit = false) (text : List Char) :
    (lexemeAt first text).isOther = true := by
  unfold lexemeAt
  split
  · rfl
  · rfl
  · rfl
  · exact isOther_returnLexeme text
  · exact isOther_backslashLexeme text
  · rfl
  · exact isOther_delimitedLexeme _ _ _ _ _ (fun _ ↦ rfl) fun _ _ ↦ rfl
  · exact isOther_delimitedLexeme _ _ _ _ _ (fun _ ↦ rfl) fun _ _ ↦ rfl
  · exact isOther_colonLexeme text
  · exact isOther_atLexeme text
  · exact isOther_dollarLexeme text
  · exact isOther_percentLexeme text
  · exact isOther_equalsLexeme text
  · rw [if_neg (Bool.eq_false_iff.1 h)]
    split
    · exact isOther_wordLexeme _ text
    · exact isOther_punctLexeme _

/-- What starts with a digit is a number. -/
theorem lexemeAt_of_isDigit {first : Char} (h : first.isDigit = true) (text : List Char) :
    lexemeAt first text = numberLexeme first text := by
  unfold lexemeAt
  split
  case h_14 => exact if_pos h
  all_goals exact absurd h (by decide)

/-- By cases over the first character; no piece of a text is read as the end. -/
theorem isInner_lexemeAt (first : Char) (text : List Char) :
    (lexemeAt first text).isInner = true := by
  cases h : first.isDigit with
  | false => exact Lexeme.isInner_of_isOther (isOther_lexemeAt h text)
  | true =>
    rw [lexemeAt_of_isDigit h]
    exact isInner_numberLexeme first text

end Lexemes

/-- Only the end of a text is the end of the source. -/
theorem eofLast_scanFrom (bound offset : Nat) (text : List Char) :
    EofLast (scanFrom bound offset text) := by
  induction bound generalizing offset text with
  | zero =>
    cases text with
    | nil => exact List.pairwise_singleton _ _
    | cons first text => exact .nil
  | succ bound ih =>
    cases text with
    | nil => exact List.pairwise_singleton _ _
    | cons first text =>
      have hinner := isInner_lexemeAt first text
      unfold scanFrom
      unfold Lexeme.isInner at hinner
      dsimp only
      cases hreading : (lexemeAt first text).reading with
      | skipped => exact ih _ _
      | token kind =>
        rw [hreading] at hinner
        exact eofLast_cons_of_inner ((Bool.not_eq_true' _).mp hinner) (ih _ _)
      | error kind => exact eofLast_cons_of_inner rfl (ih _ _)

namespace Cursor

/-- A scan ends with the end of the source. -/
theorem eofLast_start (source : String) : EofLast (start source).upcoming :=
  eofLast_cons_fetch _ _ _ (eofLast_fetch _ _ (eofLast_scanFrom _ _ _))

/-- In front of a source, all its tokens are unread. -/
theorem unread_start (source : String) :
    (start source).unread = (tokens source).filter Token.isInner := by
  let size := Text.byteLength source.toList
  let first := fetch size (scan source)
  calc (start source).unread
      = (first.2.1 :: (fetch size first.2.2).2.1 ::
          tokensOf (fetch size first.2.2).2.2).filter Token.isInner := rfl
    _ = (first.2.1 :: tokensOf first.2.2).filter Token.isInner := by
        rw [List.filter_cons, fetch_tokens, ← List.filter_cons]
    _ = (tokens source).filter Token.isInner := fetch_tokens _ _

/-- In front of a source, its lexical errors are reported or still to come. -/
theorem lexical_start (source : String) : (start source).lexical = lexErrors source := by
  let size := Text.byteLength source.toList
  let first := fetch size (scan source)
  calc (start source).lexical
      = (first.1 ++ (fetch size first.2.2).1).filterMap ParseError.lexical? ++
          errorsOf (fetch size first.2.2).2.2 := rfl
    _ = first.1.filterMap ParseError.lexical? ++ errorsOf first.2.2 := by
        rw [List.filterMap_append, List.append_assoc, fetch_errors]
    _ = lexErrors source := fetch_errors _ _

end Cursor

end DeclaredMethods.Source
