import DeclaredMethods.Proofs.Places.Standing
import Mathlib.Data.List.TakeWhile

/-!
# The tokens of a text and what stands between them

Blanks, line continuations and comments are what a text may hold between its tokens. They are
described here apart from the way they are read: a comment goes up to the end of its line, and a
block comment up to the first line that starts with `=end`.

Every lexeme takes characters, and one that is skipped is such a filler. So the tokens and errors of
a text, with the fillers between them, cut the whole text into pieces, in order and without a rest.
-/

namespace DeclaredMethods.Source

def commentOpening : List Char := ['=', 'b', 'e', 'g', 'i', 'n']

/-- What the last line of a block comment starts with. -/
def commentClosing : List Char := ['=', 'e', 'n', 'd']

/-- The text of a block comment behind its opening, in front of the text `rest`. The rest of the
line with the opening counts as a line. -/
inductive CommentText : List Char → List Char → Prop where
  | line {line text rest : List Char} (hline : '\n' ∉ line) (hopen : ¬commentClosing <+: line)
      (htext : CommentText text rest) : CommentText (line ++ '\n' :: text) rest
  | closed {last rest : List Char} (hlast : '\n' ∉ last) :
      CommentText (commentClosing ++ last ++ ['\n']) rest
  /-- The last line of a source may close a comment without a line end. -/
  | closedAtEnd {last : List Char} (hlast : '\n' ∉ last) : CommentText (commentClosing ++ last) []
  /-- A comment that is not closed goes up to the end of the source. -/
  | unclosed {last : List Char} (hlast : '\n' ∉ last) (hopen : ¬commentClosing <+: last) :
      CommentText last []

/-- One thing that may stand between tokens, in front of the text `rest`. -/
inductive Trivia : List Char → List Char → Prop where
  | blank {c : Char} {rest : List Char} (h : c = ' ' ∨ c = '\t') : Trivia [c] rest
  | continuation {rest : List Char} : Trivia ['\\', '\n'] rest
  | returnContinuation {rest : List Char} : Trivia ['\\', '\r', '\n'] rest
  /-- A line comment goes up to its line feed, which is not part of it. -/
  | lineComment {text rest : List Char} (htext : '\n' ∉ text)
      (hrest : rest = [] ∨ ∃ later, rest = '\n' :: later) : Trivia ('#' :: text) rest
  | blockComment {text rest : List Char} (htext : CommentText text rest) :
      Trivia (commentOpening ++ text) rest

/-- What stands between two tokens, in front of the text `rest`. -/
inductive Filler : List Char → List Char → Prop where
  | nil {rest : List Char} : Filler [] rest
  | cons {piece gap rest : List Char} (hpiece : Trivia piece (gap ++ rest))
      (hgap : Filler gap rest) : Filler (piece ++ gap) rest

namespace Filler

variable {piece gap rest text : List Char}

theorem single (h : Trivia piece rest) : Filler piece rest := by
  have hfiller : Filler (piece ++ []) rest := .cons h .nil
  rwa [List.append_nil] at hfiller

/-- Fillers can stand one behind the other. -/
theorem append (h : Filler piece (gap ++ rest)) (h' : Filler gap rest) :
    Filler (piece ++ gap) rest := by
  generalize hrest : gap ++ rest = behind at h
  induction h with
  | nil => exact h'
  | cons hpiece hgap ih =>
    subst hrest
    rw [List.append_assoc]
    exact .cons (by rwa [List.append_assoc]) (ih rfl)

/-- A run of blanks. -/
theorem blanks (h : ∀ c ∈ piece, c = ' ' ∨ c = '\t') : Filler piece rest := by
  induction piece with
  | nil => exact .nil
  | cons c piece ih =>
    have hfirst : Trivia [c] (piece ++ rest) := .blank (h c List.mem_cons_self)
    exact .cons hfirst (ih fun d hd ↦ h d (List.mem_cons_of_mem c hd))

end Filler

section Comments

/-- A text is empty, or its first line ends with a line feed, or it is one line without an end. -/
theorem splitLines_cases (text : List Char) :
    (∃ line rest, '\n' ∉ line ∧ text = line ++ '\n' :: rest ∧
        Text.splitLines text = (line ++ ['\n']) :: Text.splitLines rest) ∨
      '\n' ∉ text ∧ (Text.splitLines text = [] ∧ text = [] ∨ Text.splitLines text = [text]) := by
  induction text with
  | nil => exact .inr ⟨List.not_mem_nil, .inl ⟨rfl, rfl⟩⟩
  | cons c text ih =>
    by_cases hc : c = '\n'
    · subst hc
      exact .inl ⟨[], text, List.not_mem_nil, rfl, rfl⟩
    · have hhead : ∀ {line : List Char}, '\n' ∉ line → '\n' ∉ c :: line := fun hline hmem ↦
        (List.mem_cons.1 hmem).elim (fun h ↦ hc h.symm) hline
      rcases ih with ⟨line, rest, hline, rfl, hlines⟩ | ⟨hline, hlines⟩
      · refine .inl ⟨c :: line, rest, hhead hline, rfl, ?_⟩
        rw [Text.splitLines, if_neg hc, hlines]
        rfl
      · refine .inr ⟨hhead hline, .inr ?_⟩
        rw [Text.splitLines, if_neg hc]
        rcases hlines with ⟨hlines, rfl⟩ | hlines
        · rw [hlines]
        · rw [hlines]

/-- The line feed does not decide whether a line closes a comment. -/
theorem closing_prefix_iff (line : List Char) :
    commentClosing <+: line ++ ['\n'] ↔ commentClosing <+: line := by
  refine ⟨fun h ↦ (List.prefix_concat_iff.1 h).resolve_left fun heq ↦ ?_, fun h ↦ h.trans
    (List.prefix_append _ _)⟩
  have hlast := congrArg List.getLast? heq
  rw [List.getLast?_concat] at hlast
  exact absurd hlast (by decide)

theorem blockCommentLength_of_closing {line : List Char} (lines : List (List Char))
    (h : commentClosing <+: line) : blockCommentLength (line :: lines) = line.length :=
  if_pos (List.isPrefixOf_iff_prefix.2 h)

/-- A block comment goes on over every line that does not close it. -/
theorem blockCommentLength_of_open {line : List Char} (lines : List (List Char))
    (h : ¬commentClosing <+: line) :
    blockCommentLength (line :: lines) = line.length + blockCommentLength lines :=
  if_neg (mt List.isPrefixOf_iff_prefix.1 h)

/-- The lines that count for a block comment are its text. -/
theorem commentText_take (text : List Char) :
    CommentText (text.take (blockCommentLength (Text.splitLines text)))
      (text.drop (blockCommentLength (Text.splitLines text))) := by
  induction hlength : text.length using Nat.strongRecOn generalizing text with
  | ind length ih =>
  rcases splitLines_cases text with ⟨line, rest, hline, rfl, hlines⟩ | ⟨hline, hlines⟩
  · rw [hlines, List.append_cons line '\n' rest]
    by_cases hclosing : commentClosing <+: line
    · rw [blockCommentLength_of_closing _ ((closing_prefix_iff line).2 hclosing), List.take_left,
        List.drop_left]
      obtain ⟨last, rfl⟩ := hclosing
      exact .closed fun hmem ↦ hline (List.mem_append_right _ hmem)
    · have hshorter : rest.length < length := by
        rw [← hlength, List.length_append, List.length_cons]
        omega
      rw [blockCommentLength_of_open _ (mt (closing_prefix_iff line).1 hclosing),
        List.take_length_add_append, List.drop_length_add_append, ← List.append_cons]
      exact .line hline hclosing (ih _ hshorter rest rfl)
  · rcases hlines with ⟨hlines, rfl⟩ | hlines
    · exact .unclosed hline (by decide)
    · rw [hlines]
      by_cases hclosing : commentClosing <+: text
      · rw [blockCommentLength_of_closing _ hclosing, List.take_length, List.drop_length]
        obtain ⟨last, rfl⟩ := hclosing
        exact .closedAtEnd fun hmem ↦ hline (List.mem_append_right _ hmem)
      · have hlength : blockCommentLength [text] = text.length :=
          blockCommentLength_of_open [] hclosing
        rw [hlength, List.take_length, List.drop_length]
        exact .unclosed hline hclosing

end Comments

/-! ## Lexemes -/

section Lexemes

variable {text : List Char}

/-- A lexeme takes characters and is a token or an error. -/
structure Lexeme.Shows (lexeme : Lexeme) : Prop where
  length_pos : 0 < lexeme.length
  not_skipped : lexeme.reading ≠ .skipped

theorem shows_token {length : Nat} {kind : TokenKind} (h : 0 < length) :
    Lexeme.Shows ⟨length, .token kind⟩ :=
  ⟨h, fun hskipped ↦ by cases hskipped⟩

theorem shows_error {length : Nat} {kind : LexErrorKind} (h : 0 < length) :
    Lexeme.Shows ⟨length, .error kind⟩ :=
  ⟨h, fun hskipped ↦ by cases hskipped⟩

theorem shows_stray : Lexeme.stray.Shows :=
  shows_error Nat.one_pos

theorem shows_integerLexeme {length value : Nat} (h : 0 < length) :
    (integerLexeme length value).Shows := by
  unfold integerLexeme
  split
  · exact shows_token h
  · exact shows_error h

theorem shows_basedNumber {lexeme : Lexeme} (h : basedNumber? text = some lexeme) :
    lexeme.Shows := by
  unfold basedNumber? at h
  split at h
  case h_4 => cases h
  all_goals
    obtain ⟨digits, -, rfl⟩ := Option.map_eq_some_iff.1 h
    exact shows_integerLexeme (Nat.succ_pos _)

/-- Every number becomes a token or an error. -/
theorem shows_numberLexeme (first : Char) (text : List Char) :
    (numberLexeme first text).Shows := by
  unfold numberLexeme
  split
  · rename_i lexeme hlexeme
    split at hlexeme
    · exact shows_basedNumber hlexeme
    · cases hlexeme
  · unfold decimalNumber
    dsimp only
    split
    · exact shows_token (Nat.add_pos_left (Nat.succ_pos _) _)
    · exact shows_integerLexeme (Nat.succ_pos _)

theorem suffixedNameLength_pos {first : Char} (h : Text.isNameStart first = true) :
    0 < suffixedNameLength (first :: text) := by
  have hfirst : Text.isNameChar first = true := by
    unfold Text.isNameStart at h
    unfold Text.isNameChar Char.isAlphanum
    grind
  unfold suffixedNameLength
  rw [List.takeWhile_cons_of_pos hfirst, List.length_cons]
  dsimp only
  split
  all_goals exact Nat.succ_pos _

theorem shows_wordLexeme {first : Char} (h : Text.isNameStart first = true) :
    (wordLexeme first text).Shows := by
  unfold wordLexeme
  split
  · exact shows_token (Nat.succ_pos _)
  · dsimp only
    split
    all_goals exact shows_token (suffixedNameLength_pos h)

/-- A delimited text becomes a token, or an error where its end is missing. -/
theorem shows_delimitedLexeme {opening : Nat} {inside : Nat × Bool} {missing : LexErrorKind}
    {decode : List Char → TokenKind} (h : 0 < opening) :
    (delimitedLexeme opening inside text missing decode).Shows := by
  unfold delimitedLexeme
  dsimp only
  split
  · exact shows_token (Nat.succ_pos _)
  · exact shows_error (Nat.add_pos_left h _)

theorem shows_punctLexeme (text : List Char) : (punctLexeme text).Shows := by
  unfold punctLexeme
  split
  · rename_i mark _
    exact shows_token (by cases mark <;> exact Nat.succ_pos _)
  · exact shows_stray

theorem shows_colonLexeme (text : List Char) : (colonLexeme text).Shows := by
  unfold colonLexeme
  split
  · exact shows_delimitedLexeme Nat.two_pos
  · split
    · exact shows_token (Nat.succ_pos _)
    · exact shows_punctLexeme _

theorem shows_atLexeme (text : List Char) : (atLexeme text).Shows := by
  unfold atLexeme
  split <;> split
  all_goals first | exact shows_token (Nat.succ_pos _) | exact shows_stray

theorem shows_dollarLexeme (text : List Char) : (dollarLexeme text).Shows := by
  unfold dollarLexeme
  split
  · exact shows_token (Nat.succ_pos _)
  · exact shows_stray

theorem shows_percentLexeme (text : List Char) : (percentLexeme text).Shows := by
  unfold percentLexeme
  split
  · rename_i lexeme hlexeme
    unfold wordListLexeme? wordListLexeme?.listLexeme at hlexeme
    split at hlexeme <;> cases hlexeme
    all_goals exact shows_delimitedLexeme (Nat.succ_pos _)
  · exact shows_punctLexeme _

theorem shows_returnLexeme (text : List Char) : (returnLexeme text).Shows := by
  unfold returnLexeme
  split
  · exact shows_token Nat.two_pos
  · exact shows_stray

/-- A lexeme takes characters that are skipped, and they are a filler. -/
structure Lexeme.Fills (lexeme : Lexeme) (text : List Char) : Prop where
  length_pos : 0 < lexeme.length
  skipped : lexeme.reading = .skipped
  filler : Filler (text.take lexeme.length) (text.drop lexeme.length)

/-- A text that starts with a filler of the given length. -/
theorem fills_append {piece rest : List Char} {length : Nat} (hlength : piece.length = length)
    (hpos : 0 < length) (h : Filler piece rest) :
    Lexeme.Fills ⟨length, .skipped⟩ (piece ++ rest) where
  length_pos := hpos
  skipped := rfl
  filler := by
    rw [List.take_left' hlength, List.drop_left' hlength]
    exact h

theorem fills_blanks {first : Char} (hfirst : first = ' ' ∨ first = '\t') (text : List Char) :
    Lexeme.Fills ⟨1 + (text.takeWhile fun c ↦ c == ' ' || c == '\t').length, .skipped⟩
      (first :: text) := by
  let isBlank := fun c : Char ↦ c == ' ' || c == '\t'
  have hblanks : Filler (first :: text.takeWhile isBlank) (text.dropWhile isBlank) := by
    refine .blanks fun c hc ↦ ?_
    rcases List.mem_cons.1 hc with rfl | hc
    · exact hfirst
    · simpa [isBlank] using List.mem_takeWhile_imp hc
  have hfills := fills_append (Nat.add_comm _ 1) (Nat.add_pos_left Nat.one_pos _) hblanks
  rwa [List.cons_append, List.takeWhile_append_dropWhile] at hfills

theorem fills_lineComment (text : List Char) :
    Lexeme.Fills ⟨1 + (text.takeWhile (· != '\n')).length, .skipped⟩ ('#' :: text) := by
  have hcomment : Trivia ('#' :: text.takeWhile (· != '\n')) (text.dropWhile (· != '\n')) := by
    refine .lineComment (fun hmem ↦ absurd (List.mem_takeWhile_imp hmem) (by decide)) ?_
    cases hrest : text.dropWhile (· != '\n') with
    | nil => exact .inl rfl
    | cons c later =>
      have hc := List.head_dropWhile_not (· != '\n') (hrest ▸ List.cons_ne_nil c later)
      simp only [hrest, List.head_cons, bne_eq_false_iff_eq] at hc
      exact .inr ⟨later, hc ▸ rfl⟩
  have hfills := fills_append (Nat.add_comm _ 1) (Nat.add_pos_left Nat.one_pos _)
    (.single hcomment)
  rwa [List.cons_append, List.takeWhile_append_dropWhile] at hfills

/-- An equals sign starts a block comment or a mark. -/
theorem shows_or_fills_equalsLexeme (text : List Char) :
    (equalsLexeme text).Shows ∨ (equalsLexeme text).Fills ('=' :: text) := by
  unfold equalsLexeme
  split
  · rename_i comment
    refine .inr ⟨Nat.add_pos_left (Nat.succ_pos _) _, rfl, ?_⟩
    dsimp only
    rw [Nat.add_comm]
    exact .single (.blockComment (commentText_take comment))
  · exact .inl (shows_punctLexeme _)

/-- A backslash in front of a line end is a filler, and an error anywhere else. -/
theorem shows_or_fills_backslashLexeme (text : List Char) :
    (backslashLexeme text).Shows ∨ (backslashLexeme text).Fills ('\\' :: text) := by
  unfold backslashLexeme
  split
  · exact .inr ⟨Nat.two_pos, rfl, .single .continuation⟩
  · exact .inr ⟨Nat.succ_pos _, rfl, .single .returnContinuation⟩
  · exact .inl shows_stray

/-- A lexeme is a token, an error or a filler. -/
theorem shows_or_fills_lexemeAt (first : Char) (text : List Char) :
    (lexemeAt first text).Shows ∨ (lexemeAt first text).Fills (first :: text) := by
  unfold lexemeAt
  split
  · exact .inr (fills_blanks (.inl rfl) text)
  · exact .inr (fills_blanks (.inr rfl) text)
  · exact .inl (shows_token Nat.one_pos)
  · exact .inl (shows_returnLexeme text)
  · exact shows_or_fills_backslashLexeme text
  · exact .inr (fills_lineComment text)
  · exact .inl (shows_delimitedLexeme Nat.one_pos)
  · exact .inl (shows_delimitedLexeme Nat.one_pos)
  · exact .inl (shows_colonLexeme text)
  · exact .inl (shows_atLexeme text)
  · exact .inl (shows_dollarLexeme text)
  · exact .inl (shows_percentLexeme text)
  · exact shows_or_fills_equalsLexeme text
  · split
    · exact .inl (shows_numberLexeme _ text)
    · split
      · rename_i hname
        exact .inl (shows_wordLexeme hname)
      · exact .inl (shows_punctLexeme _)

end Lexemes

/-! ## The whole text -/

/-- A text whose first character stands at byte `offset`, cut into items with fillers between them.
No item starts where something could be skipped. The end of the source comes last. -/
inductive Cut : Nat → List Char → List (Except LexError Token) → Prop where
  | ended {offset : Nat} {gap : List Char} (hgap : Filler gap []) :
      Cut offset gap [.ok ⟨.eof, ⟨offset + Text.byteLength gap, offset + Text.byteLength gap⟩⟩]
  | item {offset : Nat} {gap piece rest : List Char} {item : Except LexError Token}
      {items : List (Except LexError Token)} (hgap : Filler gap (piece ++ rest))
      (hnext : ∀ skipped later, piece ++ rest = skipped ++ later → ¬Trivia skipped later)
      (hpiece : piece ≠ []) (hinner : isEnd item = false)
      (hspan : itemSpan item =
        ⟨offset + Text.byteLength gap, offset + Text.byteLength (gap ++ piece)⟩)
      (hitems : Cut (offset + Text.byteLength (gap ++ piece)) rest items) :
      Cut offset (gap ++ piece ++ rest) (item :: items)

/-- A filler in front of a text becomes part of its first gap. -/
theorem Cut.fill {offset : Nat} {piece rest : List Char} {items : List (Except LexError Token)}
    (hpiece : Filler piece rest) (h : Cut (offset + Text.byteLength piece) rest items) :
    Cut offset (piece ++ rest) items := by
  cases h with
  | ended hgap =>
    rw [← List.append_nil rest] at hpiece
    rw [Nat.add_assoc, ← Text.byteLength_append]
    exact .ended (hpiece.append hgap)
  | @item _ gap shown rest item items hgap hnext hshown hinner hspan hitems =>
    rw [Nat.add_assoc, ← Text.byteLength_append] at hspan hitems
    rw [Nat.add_assoc, ← Text.byteLength_append, ← List.append_assoc] at hspan
    rw [← List.append_assoc] at hitems
    rw [← List.append_assoc, ← List.append_assoc]
    rw [List.append_assoc] at hpiece
    exact .item (hpiece.append hgap) hnext hshown hinner hspan hitems

/-- What may stand between tokens is skipped. -/
theorem skipped_of_trivia {piece rest : List Char} (h : Trivia piece rest) :
    ∃ first text, piece ++ rest = first :: text ∧ (lexemeAt first text).reading = .skipped := by
  cases h with
  | blank hblank =>
    rcases hblank with rfl | rfl
    · exact ⟨_, _, rfl, rfl⟩
    · exact ⟨_, _, rfl, rfl⟩
  | _ => exact ⟨_, _, rfl, rfl⟩

/-- No lexeme is the end of the source. -/
theorem isEnd_lexemeAt {first : Char} {text : List Char} {kind : TokenKind} {span : Span}
    (h : (lexemeAt first text).reading = .token kind) : isEnd (.ok ⟨kind, span⟩) = false := by
  have hinner := isInner_lexemeAt first text
  unfold Lexeme.isInner at hinner
  rw [h] at hinner
  exact (Bool.not_eq_true' _).mp hinner

section

variable {offset : Nat} {first : Char} {text : List Char} {items : List (Except LexError Token)}

/-- The item at the head of a text, with no gap in front of it. -/
theorem Cut.shown {item : Except LexError Token} {piece rest : List Char}
    (hsplit : first :: text = piece ++ rest) (hpiece : piece ≠ [])
    (hlexeme : (lexemeAt first text).Shows) (hinner : isEnd item = false)
    (hspan : itemSpan item = ⟨offset, offset + Text.byteLength piece⟩)
    (hrest : Cut (offset + Text.byteLength piece) rest items) :
    Cut offset (first :: text) (item :: items) := by
  have hnext : ∀ skipped later, piece ++ rest = skipped ++ later → ¬Trivia skipped later := by
    intro skipped later heq htrivia
    obtain ⟨first', text', htext, hskipped⟩ := skipped_of_trivia htrivia
    rw [← heq, ← hsplit] at htext
    cases htext
    exact hlexeme.not_skipped hskipped
  rw [hsplit, ← List.nil_append piece]
  exact .item .nil hnext hpiece hinner hspan hrest

/-- Scanning cuts a text as long as the bound is not reached. -/
theorem cut_scanFrom {bound : Nat} (h : text.length ≤ bound) :
    Cut offset text (scanFrom bound offset text) := by
  induction bound generalizing offset text with
  | zero =>
    rw [List.length_eq_zero_iff.1 (Nat.le_zero.1 h)]
    exact .ended .nil
  | succ bound ih =>
    cases text with
    | nil => exact .ended .nil
    | cons first text =>
      have hpos : 0 < (lexemeAt first text).length :=
        (shows_or_fills_lexemeAt first text).elim (·.length_pos) (·.length_pos)
      have hpiece : (first :: text).take (lexemeAt first text).length ≠ [] := by
        simpa using Nat.pos_iff_ne_zero.1 hpos
      have hsplit := (List.take_append_drop (lexemeAt first text).length (first :: text)).symm
      have hshorter : ((first :: text).drop (lexemeAt first text).length).length ≤ bound := by
        rw [List.length_drop]
        omega
      have hrest := @ih
        (offset + Text.byteLength ((first :: text).take (lexemeAt first text).length)) _ hshorter
      unfold scanFrom
      dsimp only
      rcases shows_or_fills_lexemeAt first text with hshows | hfills
      · cases hreading : (lexemeAt first text).reading with
        | skipped => exact absurd hreading hshows.not_skipped
        | token kind => exact .shown hsplit hpiece hshows (isEnd_lexemeAt hreading) rfl hrest
        | error kind => exact .shown hsplit hpiece hshows rfl rfl hrest
      · have hfilled := hrest.fill hfills.filler
        rw [← hsplit] at hfilled
        rw [hfills.skipped]
        exact hfilled

end

/-- A source is cut into what is shown and fillers, with nothing left over. -/
theorem cut_scan (source : String) : Cut 0 source.toList (scan source) :=
  cut_scanFrom (Nat.le_refl _)

theorem byteLength_pos {text : List Char} (h : text ≠ []) : 0 < Text.byteLength text := by
  cases text with
  | nil => exact absurd rfl h
  | cons c text => exact Nat.add_pos_left c.utf8Size_pos _

section Places

variable {offset : Nat} {text : List Char} {items : List (Except LexError Token)}

/-- The end of the source comes last, and the other items have a width. -/
theorem Cut.eq_append (h : Cut offset text items) :
    ∃ inner, items = inner ++ [.ok ⟨.eof, ⟨offset + Text.byteLength text,
        offset + Text.byteLength text⟩⟩] ∧
      ∀ item ∈ inner, isEnd item = false ∧ (itemSpan item).start < (itemSpan item).stop := by
  induction h with
  | ended hgap => exact ⟨[], rfl, List.forall_mem_nil _⟩
  | @item offset gap piece rest item items hgap hnext hpiece hinner hspan hitems ih =>
    obtain ⟨inner, hitems, hwide⟩ := ih
    refine ⟨item :: inner, ?_, List.forall_mem_cons.2 ⟨⟨hinner, ?_⟩, hwide⟩⟩
    · rw [hitems, Text.byteLength_append (gap ++ piece) rest, ← Nat.add_assoc]
      rfl
    · have hpos := byteLength_pos hpiece
      rw [hspan, Text.byteLength_append]
      dsimp only
      omega

/-- Items stand behind the place where the text starts. -/
theorem Cut.start_le (h : Cut offset text items) :
    ∀ item ∈ items, offset ≤ (itemSpan item).start := by
  induction h with
  | ended hgap =>
    intro item hitem
    rw [List.mem_singleton.1 hitem]
    exact Nat.le_add_right _ _
  | @item offset gap piece rest item items hgap hnext hpiece hinner hspan hitems ih =>
    refine List.forall_mem_cons.2 ⟨?_, fun later hlater ↦ ?_⟩
    · rw [hspan]
      exact Nat.le_add_right _ _
    · exact Nat.le_trans (Nat.le_add_right _ _) (ih later hlater)

/-- Each item starts behind the one before it. -/
theorem Cut.pairwise (h : Cut offset text items) :
    items.Pairwise fun first second ↦ (itemSpan first).start < (itemSpan second).start ∧
      (itemSpan first).stop ≤ (itemSpan second).start := by
  induction h with
  | ended hgap => exact List.pairwise_singleton _ _
  | @item offset gap piece rest item items hgap hnext hpiece hinner hspan hitems ih =>
    refine List.pairwise_cons.2 ⟨fun later hlater ↦ ?_, ih⟩
    have hle := hitems.start_le later hlater
    have hpos := byteLength_pos hpiece
    rw [hspan]
    rw [Text.byteLength_append] at hle ⊢
    dsimp only
    omega

/-- Where the last of some items ends, or the text starts if there is none. -/
def stopOf (offset : Nat) : List (Except LexError Token) → Nat
  | [] => offset
  | item :: items => stopOf (itemSpan item).stop items

/-- What stands between the end of one item and the start of the next one is a filler. -/
theorem Cut.gap (h : Cut offset text items) {before after : List (Except LexError Token)}
    {item : Except LexError Token} (hitems : items = before ++ item :: after) :
    ∃ front gap piece rest, text = front ++ gap ++ piece ++ rest ∧
      stopOf offset before = offset + Text.byteLength front ∧
      itemSpan item = ⟨offset + Text.byteLength (front ++ gap),
        offset + Text.byteLength (front ++ gap ++ piece)⟩ ∧
      Filler gap (piece ++ rest) ∧
      ∀ skipped later, piece ++ rest = skipped ++ later → ¬Trivia skipped later := by
  induction h generalizing before with
  | @ended offset gap hgap =>
    obtain rfl : before = [] := by
      cases before with
      | nil => rfl
      | cons first before => simp at hitems
    cases hitems
    refine ⟨[], gap, [], [], by simp, rfl, by simp [itemSpan], hgap,
      fun skipped later heq htrivia ↦ ?_⟩
    obtain ⟨first, text, htext, -⟩ := skipped_of_trivia htrivia
    rw [← heq] at htext
    cases htext
  | @item offset gap piece rest first items hgap hnext hpiece hinner hspan hcut ih =>
    cases before with
    | nil =>
      cases hitems
      exact ⟨[], gap, piece, rest, rfl, rfl, hspan, hgap, hnext⟩
    | cons first before =>
      cases hitems
      obtain ⟨front, gap', piece', rest', rfl, hstop, hspan', hrest⟩ := ih rfl
      refine ⟨gap ++ piece ++ front, gap', piece', rest', by simp, ?_, ?_, hrest⟩
      · rw [stopOf, hspan, hstop, Text.byteLength_append _ front, Nat.add_assoc]
      · rw [hspan']
        simp [Nat.add_assoc]

end Places

/-- An offset at one end of a source or between two of its characters. -/
def IsBoundary (source : String) (offset : Nat) : Prop :=
  ∃ front back, source.toList = front ++ back ∧ Text.byteLength front = offset

/-- Items start and stop between characters. -/
theorem isBoundary_itemSpan {source : String} {item : Except LexError Token}
    (h : item ∈ scan source) :
    IsBoundary source (itemSpan item).start ∧ IsBoundary source (itemSpan item).stop := by
  obtain ⟨before, after, hitems⟩ := List.append_of_mem h
  obtain ⟨front, gap, piece, rest, htext, -, hspan, -, -⟩ := (cut_scan source).gap hitems
  rw [Nat.zero_add, Nat.zero_add] at hspan
  rw [hspan]
  exact ⟨⟨front ++ gap, piece ++ rest, by rw [htext, List.append_assoc], rfl⟩,
    ⟨front ++ gap ++ piece, rest, htext, rfl⟩⟩

/-- The tokens and errors of a source stand in order on its characters, all of them with a width but
the end of the source, which comes last. What stands between them can be skipped, and nothing can be
skipped where one of them starts. -/
theorem scan_partitions_source (source : String) :
    ((scan source).Pairwise fun first second ↦
      (itemSpan first).start < (itemSpan second).start ∧
        (itemSpan first).stop ≤ (itemSpan second).start) ∧
    (∀ item ∈ scan source,
      IsBoundary source (itemSpan item).start ∧ IsBoundary source (itemSpan item).stop) ∧
    (∃ inner, scan source = inner ++ [.ok ⟨.eof, ⟨Text.byteLength source.toList,
        Text.byteLength source.toList⟩⟩] ∧
      ∀ item ∈ inner, isEnd item = false ∧ (itemSpan item).start < (itemSpan item).stop) ∧
    ∀ before item after, scan source = before ++ item :: after →
      ∃ front gap back, source.toList = front ++ gap ++ back ∧
        Text.byteLength front = stopOf 0 before ∧
        Text.byteLength (front ++ gap) = (itemSpan item).start ∧ Filler gap back ∧
        ∀ skipped later, back = skipped ++ later → ¬Trivia skipped later := by
  have hcut := cut_scan source
  refine ⟨hcut.pairwise, fun _ ↦ isBoundary_itemSpan, ?_, fun before item after hitems ↦ ?_⟩
  · have hends := hcut.eq_append
    rwa [Nat.zero_add] at hends
  · obtain ⟨front, gap, piece, rest, htext, hstop, hspan, hfiller, hnext⟩ := hcut.gap hitems
    rw [Nat.zero_add] at hstop
    rw [Nat.zero_add, Nat.zero_add] at hspan
    refine ⟨front, gap, piece ++ rest, ?_, hstop.symm, ?_, hfiller, hnext⟩
    · rw [htext, List.append_assoc]
    · rw [hspan]

end DeclaredMethods.Source
