import DeclaredMethods.Signature.Lexer
import DeclaredMethods.Text.Quoted
import Mathlib.Data.List.Basic
import Mathlib.Data.List.TakeWhile

/-!
# A signature piece by piece

Where a lexeme stands in a text does not matter for what it is, so the kinds of the tokens of a
text are a function of the characters alone. This function is determined by one equation,
`pieces_cons`; the rest of the module reads off it how words, numbers, quoted texts, symbols,
marks and blanks are cut off the front of a text.
-/

namespace DeclaredMethods.Signature

open Text (isNameStart isNameChar digitValue digitsValue quotedLength escapeChar isHidden
  hiddenAt visibilityRuns)

/-- The kind of a token; an invalid piece has none. -/
def pieceKind? : Except Span Token → Option TokenKind
  | .ok token => some token.kind
  | .error _ => none

/-- The kinds of the tokens of a text in order, with `none` for an invalid piece. -/
def pieces (text : List Char) : List (Option TokenKind) :=
  (scanFrom text.length 0 text).map pieceKind?

/-- What a lexeme adds to the pieces of a text. -/
def Reading.pieces : Reading → List (Option TokenKind)
  | .skipped => []
  | .token kind => [some kind]
  | .invalid => [none]

theorem Mark.length_spelling_pos (mark : Mark) : 0 < mark.spelling.length := by
  cases mark <;> decide

theorem length_markLexeme_pos (text : List Char) : 0 < (markLexeme text).length := by
  unfold markLexeme
  split
  · exact Mark.length_spelling_pos _
  · exact Nat.one_pos

theorem length_integerLexeme (length : Nat) (value : Int) :
    (integerLexeme length value).length = length := by
  unfold integerLexeme
  split <;> rfl

theorem length_quotedLexeme_pos (opening : Nat) (quote : Char) (text : List Char)
    (make : String → TokenKind) (hopening : 0 < opening) :
    0 < (quotedLexeme opening quote text make).length := by
  unfold quotedLexeme
  dsimp only
  split <;> exact Nat.lt_of_lt_of_le hopening (by dsimp only; omega)

/-- Every lexeme takes a character, so scanning ends. -/
theorem length_lexemeAt_pos (first : Char) (text : List Char) :
    0 < (lexemeAt first text).length := by
  unfold lexemeAt
  split
  · exact Nat.lt_of_lt_of_le Nat.one_pos (Nat.le_add_right _ _)
  · exact length_quotedLexeme_pos _ _ _ _ Nat.one_pos
  · exact length_quotedLexeme_pos _ _ _ _ Nat.one_pos
  · unfold backtickLexeme
    dsimp only
    split <;> exact Nat.succ_pos _
  · unfold colonLexeme
    split
    · exact length_quotedLexeme_pos _ _ _ _ Nat.two_pos
    · split
      · exact Nat.succ_pos _
      · exact length_markLexeme_pos _
    · exact length_markLexeme_pos _
  · unfold atLexeme
    split <;> split <;> exact Nat.succ_pos _
  · unfold dollarLexeme
    split <;> exact Nat.succ_pos _
  · unfold percentLexeme annotationLexeme
    dsimp only
    split <;> first | exact length_markLexeme_pos _ | (split <;> exact Nat.succ_pos _)
  · unfold minusLexeme
    split
    · split
      · rw [length_integerLexeme]
        exact Nat.succ_pos _
      · exact length_markLexeme_pos _
    · exact length_markLexeme_pos _
  · split
    · exact Nat.lt_of_lt_of_le Nat.one_pos (Nat.le_add_right _ _)
    · split
      · unfold numberLexeme
        rw [length_integerLexeme]
        exact Nat.succ_pos _
      · split
        · exact Nat.succ_pos _
        · exact length_markLexeme_pos _

theorem map_pieceKind?_scanFrom_succ (bound offset : Nat) (first : Char) (text : List Char) :
    (scanFrom (bound + 1) offset (first :: text)).map pieceKind? =
      (lexemeAt first text).reading.pieces ++
        (scanFrom bound
          (offset + Text.byteLength ((first :: text).take (lexemeAt first text).length))
          ((first :: text).drop (lexemeAt first text).length)).map pieceKind? := by
  rw [scanFrom]
  cases (lexemeAt first text).reading <;> rfl

theorem length_drop_lexemeAt_le (first : Char) (text : List Char) :
    ((first :: text).drop (lexemeAt first text).length).length ≤ text.length := by
  have hpos := length_lexemeAt_pos first text
  rw [List.length_drop, List.length_cons]
  omega

/-- Neither the place of a text nor a bound that is large enough shows in its pieces. -/
theorem map_pieceKind?_scanFrom_congr (bound bound' offset offset' : Nat) (text : List Char)
    (hbound : text.length ≤ bound) (hbound' : text.length ≤ bound') :
    (scanFrom bound offset text).map pieceKind? =
      (scanFrom bound' offset' text).map pieceKind? := by
  induction bound generalizing bound' offset offset' text with
  | zero =>
    obtain rfl := List.eq_nil_of_length_eq_zero (Nat.le_zero.1 hbound)
    simp only [scanFrom]
  | succ bound ih =>
    cases text with
    | nil => simp only [scanFrom]
    | cons first text =>
      cases bound' with
      | zero => exact absurd hbound' (Nat.not_succ_le_zero _)
      | succ bound' =>
        have hdrop := length_drop_lexemeAt_le first text
        rw [List.length_cons] at hbound hbound'
        rw [map_pieceKind?_scanFrom_succ, map_pieceKind?_scanFrom_succ]
        rw [ih bound' _ _ _ (by omega) (by omega)]

theorem pieces_nil : pieces [] = [] := rfl

/-- The pieces of a text are those of its first lexeme and those of the text behind it. -/
theorem pieces_cons (first : Char) (text : List Char) :
    pieces (first :: text) =
      (lexemeAt first text).reading.pieces ++
        pieces ((first :: text).drop (lexemeAt first text).length) := by
  unfold pieces
  rw [List.length_cons, map_pieceKind?_scanFrom_succ]
  rw [map_pieceKind?_scanFrom_congr _ _ _ 0 _ (length_drop_lexemeAt_le first text) (le_refl _)]

/-- A lexeme that is the text `taken` in front of `rest` and is a token of the given kind. -/
theorem pieces_of_lexemeAt_eq (first : Char) (taken rest : List Char) (kind : TokenKind)
    (hlexeme : lexemeAt first (taken ++ rest) = ⟨taken.length + 1, .token kind⟩) :
    pieces (first :: (taken ++ rest)) = some kind :: pieces rest := by
  rw [pieces_cons, hlexeme]
  dsimp only
  rw [List.drop_succ_cons, List.drop_left]
  rfl

theorem lexemeAt_of_isGap (first : Char) (text : List Char) (hgap : isGap first = true) :
    lexemeAt first text = ⟨1 + (text.takeWhile isGap).length, .skipped⟩ := by
  unfold lexemeAt
  split <;> first | exact absurd hgap (by decide) | rw [if_pos hgap]

theorem pieces_cons_of_isGap (first : Char) (text : List Char) (hgap : isGap first = true) :
    pieces (first :: text) = pieces (text.drop (text.takeWhile isGap).length) := by
  rw [pieces_cons, lexemeAt_of_isGap first text hgap]
  dsimp only
  rw [Nat.add_comm, List.drop_succ_cons]
  rfl

theorem pieces_blank (text : List Char) : pieces (' ' :: text) = pieces text := by
  rw [pieces_cons_of_isGap ' ' text (by decide)]
  cases text with
  | nil => rfl
  | cons c text =>
    by_cases hgap : isGap c = true
    · rw [List.takeWhile_cons_of_pos hgap, pieces_cons_of_isGap c text hgap]
      rfl
    · rw [List.takeWhile_cons_of_neg hgap]
      rfl

/-- A mark that is one character and no beginning of a longer lexeme. -/
def Mark.standsAlone (mark : Mark) : Bool :=
  mark ∈ [comma, leftParen, rightParen, leftBracket, rightBracket, leftBrace, rightBrace, pipe,
    ampersand, caret, question]

/-- Some marks are read alike whatever follows them. -/
theorem pieces_standsAlone (mark : Mark) (text : List Char) (halone : mark.standsAlone = true) :
    pieces (mark.spelling ++ text) = some (.mark mark) :: pieces text := by
  cases mark <;> first
    | exact absurd halone (by decide)
    | exact pieces_of_lexemeAt_eq _ [] text _ rfl

theorem pieces_arrow (text : List Char) :
    pieces ('-' :: '>' :: text) = some (.mark .arrow) :: pieces text :=
  pieces_of_lexemeAt_eq '-' ['>'] text _ rfl

theorem pieces_doubleColon (text : List Char) :
    pieces (':' :: ':' :: text) = some (.mark .doubleColon) :: pieces text :=
  pieces_of_lexemeAt_eq ':' [':'] text _ rfl

/-- A colon in front of a blank starts no symbol. -/
theorem pieces_colon_blank (text : List Char) :
    pieces (':' :: ' ' :: text) = some (.mark .colon) :: pieces text := by
  rw [← pieces_blank text]
  exact pieces_of_lexemeAt_eq ':' [] (' ' :: text) _ rfl

theorem pieces_doubleStar (text : List Char) :
    pieces ('*' :: '*' :: text) = some (.mark .doubleStar) :: pieces text :=
  pieces_of_lexemeAt_eq '*' ['*'] text _ rfl

theorem lexemeAt_star_cons (c : Char) (text : List Char) (hc : c ≠ '*') :
    lexemeAt '*' (c :: text) = ⟨1, .token (.mark .star)⟩ := by
  have hbeq : ('*' == c) = false := beq_eq_false_iff_ne.2 hc.symm
  have hmark : markLexeme ('*' :: c :: text) = ⟨1, .token (.mark .star)⟩ := by
    simp [markLexeme, Mark.byLength, Mark.spelling, List.isPrefixOf, hbeq]
  exact hmark

theorem pieces_star_cons (c : Char) (text : List Char) (hc : c ≠ '*') :
    pieces ('*' :: c :: text) = some (.mark .star) :: pieces (c :: text) :=
  pieces_of_lexemeAt_eq '*' [] (c :: text) _ (lexemeAt_star_cons c text hc)

/-- A star is a mark of its own in front of a text whose first token is neither kind of star. -/
theorem pieces_star (text : List Char) (kind : TokenKind) (rest : List (Option TokenKind))
    (hpieces : pieces text = some kind :: rest)
    (hstar : kind ≠ .mark .star) (hdoubleStar : kind ≠ .mark .doubleStar) :
    pieces ('*' :: text) = some (.mark .star) :: pieces text := by
  cases text with
  | nil => exact pieces_of_lexemeAt_eq '*' [] [] _ rfl
  | cons c text =>
    apply pieces_star_cons
    rintro rfl
    cases text with
    | nil => exact hstar (Option.some.inj (List.cons.inj hpieces).1).symm
    | cons c text =>
      by_cases hc : c = '*'
      · subst hc
        rw [pieces_doubleStar] at hpieces
        exact hdoubleStar (Option.some.inj (List.cons.inj hpieces).1).symm
      · rw [pieces_star_cons c text hc] at hpieces
        exact hstar (Option.some.inj (List.cons.inj hpieces).1).symm

/-! ## Words -/

/-- Whether a text starts with no character of a class. -/
def avoids (p : Char → Bool) (text : List Char) : Bool :=
  !text.head?.any p

theorem takeWhile_append_of_avoids (p : Char → Bool) (taken rest : List Char)
    (htaken : taken.all p = true) (hrest : avoids p rest = true) :
    (taken ++ rest).takeWhile p = taken := by
  rw [List.takeWhile_append_of_pos (List.all_eq_true.1 htaken)]
  cases rest with
  | nil => exact List.append_nil taken
  | cons c rest =>
    have hc : ¬ p c = true := by simpa [avoids] using hrest
    rw [List.takeWhile_cons_of_neg hc, List.append_nil]

/-- A letter or underscore, then letters, digits and underscores. -/
def isWord : List Char → Bool
  | [] => false
  | c :: text => isNameStart c && text.all isNameChar

theorem exists_cons_of_isWord {word : List Char} (hword : isWord word = true) :
    ∃ first text, word = first :: text ∧ isNameStart first = true ∧
      text.all isNameChar = true := by
  cases word with
  | nil => cases hword
  | cons first text =>
    rw [isWord, Bool.and_eq_true] at hword
    exact ⟨first, text, rfl, hword⟩

theorem isNameChar_of_isNameStart (c : Char) (hc : isNameStart c = true) :
    isNameChar c = true := by
  rw [isNameStart, Bool.or_eq_true] at hc
  rw [isNameChar, Char.isAlphanum, Bool.or_eq_true, Bool.or_eq_true]
  exact hc.imp_left .inl

theorem isNameChar_of_isDigit (c : Char) (hc : c.isDigit = true) : isNameChar c = true := by
  rw [isNameChar, Char.isAlphanum, Bool.or_eq_true, Bool.or_eq_true]
  exact .inl (.inr hc)

theorem isGap_eq_false_of_isNameChar (c : Char) (hc : isNameChar c = true) :
    isGap c = false := by
  rw [Bool.eq_false_iff]
  intro hgap
  simp only [isGap, Bool.or_eq_true, beq_iff_eq] at hgap
  rcases hgap with (((rfl | rfl) | rfl) | rfl) | rfl <;> exact absurd hc (by decide)

theorem lexemeAt_of_isNameStart (first : Char) (text : List Char)
    (hstart : isNameStart first = true) : lexemeAt first text = wordLexeme first text := by
  have hgap := isGap_eq_false_of_isNameChar first (isNameChar_of_isNameStart first hstart)
  have hdigit : first.isDigit = false := by
    rw [isNameStart, Bool.or_eq_true, beq_iff_eq] at hstart
    rcases hstart with halpha | rfl
    · unfold Char.isAlpha Char.isUpper Char.isLower at halpha
      unfold Char.isDigit
      grind
    · decide
  unfold lexemeAt
  split <;> first | exact absurd hstart (by decide) | simp [hgap, hdigit, hstart]

/-- A word ends where no character of a name follows. -/
theorem pieces_word (word rest : List Char) (hword : isWord word = true)
    (hrest : avoids isNameChar rest = true) :
    pieces (word ++ rest) = some (.ident (String.ofList word)) :: pieces rest := by
  obtain ⟨first, text, rfl, hfirst, htext⟩ := exists_cons_of_isWord hword
  apply pieces_of_lexemeAt_eq
  rw [lexemeAt_of_isNameStart first _ hfirst, wordLexeme,
    takeWhile_append_of_avoids isNameChar text rest htext hrest]
  rfl

theorem avoids_mono (p q : Char → Bool) (text : List Char) (hpq : ∀ c, q c = true → p c = true)
    (havoids : avoids p text = true) : avoids q text = true := by
  cases text with
  | nil => rfl
  | cons c text =>
    simp only [avoids, List.head?_cons, Option.any_some, Bool.not_eq_true', Bool.eq_false_iff] at *
    exact fun hc ↦ havoids (hpq c hc)

/-- The digits of a number are read back to it. -/
theorem digitsValue_toDigits (n : Nat) : digitsValue 10 (Nat.toDigits 10 n) = n := by
  have hdigits : ∀ c ∈ Nat.toDigits 10 n, c.isDigit = true := fun c hc ↦
    Nat.isDigit_of_mem_toDigits (by decide) (by decide) hc
  have hfilter : (Nat.toDigits 10 n).filter (· != '_') = Nat.toDigits 10 n := by
    rw [List.filter_eq_self]
    intro c hc
    exact bne_iff_ne.2 (fun hunderscore ↦ Nat.underscore_not_in_toDigits (hunderscore ▸ hc))
  calc
    digitsValue 10 (Nat.toDigits 10 n) =
        (Nat.toDigits 10 n).foldl (fun value c ↦ value * 10 + digitValue c) 0 := by
      rw [digitsValue, hfilter]
    _ = (Nat.toDigits 10 n).foldl (fun value c ↦ 10 * value + (c.toNat - '0'.toNat)) 0 := by
      apply List.foldl_ext
      intro value c hc
      rw [digitValue, if_pos (hdigits c hc), Nat.mul_comm]
    _ = n := by rw [← Nat.ofDigitChars_eq_foldl, Nat.ofDigitChars_ten_toDigits]

theorem digitRun_append (digits rest : List Char) (hdigits : ∀ c ∈ digits, c.isDigit = true)
    (hrest : avoids isNameChar rest = true) : digitRun (digits ++ rest) = digits := by
  apply takeWhile_append_of_avoids
  · apply List.all_eq_true.2
    intro c hc
    rw [hdigits c hc, Bool.true_or]
  · apply avoids_mono isNameChar _ rest _ hrest
    intro c hc
    rcases Bool.or_eq_true _ _ ▸ hc with hdigit | hunderscore
    · exact isNameChar_of_isDigit c hdigit
    · exact isNameChar_of_isNameStart c (Bool.or_eq_true _ _ ▸ .inr hunderscore)

theorem lexemeAt_of_isDigit (first : Char) (text : List Char) (hdigit : first.isDigit = true) :
    lexemeAt first text = numberLexeme first text := by
  have hgap := isGap_eq_false_of_isNameChar first (isNameChar_of_isDigit first hdigit)
  unfold lexemeAt
  split <;> first | exact absurd hdigit (by decide) | simp [hgap, hdigit]

theorem integerLexeme_of_limits (length : Nat) (value : Int)
    (hlower : integerLimits.1 ≤ value) (hupper : value ≤ integerLimits.2) :
    integerLexeme length value = ⟨length, .token (.int value)⟩ := by
  rw [integerLexeme, if_pos ⟨hlower, hupper⟩]

/-- An integer within the limits is read back from its decimal digits. -/
theorem pieces_int (value : Int) (rest : List Char)
    (hlower : integerLimits.1 ≤ value) (hupper : value ≤ integerLimits.2)
    (hrest : avoids isNameChar rest = true) :
    pieces ((toString value).toList ++ rest) = some (.int value) :: pieces rest := by
  rw [Int.toString_eq_repr, Int.repr_eq_if]
  have hdigits : ∀ n c, c ∈ Nat.toDigits 10 n → c.isDigit = true := fun n c hc ↦
    Nat.isDigit_of_mem_toDigits (by decide) (by decide) hc
  split
  · next hnonneg =>
    have hvalue := digitsValue_toDigits value.toNat
    have hdigits := hdigits value.toNat
    rw [Nat.repr_eq_ofList_toDigits, String.toList_ofList]
    cases hform : Nat.toDigits 10 value.toNat with
    | nil => exact absurd hform Nat.toDigits_ne_nil
    | cons first digits =>
      rw [hform] at hvalue hdigits
      apply pieces_of_lexemeAt_eq
      rw [lexemeAt_of_isDigit first _ (hdigits first List.mem_cons_self), numberLexeme,
        digitRun_append digits rest (fun c hc ↦ hdigits c (List.mem_cons_of_mem _ hc)) hrest,
        hvalue, Int.toNat_of_nonneg hnonneg, integerLexeme_of_limits _ _ hlower hupper]
      rfl
  · next hnegative =>
    have hvalue := digitsValue_toDigits (-value).toNat
    have hdigits := hdigits (-value).toNat
    rw [Nat.repr_eq_ofList_toDigits, String.toList_append, String.toList_ofList,
      String.toList_ofList]
    cases hform : Nat.toDigits 10 (-value).toNat with
    | nil => exact absurd hform Nat.toDigits_ne_nil
    | cons first digits =>
      rw [hform] at hvalue hdigits
      have hminus : lexemeAt '-' (first :: digits ++ rest) =
          minusLexeme (first :: digits ++ rest) :=
        rfl
      apply pieces_of_lexemeAt_eq '-' (first :: digits) rest
      rw [hminus, List.cons_append, minusLexeme, if_pos (hdigits first List.mem_cons_self),
        digitRun_append digits rest (fun c hc ↦ hdigits c (List.mem_cons_of_mem _ hc)) hrest]
      dsimp only
      rw [hvalue, Int.toNat_of_nonneg (by omega), Int.neg_neg,
        integerLexeme_of_limits _ _ hlower hupper]

/-! ## Quoted texts -/

/-- A character of printable ASCII. -/
def isPrintable (c : Char) : Bool :=
  0x20 ≤ c.toNat && c.toNat ≤ 0x7e

theorem isHidden_of_isPrintable (c : Char) (hprintable : isPrintable c = true) :
    isHidden c = false := by
  obtain ⟨runs, hruns⟩ : ∃ runs, visibilityRuns = (0, 32) :: (95, 34) :: runs := ⟨_, rfl⟩
  rw [isPrintable, Bool.and_eq_true, decide_eq_true_iff, decide_eq_true_iff] at hprintable
  have hcontrol : ¬c.toNat < 0 + 32 := by omega
  have hvisible : ¬95 ≤ c.toNat - (0 + 32) := by omega
  rw [isHidden, hruns, hiddenAt, hiddenAt, decide_eq_false hcontrol, decide_eq_false hvisible]
  exact Bool.and_false _

/-- Quotes and backslashes are the only characters of printable ASCII that are escaped. -/
theorem escapeChar_of_isPrintable (c : Char) (hprintable : isPrintable c = true) :
    escapeChar c = if c = '"' ∨ c = '\\' then ['\\', c] else [c] := by
  have hhidden := isHidden_of_isPrintable c hprintable
  rw [isPrintable, Bool.and_eq_true, decide_eq_true_iff, decide_eq_true_iff] at hprintable
  have hnewline : c ≠ '\n' := by rintro rfl; exact absurd hprintable.1 (by decide)
  have hreturn : c ≠ '\r' := by rintro rfl; exact absurd hprintable.1 (by decide)
  have htab : c ≠ '\t' := by rintro rfl; exact absurd hprintable.1 (by decide)
  have hzero : c.toNat ≠ 0 := by omega
  unfold escapeChar
  by_cases hquote : c = '"'
  · rw [if_pos hquote, if_pos (.inl hquote), hquote]
  · by_cases hbackslash : c = '\\'
    · rw [if_neg hquote, if_pos hbackslash, if_pos (.inr hbackslash), hbackslash]
    · rw [if_neg hquote, if_neg hbackslash, if_neg hnewline, if_neg hreturn, if_neg htab,
        if_neg hzero, if_neg (by rw [hhidden]; decide), if_neg (not_or.2 ⟨hquote, hbackslash⟩)]

/-- A string ends at the first quote that is not escaped, and printing escapes all others. -/
theorem quotedLength_escaped (text rest : List Char) (hprintable : text.all isPrintable = true) :
    quotedLength '"' (text.flatMap escapeChar ++ '"' :: rest) =
      ((text.flatMap escapeChar).length, true) := by
  induction text with
  | nil => rfl
  | cons c text ih =>
    rw [List.all_cons, Bool.and_eq_true] at hprintable
    rw [List.flatMap_cons, escapeChar_of_isPrintable c hprintable.1]
    split
    · next hescaped =>
      have hnewline : c ≠ '\n' := by rcases hescaped with rfl | rfl <;> decide
      simp only [List.cons_append, List.nil_append, quotedLength, if_neg hnewline,
        ih hprintable.2, List.length_cons]
    · next hplain =>
      rw [not_or] at hplain
      simp only [List.cons_append, List.nil_append, List.length_cons]
      rw [quotedLength, if_neg hplain.1, ih hprintable.2]
      · exact fun hbackslash _ ↦ hplain.2 hbackslash
      · exact fun _ _ hbackslash _ ↦ hplain.2 hbackslash

/-- Reading undoes the escapes that printing makes. -/
theorem unquote_escaped (text : List Char) (hprintable : text.all isPrintable = true) :
    unquote (text.flatMap escapeChar) = text := by
  induction text with
  | nil => rfl
  | cons c text ih =>
    rw [List.all_cons, Bool.and_eq_true] at hprintable
    rw [List.flatMap_cons, escapeChar_of_isPrintable c hprintable.1]
    split
    · rw [List.cons_append, List.cons_append, unquote, List.nil_append, ih hprintable.2]
    · next hplain =>
      rw [List.cons_append, List.nil_append, unquote, ih hprintable.2]
      intro _ _ hbackslash
      exact fun _ ↦ hplain (.inr hbackslash)

/-- A text of printable ASCII is read back from between its quotes. -/
theorem pieces_quote (value : String) (rest : List Char)
    (hprintable : value.toList.all isPrintable = true) :
    pieces ((Text.quote value).toList ++ rest) = some (.str value) :: pieces rest := by
  rw [Text.quote, String.toList_ofList, List.cons_append]
  apply pieces_of_lexemeAt_eq
  have hquoted : ∀ text, lexemeAt '"' text = quotedLexeme 1 '"' text .str := fun _ ↦ rfl
  rw [hquoted, List.append_assoc, List.singleton_append, quotedLexeme,
    quotedLength_escaped value.toList rest hprintable]
  dsimp only
  rw [if_pos rfl, List.take_left, unquote_escaped value.toList hprintable, String.ofList_toList,
    List.length_append, List.length_singleton, Nat.add_comm 1]

def endsSymbol (c : Char) : Bool :=
  c == '?' || c == '!' || c == '='

/-- A word and at most one mark behind it. -/
def isSymbolName (name : List Char) : Bool :=
  let suffix := name.dropWhile isNameChar
  isWord (name.takeWhile isNameChar) && suffix.length ≤ 1 && suffix.all endsSymbol

theorem avoids_append_of_all (p q : Char → Bool) (taken rest : List Char)
    (hpq : ∀ c, q c = true → p c = false) (htaken : taken.all q = true)
    (hrest : avoids p rest = true) : avoids p (taken ++ rest) = true := by
  cases taken with
  | nil => exact hrest
  | cons c taken =>
    rw [List.all_cons, Bool.and_eq_true] at htaken
    rw [avoids, List.cons_append, List.head?_cons, Option.any_some, hpq c htaken.1]
    rfl

theorem symbolLength_append (name rest : List Char) (hname : isSymbolName name = true)
    (hrest : avoids (fun c ↦ isNameChar c || endsSymbol c) rest = true) :
    symbolLength (name ++ rest) = name.length := by
  have hends : ∀ c, endsSymbol c = true → isNameChar c = false := by
    intro c hc
    simp only [endsSymbol, Bool.or_eq_true, beq_iff_eq] at hc
    rcases hc with (rfl | rfl) | rfl <;> decide
  rw [isSymbolName, Bool.and_eq_true, Bool.and_eq_true, decide_eq_true_iff] at hname
  generalize hword : name.takeWhile isNameChar = word at hname
  generalize hsuffix : name.dropWhile isNameChar = suffix at hname
  have hsplit : name = word ++ suffix := by
    rw [← hword, ← hsuffix, List.takeWhile_append_dropWhile]
  have hnames : word.all isNameChar = true := hword ▸ List.all_takeWhile
  have hstop : avoids isNameChar (suffix ++ rest) = true := by
    apply avoids_append_of_all isNameChar endsSymbol suffix rest hends hname.2
    exact avoids_mono _ _ rest (fun c hc ↦ Bool.or_eq_true _ _ ▸ .inl hc) hrest
  rw [symbolLength, hsplit, List.append_assoc,
    takeWhile_append_of_avoids isNameChar word (suffix ++ rest) hnames hstop, List.drop_left]
  match suffix, hname.1.2 with
  | [], _ =>
    rw [List.append_nil, List.nil_append]
    split <;> first | rfl | exact Bool.noConfusion hrest
  | [c], _ =>
    have hc : endsSymbol c = true := by simpa using hname.2
    simp only [endsSymbol, Bool.or_eq_true, beq_iff_eq] at hc
    rcases hc with (rfl | rfl) | rfl <;> simp

/-- A symbol is read up to a character that could not go on its name. -/
theorem pieces_symbol (name : String) (rest : List Char)
    (hname : isSymbolName name.toList = true)
    (hrest : avoids (fun c ↦ isNameChar c || endsSymbol c) rest = true) :
    pieces (':' :: (name.toList ++ rest)) = some (.symbol name) :: pieces rest := by
  have hlength := symbolLength_append name.toList rest hname hrest
  apply pieces_of_lexemeAt_eq
  cases hform : name.toList with
  | nil => rw [hform] at hname; exact absurd hname (by decide)
  | cons first text =>
    have hstart : isNameStart first = true := by
      rw [hform, isSymbolName, List.takeWhile_cons] at hname
      split at hname
      · simp only [isWord, Bool.and_eq_true] at hname
        exact hname.1.1.1
      · exact absurd hname (by simp [isWord])
    have hquote : first ≠ '"' := by rintro rfl; exact absurd hstart (by decide)
    have hcolon : lexemeAt ':' (first :: (text ++ rest)) = colonLexeme (first :: (text ++ rest)) :=
      rfl
    rw [hform, List.cons_append] at hlength
    rw [List.cons_append, hcolon, colonLexeme]
    · rw [if_pos hstart, hlength, ← List.cons_append]
      dsimp only
      rw [List.take_left, ← hform, String.ofList_toList]
    · exact hquote

/-- A text that is all tokens is scanned without an error. -/
theorem valid_of_map_pieceKind? (scanned : List (Except Span Token)) (kinds : List TokenKind)
    (h : scanned.map pieceKind? = kinds.map some) :
    firstInvalid? scanned = none ∧ (validTokens scanned).map Token.kind = kinds := by
  induction scanned generalizing kinds with
  | nil =>
    obtain rfl := List.map_eq_nil_iff.1 h.symm
    exact ⟨rfl, rfl⟩
  | cons piece scanned ih =>
    cases kinds with
    | nil => cases h
    | cons kind kinds =>
      cases piece with
      | error span => cases h
      | ok token =>
        rw [List.map_cons, List.map_cons, List.cons.injEq] at h
        have hrest := ih kinds h.2
        refine ⟨hrest.1, ?_⟩
        rw [validTokens, List.map_cons, hrest.2, Option.some.inj h.1]

/-- A text without invalid pieces has valid tokens only. -/
theorem valid_of_pieces (source : String) (kinds : List TokenKind)
    (h : pieces source.toList = kinds.map some) :
    firstInvalid? (scan source) = none ∧ (validTokens (scan source)).map Token.kind = kinds :=
  valid_of_map_pieceKind? (scan source) kinds h

end DeclaredMethods.Signature
