import DeclaredMethods.Proofs.RoundTrip.Pieces

/-!
# The tokens of texts that are put together

The tokens of a text stand at known places, so that one can see which of them touch. `scanAt` cuts a
text from a given place on, and is determined by one equation, `scanAt_cons`.

A text of valid tokens keeps them where a blank follows it: each of its lexemes ends before the
blank. This fails for comments only, which go on to the end of the line.
-/

namespace DeclaredMethods.Signature

open Text (isNameStart isNameChar quotedLength enclosedLength sigilNameLength? byteLength
  byteLength_nil byteLength_cons byteLength_append)

/-- The tokens and invalid pieces of a text whose first character stands at byte `offset`. -/
def scanAt (offset : Nat) (text : List Char) : List (Except Span Token) :=
  scanFrom text.length offset text

def tokenAt (offset : Nat) (kind : TokenKind) (text : List Char) : Token :=
  ⟨kind, ⟨offset, offset + byteLength text⟩, String.ofList text⟩

/-- What a lexeme adds to the tokens and invalid pieces. -/
def Reading.scanned (offset : Nat) (taken : List Char) : Reading → List (Except Span Token)
  | .skipped => []
  | .token kind => [.ok (tokenAt offset kind taken)]
  | .invalid => [.error ⟨offset, offset + byteLength taken⟩]

/-- One lexeme is cut off and the rest is scanned behind it. -/
theorem scanFrom_succ (bound offset : Nat) (first : Char) (text : List Char) :
    scanFrom (bound + 1) offset (first :: text) =
      (lexemeAt first text).reading.scanned offset
          ((first :: text).take (lexemeAt first text).length) ++
        scanFrom bound (offset + byteLength ((first :: text).take (lexemeAt first text).length))
          ((first :: text).drop (lexemeAt first text).length) := by
  rw [scanFrom]
  cases (lexemeAt first text).reading <;> rfl

/-- A bound that is large enough does not show. -/
theorem scanFrom_eq_scanAt (bound offset : Nat) (text : List Char) (hbound : text.length ≤ bound) :
    scanFrom bound offset text = scanAt offset text := by
  have hcongr : ∀ bound bound' offset (text : List Char), text.length ≤ bound →
      text.length ≤ bound' → scanFrom bound offset text = scanFrom bound' offset text := by
    intro bound
    induction bound with
    | zero =>
      intro bound' offset text hbound _
      obtain rfl := List.eq_nil_of_length_eq_zero (Nat.le_zero.1 hbound)
      simp only [scanFrom]
    | succ bound ih =>
      intro bound' offset text hbound hbound'
      cases text with
      | nil => simp only [scanFrom]
      | cons first text =>
        obtain ⟨bound', rfl⟩ :=
          Nat.exists_eq_add_of_le' (Nat.le_trans (Nat.le_add_left 1 _) hbound')
        have hdrop := length_drop_lexemeAt_le first text
        rw [List.length_cons] at hbound hbound'
        rw [scanFrom_succ, scanFrom_succ, ih bound' _ _ (by omega) (by omega)]
  exact hcongr bound text.length offset text hbound (Nat.le_refl _)

/-- The first lexeme of a text and the text behind it. -/
theorem scanAt_cons (offset : Nat) (first : Char) (text : List Char) :
    scanAt offset (first :: text) =
      (lexemeAt first text).reading.scanned offset
          ((first :: text).take (lexemeAt first text).length) ++
        scanAt (offset + byteLength ((first :: text).take (lexemeAt first text).length))
          ((first :: text).drop (lexemeAt first text).length) := by
  rw [scanAt, List.length_cons, scanFrom_succ,
    scanFrom_eq_scanAt _ _ _ (length_drop_lexemeAt_le first text)]

/-- Blanks can be cut off one by one. -/
theorem scanAt_cons_of_isGap (offset : Nat) (first : Char) (text : List Char)
    (hgap : isGap first = true) :
    scanAt offset (first :: text) = scanAt (offset + first.utf8Size) text := by
  have hblanks : ∀ offset first (text : List Char), isGap first = true →
      scanAt offset (first :: text) =
        scanAt (offset + first.utf8Size + byteLength (text.takeWhile isGap))
          (text.drop (text.takeWhile isGap).length) := by
    intro offset first text hgap
    have htake : text.take (text.takeWhile isGap).length = text.takeWhile isGap :=
      (List.prefix_iff_eq_take.1 (List.takeWhile_prefix isGap)).symm
    rw [scanAt_cons, lexemeAt_of_isGap first text hgap]
    dsimp only
    rw [Nat.add_comm 1, List.take_succ_cons, List.drop_succ_cons, byteLength_cons, htake,
      ← Nat.add_assoc]
    rfl
  rw [hblanks offset first text hgap]
  cases text with
  | nil => rfl
  | cons second text =>
    by_cases hsecond : isGap second = true
    · rw [hblanks _ second text hsecond, List.takeWhile_cons_of_pos hsecond, List.length_cons,
        List.drop_succ_cons, byteLength_cons, Nat.add_assoc, Nat.add_assoc, Nat.add_assoc]
    · rw [List.takeWhile_cons_of_neg hsecond]
      rfl

/-! ## Lexemes in front of a blank -/

def startsBlank (text : List Char) : Bool :=
  text.head?.any isGap

theorem exists_of_startsBlank {rest : List Char} (h : startsBlank rest = true) :
    ∃ blank tail, rest = blank :: tail ∧ isGap blank = true := by
  cases rest with
  | nil => cases h
  | cons blank tail => exact ⟨blank, tail, rfl, h⟩

/-- Blanks are no part of names and numbers. -/
theorem avoids_of_startsBlank {rest : List Char} (h : startsBlank rest = true) {p : Char → Bool}
    (hp : ∀ c, p c = true → isGap c = false) : avoids p rest = true := by
  obtain ⟨blank, tail, rfl, hblank⟩ := exists_of_startsBlank h
  have hnot : p blank = false := by
    cases hpc : p blank with
    | false => rfl
    | true =>
      rw [hp blank hpc] at hblank
      cases hblank
  simp [avoids, hnot]

/-- A run of characters that cannot go on in what follows stays as it is. -/
theorem takeWhile_append_avoids {p : Char → Bool} {rest : List Char} (hrest : avoids p rest = true)
    (text : List Char) : (text ++ rest).takeWhile p = text.takeWhile p := by
  induction text with
  | nil => exact takeWhile_append_of_avoids p [] rest rfl hrest
  | cons c text ih =>
    rw [List.cons_append, List.takeWhile_cons, List.takeWhile_cons, ih]

/-- A run of characters that ends inside a text stays as it is whatever follows. -/
theorem takeWhile_append_stops {p : Char → Bool} {text : List Char}
    (h : (text.takeWhile p).length < text.length) (rest : List Char) :
    (text ++ rest).takeWhile p = text.takeWhile p := by
  rw [List.takeWhile_append, if_neg (Nat.ne_of_lt h)]

theorem quotedLength_cons {close c : Char} (hc : c ≠ '\\') (text : List Char) :
    quotedLength close (c :: text) =
      if c = close then (0, true)
      else ((quotedLength close text).1 + 1, (quotedLength close text).2) := by
  rw [quotedLength]
  · exact fun h ↦ absurd h hc
  · exact fun _ _ h ↦ absurd h hc

/-- A literal that is closed stays so. -/
theorem quotedLength_append {close : Char} {text : List Char}
    (h : (quotedLength close text).2 = true) (rest : List Char) :
    quotedLength close (text ++ rest) = quotedLength close text ∧
      (quotedLength close text).1 < text.length := by
  have hordinary : ∀ {c : Char} {text : List Char}, (c = '\\' → text = [] → False) →
      (∀ d tail, c = '\\' → text = d :: tail → False) → c ≠ '\\' := by
    rintro c (_ | ⟨d, tail⟩) hnil hcons hc
    · exact hnil hc rfl
    · exact hcons d tail hc rfl
  fun_induction quotedLength close text with
  | case1 => cases h
  | case2 => cases h
  | case3 => cases h
  | case4 c text hnewline length closed hlength ih =>
    rw [hlength] at ih
    obtain ⟨heq, hless⟩ := ih h
    refine ⟨?_, by simpa using hless⟩
    rw [List.cons_append, List.cons_append, quotedLength, if_neg hnewline, heq]
  | case5 text hnil hcons =>
    refine ⟨?_, Nat.succ_pos _⟩
    rw [List.cons_append, quotedLength_cons (hordinary hnil hcons), if_pos rfl]
  | case6 c text hnil hcons hclose length closed hlength ih =>
    rw [hlength] at ih
    obtain ⟨heq, hless⟩ := ih h
    refine ⟨?_, by simpa using hless⟩
    rw [List.cons_append, quotedLength_cons (hordinary hnil hcons), if_neg hclose, heq]

variable {rest : List Char}

/-- A quoted text that is closed does not depend on what follows. -/
theorem quotedLexeme_append {opening : Nat} {quote : Char} {text : List Char}
    {make : String → TokenKind} (hvalid : (quotedLexeme opening quote text make).reading ≠ .invalid)
    (rest : List Char) :
    quotedLexeme opening quote (text ++ rest) make = quotedLexeme opening quote text make ∧
      (quotedLexeme opening quote text make).length ≤ text.length + opening := by
  have hclosed : (quotedLength quote text).2 = true := by
    cases hlength : (quotedLength quote text).2 with
    | true => rfl
    | false => exact absurd (by simp [quotedLexeme, hlength]) hvalid
  obtain ⟨heq, hless⟩ := quotedLength_append hclosed rest
  simp only [quotedLexeme, heq, hclosed, if_true]
  rw [List.take_append_of_le_length (Nat.le_of_lt hless)]
  exact ⟨rfl, by omega⟩

/-- No mark has a blank in it. -/
theorem isPrefixOf_append_blank (hrest : startsBlank rest = true) {spelling : List Char}
    (hspelling : ∀ c ∈ spelling, isGap c = false) (text : List Char) :
    spelling.isPrefixOf (text ++ rest) = spelling.isPrefixOf text := by
  induction spelling generalizing text with
  | nil => simp [List.isPrefixOf]
  | cons c spelling ih =>
    cases text with
    | nil =>
      obtain ⟨blank, tail, rfl, hblank⟩ := exists_of_startsBlank hrest
      have hne : (c == blank) = false := by
        rw [beq_eq_false_iff_ne]
        rintro rfl
        rw [hspelling c List.mem_cons_self] at hblank
        cases hblank
      simp [List.isPrefixOf, hne]
    | cons d text =>
      rw [List.cons_append, List.isPrefixOf, List.isPrefixOf,
        ih (fun c hc ↦ hspelling c (List.mem_cons_of_mem _ hc))]

/-- No mark has a blank in it, so a blank ends every mark. -/
theorem Mark.not_isGap_of_mem_spelling (mark : Mark) : ∀ c ∈ mark.spelling, isGap c = false := by
  have hall : (mark.spelling.all fun c ↦ !isGap c) = true := by cases mark <;> rfl
  simpa using hall

/-- The longest mark in front of a blank is the longest mark of the text. -/
theorem markLexeme_append (hrest : startsBlank rest = true) (first : Char) (text : List Char) :
    markLexeme (first :: text ++ rest) = markLexeme (first :: text) ∧
      (markLexeme (first :: text)).length ≤ text.length + 1 := by
  have hfind : (fun mark : Mark ↦ mark.spelling.isPrefixOf (first :: text ++ rest)) =
      fun mark ↦ mark.spelling.isPrefixOf (first :: text) := by
    funext mark
    exact isPrefixOf_append_blank hrest mark.not_isGap_of_mem_spelling (first :: text)
  refine ⟨by rw [markLexeme, markLexeme, hfind], ?_⟩
  unfold markLexeme
  split
  · next mark hmark =>
    have hprefix := List.find?_some hmark
    exact (List.isPrefixOf_iff_prefix.1 hprefix).length_le
  · exact Nat.le_add_left _ _

theorem isGap_eq_false_of_isDigit {c : Char} (hc : c.isDigit = true) : isGap c = false :=
  isGap_eq_false_of_isNameChar c (isNameChar_of_isDigit c hc)

theorem avoids_isNameChar (hrest : startsBlank rest = true) : avoids isNameChar rest = true :=
  avoids_of_startsBlank hrest isGap_eq_false_of_isNameChar

theorem digitRun_append_blank (hrest : startsBlank rest = true) (text : List Char) :
    digitRun (text ++ rest) = digitRun text := by
  refine takeWhile_append_avoids (avoids_of_startsBlank hrest fun c hc ↦ ?_) text
  rcases Bool.or_eq_true_iff.1 hc with hdigit | hunderscore
  · exact isGap_eq_false_of_isDigit hdigit
  · obtain rfl := eq_of_beq hunderscore
    decide

theorem length_takeWhile_le {p : Char → Bool} (text : List Char) :
    (text.takeWhile p).length ≤ text.length :=
  (List.takeWhile_prefix p).length_le

theorem integerLexeme_le {length bound : Nat} {value : Int} (h : length ≤ bound) :
    (integerLexeme length value).length ≤ bound := by
  rw [length_integerLexeme]
  exact h

/-- A number ends in front of a blank. -/
theorem numberLexeme_append (hrest : startsBlank rest = true) (first : Char) (text : List Char) :
    numberLexeme first (text ++ rest) = numberLexeme first text ∧
      (numberLexeme first text).length ≤ text.length + 1 := by
  rw [numberLexeme, numberLexeme, digitRun_append_blank hrest]
  exact ⟨rfl, integerLexeme_le (Nat.succ_le_succ (length_takeWhile_le text))⟩

theorem minusLexeme_append (hrest : startsBlank rest = true) (text : List Char) :
    minusLexeme (text ++ rest) = minusLexeme text ∧
      (minusLexeme text).length ≤ text.length + 1 := by
  cases text with
  | nil =>
    obtain ⟨hmark, hlength⟩ := markLexeme_append hrest '-' []
    obtain ⟨blank, tail, rfl, hblank⟩ := exists_of_startsBlank hrest
    have hdigit : ¬blank.isDigit = true := fun h ↦ by
      rw [isGap_eq_false_of_isDigit h] at hblank
      cases hblank
    refine ⟨?_, hlength⟩
    rw [List.nil_append, minusLexeme, if_neg hdigit]
    exact hmark
  | cons c text =>
    rw [List.cons_append, minusLexeme, minusLexeme]
    by_cases hdigit : c.isDigit = true
    · rw [if_pos hdigit, if_pos hdigit, digitRun_append_blank hrest]
      refine ⟨rfl, integerLexeme_le ?_⟩
      rw [List.length_cons, List.length_cons]
      exact Nat.succ_le_succ (Nat.succ_le_succ (length_takeWhile_le text))
    · rw [if_neg hdigit, if_neg hdigit]
      exact markLexeme_append hrest '-' (c :: text)

theorem isNameStart_eq_false_of_isGap {c : Char} (hc : isGap c = true) : isNameStart c = false := by
  cases hstart : isNameStart c with
  | false => rfl
  | true =>
    rw [isGap_eq_false_of_isNameChar c (isNameChar_of_isNameStart c hstart)] at hc
    cases hc

theorem sigilNameLength?_append (hrest : startsBlank rest = true) (text : List Char) :
    sigilNameLength? (text ++ rest) = sigilNameLength? text := by
  cases text with
  | nil =>
    obtain ⟨blank, tail, rfl, hblank⟩ := exists_of_startsBlank hrest
    simp [sigilNameLength?, isNameStart_eq_false_of_isGap hblank]
  | cons c text =>
    have htake := takeWhile_append_avoids (avoids_isNameChar hrest) (c :: text)
    rw [List.cons_append] at htake ⊢
    rw [sigilNameLength?, sigilNameLength?, htake]

theorem sigilNameLength?_le {text : List Char} {length : Nat}
    (h : sigilNameLength? text = some length) : length ≤ text.length := by
  unfold sigilNameLength? at h
  split at h
  · split at h
    · cases h
      exact length_takeWhile_le _
    · cases h
  · cases h

theorem dollarLexeme_append (hrest : startsBlank rest = true) (text : List Char) :
    dollarLexeme (text ++ rest) = dollarLexeme text ∧
      (dollarLexeme text).length ≤ text.length + 1 := by
  rw [dollarLexeme, dollarLexeme, sigilNameLength?_append hrest]
  cases hname : sigilNameLength? text with
  | none => exact ⟨rfl, Nat.le_add_left _ _⟩
  | some length =>
    have hlength := sigilNameLength?_le hname
    dsimp only
    rw [List.take_append_of_le_length hlength]
    exact ⟨rfl, Nat.succ_le_succ hlength⟩

/-- A variable with one at sign, or the mark. -/
def instanceVarLexeme (text : List Char) : Lexeme :=
  match sigilNameLength? text with
  | some length => ⟨length + 1, .token (.instanceVar (String.ofList ('@' :: text.take length)))⟩
  | none => markLexeme ('@' :: text)

theorem atLexeme_of_ne {text : List Char} (h : ∀ name, text ≠ '@' :: name) :
    atLexeme text = instanceVarLexeme text := by
  unfold atLexeme
  split
  · next name => exact absurd rfl (h name)
  · rfl

theorem atLexeme_append (hrest : startsBlank rest = true) (text : List Char) :
    atLexeme (text ++ rest) = atLexeme text ∧ (atLexeme text).length ≤ text.length + 1 := by
  have hmark := markLexeme_append hrest '@' text
  -- A second sigil is part of the text.
  by_cases hdouble : ∃ name, text = '@' :: name
  · obtain ⟨name, rfl⟩ := hdouble
    rw [List.cons_append] at hmark ⊢
    simp only [atLexeme, sigilNameLength?_append hrest]
    cases hname : sigilNameLength? name with
    | none => exact hmark
    | some length =>
      have hlength := sigilNameLength?_le hname
      dsimp only
      rw [List.take_append_of_le_length hlength]
      exact ⟨rfl, Nat.succ_le_succ (Nat.succ_le_succ hlength)⟩
  · have htext : ∀ name, text ≠ '@' :: name := fun name h ↦ hdouble ⟨name, h⟩
    have happend : ∀ name, text ++ rest ≠ '@' :: name := by
      cases text with
      | nil =>
        obtain ⟨blank, tail, rfl, hblank⟩ := exists_of_startsBlank hrest
        intro name h
        obtain rfl := (List.cons.inj h).1
        cases hblank
      | cons c text =>
        intro name h
        obtain rfl := (List.cons.inj h).1
        exact htext text rfl
    rw [atLexeme_of_ne htext, atLexeme_of_ne happend, instanceVarLexeme, instanceVarLexeme,
      sigilNameLength?_append hrest]
    cases hname : sigilNameLength? text with
    | none => exact hmark
    | some length =>
      have hlength := sigilNameLength?_le hname
      dsimp only
      rw [List.take_append_of_le_length hlength]
      exact ⟨rfl, Nat.succ_le_succ hlength⟩

/-- What may end a symbol is no blank. -/
theorem symbolLength_append_blank (hrest : startsBlank rest = true) (text : List Char) :
    symbolLength (text ++ rest) = symbolLength text ∧ symbolLength text ≤ text.length := by
  have hlength := length_takeWhile_le (p := isNameChar) text
  simp only [symbolLength, takeWhile_append_avoids (avoids_isNameChar hrest),
    List.drop_append_of_le_length hlength]
  cases hdrop : text.drop (text.takeWhile isNameChar).length with
  | nil =>
    obtain ⟨blank, tail, rfl, hblank⟩ := exists_of_startsBlank hrest
    refine ⟨?_, hlength⟩
    rw [List.nil_append]
    split <;> first | rfl | (next heq => obtain rfl := (List.cons.inj heq).1; cases hblank)
  | cons c dropped =>
    have hmore : (text.takeWhile isNameChar).length + 1 ≤ text.length := by
      have hcount := congrArg List.length hdrop
      rw [List.length_drop, List.length_cons] at hcount
      omega
    rw [List.cons_append]
    constructor
    · split <;> split <;> simp_all
    · split <;> omega

/-- A colon starts a symbol if a name or a quote follows it, and is a mark otherwise. -/
theorem colonLexeme_cons {c : Char} (hquote : c ≠ '"') (text : List Char) :
    colonLexeme (c :: text) =
      if isNameStart c then
        ⟨symbolLength (c :: text) + 1,
          .token (.symbol (String.ofList ((c :: text).take (symbolLength (c :: text)))))⟩
      else markLexeme (':' :: c :: text) := by
  unfold colonLexeme
  split
  · next heq => exact absurd (List.cons.inj heq).1 hquote
  · next heq =>
    obtain ⟨rfl, rfl⟩ := List.cons.inj heq
    rfl
  · next heq => cases heq

/-- A symbol ends in front of a blank; a quoted one ends with its quote. -/
theorem colonLexeme_append (hrest : startsBlank rest = true) {text : List Char}
    (hvalid : (colonLexeme text).reading ≠ .invalid) :
    colonLexeme (text ++ rest) = colonLexeme text ∧
      (colonLexeme text).length ≤ text.length + 1 := by
  cases text with
  | nil =>
    obtain ⟨hmark, hlength⟩ := markLexeme_append hrest ':' []
    obtain ⟨blank, tail, rfl, hblank⟩ := exists_of_startsBlank hrest
    have hquote : blank ≠ '"' := by
      rintro rfl
      cases hblank
    refine ⟨?_, hlength⟩
    rw [List.nil_append, colonLexeme_cons hquote,
      if_neg (by simp [isNameStart_eq_false_of_isGap hblank])]
    exact hmark
  | cons c text =>
    by_cases hquote : c = '"'
    · subst hquote
      exact quotedLexeme_append hvalid rest
    · obtain ⟨hsymbol, hlength⟩ := symbolLength_append_blank hrest (c :: text)
      have hmark := markLexeme_append hrest ':' (c :: text)
      have htake : (c :: text ++ rest).take (symbolLength (c :: text)) =
          (c :: text).take (symbolLength (c :: text)) := List.take_append_of_le_length hlength
      rw [List.cons_append] at hsymbol htake ⊢
      rw [colonLexeme_cons hquote, colonLexeme_cons hquote, hsymbol, htake]
      split
      · exact ⟨rfl, Nat.succ_le_succ hlength⟩
      · exact hmark

theorem annotationLexeme_append {close : Char} {text : List Char}
    (hvalid : (annotationLexeme close text).reading ≠ .invalid) (rest : List Char) :
    annotationLexeme close (text ++ rest) = annotationLexeme close text ∧
      (annotationLexeme close text).length ≤ text.length + 3 := by
  have hclosed : (text.takeWhile (· != close)).length < text.length := by
    by_contra hopen
    exact hvalid (by simp [annotationLexeme, enclosedLength, hopen])
  have hmore : (text.takeWhile (· != close)).length < (text ++ rest).length := by
    rw [List.length_append]
    omega
  simp only [annotationLexeme, enclosedLength, takeWhile_append_stops hclosed, hclosed, hmore,
    decide_true, if_true, true_and]
  omega

theorem percentLexeme_append (hrest : startsBlank rest = true) {text : List Char}
    (hvalid : (percentLexeme text).reading ≠ .invalid) :
    percentLexeme (text ++ rest) = percentLexeme text ∧
      (percentLexeme text).length ≤ text.length + 1 := by
  have hmark := markLexeme_append hrest '%' text
  unfold percentLexeme at hvalid ⊢
  split at hvalid
  · next inside => exact annotationLexeme_append hvalid rest
  · next inside => exact annotationLexeme_append hvalid rest
  · next inside => exact annotationLexeme_append hvalid rest
  · next hbrace hparen hbracket =>
    -- An annotation is not opened by a blank.
    have hplain : ∀ bracket : Char, isGap bracket = false →
        (∀ inside, text = 'a' :: bracket :: inside → False) →
        ∀ inside, text ++ rest ≠ 'a' :: bracket :: inside := by
      intro bracket hbracket htext inside happend
      obtain ⟨blank, tail, rfl, hblank⟩ := exists_of_startsBlank hrest
      match text with
      | [] =>
        obtain rfl := (List.cons.inj happend).1
        cases hblank
      | [c] =>
        obtain rfl := (List.cons.inj (List.cons.inj happend).2).1
        rw [hbracket] at hblank
        cases hblank
      | c :: d :: text =>
        simp only [List.cons_append, List.cons.injEq] at happend
        obtain ⟨rfl, rfl, -⟩ := happend
        exact htext text rfl
    refine ⟨?_, hmark.2⟩
    rw [← List.cons_append, hmark.1]
    split
    · next heq => exact absurd heq (hplain _ rfl hbrace _)
    · next heq => exact absurd heq (hplain _ rfl hparen _)
    · next heq => exact absurd heq (hplain _ rfl hbracket _)
    · rfl

theorem backtickLexeme_append {text : List Char}
    (hvalid : (backtickLexeme text).reading ≠ .invalid) (rest : List Char) :
    backtickLexeme (text ++ rest) = backtickLexeme text ∧
      (backtickLexeme text).length ≤ text.length + 1 := by
  have hclosed : (text.takeWhile fun c ↦ c != '\x60' && c != '\n').length < text.length := by
    by_contra hopen
    have hdrop := List.drop_eq_nil_iff.2 (Nat.not_lt.1 hopen)
    apply hvalid
    unfold backtickLexeme
    dsimp only
    rw [hdrop]
    split
    · next heq => cases heq
    · rfl
  have htake := takeWhile_append_stops hclosed rest
  unfold backtickLexeme
  dsimp only
  rw [htake, List.drop_append_of_le_length (Nat.le_of_lt hclosed)]
  generalize (text.takeWhile fun c ↦ c != '\x60' && c != '\n') = name at hclosed ⊢
  obtain ⟨c, dropped, hdrop⟩ := List.exists_cons_of_ne_nil fun h ↦
    Nat.not_le.2 hclosed (List.drop_eq_nil_iff.1 h)
  rw [hdrop, List.cons_append]
  constructor
  · split <;> split <;> simp_all
  · split <;> simp only <;> omega

theorem wordLexeme_append (hrest : startsBlank rest = true) (first : Char) (text : List Char) :
    wordLexeme first (text ++ rest) = wordLexeme first text ∧
      (wordLexeme first text).length ≤ text.length + 1 := by
  rw [wordLexeme, wordLexeme, takeWhile_append_avoids (avoids_isNameChar hrest)]
  exact ⟨rfl, Nat.succ_le_succ (length_takeWhile_le text)⟩

/-- A lexeme that is valid is the same in front of a blank, unless it is a comment or a blank
itself. -/
theorem lexemeAt_append (hrest : startsBlank rest = true) {first : Char} {text : List Char}
    (hcomment : first ≠ '#') (hgap : isGap first = false)
    (hvalid : (lexemeAt first text).reading ≠ .invalid) :
    lexemeAt first (text ++ rest) = lexemeAt first text ∧
      (lexemeAt first text).length ≤ text.length + 1 := by
  unfold lexemeAt at hvalid ⊢
  split at hvalid
  · exact absurd rfl hcomment
  · exact quotedLexeme_append hvalid rest
  · exact quotedLexeme_append hvalid rest
  · exact backtickLexeme_append hvalid rest
  · exact colonLexeme_append hrest hvalid
  · exact atLexeme_append hrest text
  · exact dollarLexeme_append hrest text
  · exact percentLexeme_append hrest hvalid
  · exact minusLexeme_append hrest text
  · rw [hgap]
    simp only [Bool.false_eq_true, if_false]
    split
    · exact numberLexeme_append hrest first text
    · split
      · exact wordLexeme_append hrest first text
      · exact markLexeme_append hrest first text

/-! ## Texts in front of a blank -/

/-- In front of every text that `follows` allows, a text is cut into tokens that meet a
specification, which may depend on the place. -/
def Scans (follows : List Char → Bool) (text : List Char) (spec : Nat → List Token → Prop) : Prop :=
  ∀ rest offset, follows rest = true → ∃ tokens, spec offset tokens ∧
    scanAt offset (text ++ rest) = tokens.map .ok ++ scanAt (offset + byteLength text) rest

/-- What is scanned in front of many texts is scanned in front of fewer. -/
theorem Scans.mono {follows follows' : List Char → Bool} {text : List Char}
    {spec spec' : Nat → List Token → Prop} (h : Scans follows text spec)
    (hfollows : ∀ rest, follows' rest = true → follows rest = true)
    (hspec : ∀ offset tokens, spec offset tokens → spec' offset tokens) :
    Scans follows' text spec' := by
  intro rest offset hrest
  obtain ⟨tokens, htokens, hscan⟩ := h rest offset (hfollows rest hrest)
  exact ⟨tokens, hspec offset tokens htokens, hscan⟩

/-- Texts that may follow each other are scanned one after the other. -/
theorem Scans.append {follows follows' : List Char → Bool} {text text' : List Char}
    {spec spec' spec'' : Nat → List Token → Prop} (h : Scans follows text spec)
    (h' : Scans follows' text' spec')
    (hfollows : ∀ rest, follows' rest = true → follows (text' ++ rest) = true)
    (hspec : ∀ offset tokens tokens', spec offset tokens →
      spec' (offset + byteLength text) tokens' → spec'' offset (tokens ++ tokens')) :
    Scans follows' (text ++ text') spec'' := by
  intro rest offset hrest
  obtain ⟨tokens, htokens, hscan⟩ := h (text' ++ rest) offset (hfollows rest hrest)
  obtain ⟨tokens', htokens', hscan'⟩ := h' rest (offset + byteLength text) hrest
  refine ⟨tokens ++ tokens', hspec offset tokens tokens' htokens htokens', ?_⟩
  rw [List.append_assoc, hscan, hscan', List.map_append, List.append_assoc, byteLength_append,
    Nat.add_assoc]

/-- Two texts one after the other have the tokens of the one and then those of the other. -/
theorem Scans.join {follows follows' : List Char → Bool} {text text' : List Char}
    {spec spec' : Nat → List Token → Prop} (h : Scans follows text spec)
    (h' : Scans follows' text' spec')
    (hfollows : ∀ rest, follows' rest = true → follows (text' ++ rest) = true) :
    Scans follows' (text ++ text') fun offset tokens ↦ ∃ first second, tokens = first ++ second ∧
      spec offset first ∧ spec' (offset + byteLength text) second :=
  h.append h' hfollows fun _ first second hfirst hsecond ↦ ⟨first, second, rfl, hfirst, hsecond⟩

/-- The place of a text does not show in the kinds of its tokens. -/
theorem map_pieceKind?_scanAt (offset : Nat) (text : List Char) :
    (scanAt offset text).map pieceKind? = pieces text :=
  map_pieceKind?_scanFrom_congr _ _ offset 0 text (Nat.le_refl _) (Nat.le_refl _)

theorem pieces_cons_blank {first : Char} (hgap : isGap first = true) (text : List Char) :
    pieces (first :: text) = pieces text := by
  rw [← map_pieceKind?_scanAt 0, scanAt_cons_of_isGap 0 first text hgap, map_pieceKind?_scanAt]

/-- A valid lexeme adds at most one token, which is the first one of the text. -/
theorem Reading.exists_scanned {reading : Reading} {kinds : List TokenKind}
    {behind : List (Option TokenKind)} (h : reading.pieces ++ behind = kinds.map some)
    (offset : Nat) (taken : List Char) :
    reading ≠ .invalid ∧ ∃ (tokens : List Token) (kinds' : List TokenKind),
      kinds = tokens.map Token.kind ++ kinds' ∧
      reading.scanned offset taken = tokens.map .ok ∧ behind = kinds'.map some := by
  cases reading with
  | skipped => exact ⟨Reading.noConfusion, [], kinds, rfl, rfl, h⟩
  | token kind =>
    cases kinds with
    | nil => cases h
    | cons first kinds =>
      obtain ⟨hkind, hbehind⟩ := List.cons.inj h
      obtain rfl := Option.some.inj hkind
      exact ⟨Reading.noConfusion, [tokenAt offset kind taken], kinds, rfl, rfl, hbehind⟩
  | invalid => cases kinds <;> cases h

/-- A text of valid tokens has the same tokens in front of a blank. -/
theorem scans_of_pieces {text : List Char} {kinds : List TokenKind} (hcomment : '#' ∉ text)
    (hpieces : pieces text = kinds.map some) :
    Scans startsBlank text fun _ tokens ↦ tokens.map Token.kind = kinds := by
  intro rest offset hrest
  induction hlength : text.length using Nat.strong_induction_on generalizing text kinds offset with
  | _ length ih =>
    cases text with
    | nil =>
      obtain rfl := List.map_eq_nil_iff.1 (pieces_nil.symm.trans hpieces).symm
      exact ⟨[], rfl, rfl⟩
    | cons first text =>
      cases hgap : isGap first with
      | true =>
        have htext : pieces text = kinds.map some :=
          (pieces_cons_blank hgap text).symm.trans hpieces
        obtain ⟨tokens, htokens, hscan⟩ := ih text.length (by simp [← hlength])
          (fun h ↦ hcomment (List.mem_cons_of_mem _ h)) htext (offset + first.utf8Size) rfl
        refine ⟨tokens, htokens, ?_⟩
        rw [List.cons_append, scanAt_cons_of_isGap _ _ _ hgap, hscan, byteLength_cons,
          Nat.add_assoc]
      | false =>
        rw [pieces_cons] at hpieces
        let size := (lexemeAt first text).length
        obtain ⟨hvalid, lexed, kinds', rfl, hscanned, hbehind⟩ :=
          Reading.exists_scanned hpieces offset ((first :: text).take size)
        have hfirst : first ≠ '#' := fun h ↦ hcomment (h ▸ List.mem_cons_self)
        obtain ⟨hlexeme, hbound⟩ := lexemeAt_append hrest hfirst hgap hvalid
        have hbound' : size ≤ (first :: text).length := hbound
        have hpos : 0 < size := length_lexemeAt_pos first text
        obtain ⟨tokens, htokens, hscan⟩ := ih ((first :: text).drop size).length
          (by rw [List.length_drop]; omega) (fun h ↦ hcomment (List.mem_of_mem_drop h)) hbehind
          (offset + byteLength ((first :: text).take size)) rfl
        refine ⟨lexed ++ tokens,
          List.map_append.trans (congrArg (lexed.map Token.kind ++ ·) htokens), ?_⟩
        have hplace : byteLength ((first :: text).take size) +
            byteLength ((first :: text).drop size) = byteLength (first :: text) := by
          rw [← byteLength_append, List.take_append_drop]
        rw [List.cons_append, scanAt_cons, hlexeme, ← List.cons_append,
          List.take_append_of_le_length hbound', List.drop_append_of_le_length hbound', hscanned,
          hscan, List.map_append, List.append_assoc, Nat.add_assoc, hplace]

/-! ## Words and the end of a text -/

/-- A piece of a text that is neither a word nor the end of the text. -/
def Lexeme.isOther (lexeme : Lexeme) : Bool :=
  match lexeme.reading with
  | .token .eof | .token (.ident _) => false
  | _ => true

theorem isOther_markLexeme (text : List Char) : (markLexeme text).isOther = true := by
  unfold markLexeme
  split <;> rfl

theorem isOther_integerLexeme (length : Nat) (value : Int) :
    (integerLexeme length value).isOther = true := by
  unfold integerLexeme
  split <;> rfl

theorem isOther_quotedLexeme {make : String → TokenKind}
    (hmake : ∀ length value, Lexeme.isOther ⟨length, .token (make value)⟩ = true)
    (opening : Nat) (quote : Char) (text : List Char) :
    (quotedLexeme opening quote text make).isOther = true := by
  unfold quotedLexeme
  dsimp only
  split
  · exact hmake _ _
  · rfl

/-- What starts neither with a letter or underscore nor with a backtick is no word. -/
theorem isOther_lexemeAt {first : Char} (hstart : isNameStart first = false)
    (hquote : first ≠ '\x60') (text : List Char) : (lexemeAt first text).isOther = true := by
  unfold lexemeAt
  split
  · rfl
  · exact isOther_quotedLexeme (fun _ _ ↦ rfl) _ _ _
  · exact isOther_quotedLexeme (fun _ _ ↦ rfl) _ _ _
  · exact absurd rfl hquote
  · unfold colonLexeme
    split
    · exact isOther_quotedLexeme (fun _ _ ↦ rfl) _ _ _
    · split
      · rfl
      · exact isOther_markLexeme _
    · exact isOther_markLexeme _
  · unfold atLexeme
    split <;> split <;> first | exact isOther_markLexeme _ | rfl
  · unfold dollarLexeme
    split <;> rfl
  · unfold percentLexeme annotationLexeme
    dsimp only
    split <;> first | exact isOther_markLexeme _ | (split <;> rfl)
  · unfold minusLexeme
    split
    · split
      · exact isOther_integerLexeme _ _
      · exact isOther_markLexeme _
    · exact isOther_markLexeme _
  · split
    · rfl
    · split
      · exact isOther_integerLexeme _ _
      · rw [if_neg (Bool.eq_false_iff.1 hstart)]
        exact isOther_markLexeme _

/-- No piece of a text is the end. -/
theorem lexemeAt_ne_eof (first : Char) (text : List Char) :
    (lexemeAt first text).reading ≠ .token .eof := by
  by_cases hquote : first = '\x60'
  · subst hquote
    change (backtickLexeme text).reading ≠ .token .eof
    unfold backtickLexeme
    dsimp only
    split <;> simp
  · cases hstart : isNameStart first with
    | true =>
      rw [lexemeAt_of_isNameStart first text hstart]
      simp [wordLexeme]
    | false =>
      intro heof
      have hother := isOther_lexemeAt hstart hquote text
      rw [Lexeme.isOther, heof] at hother
      cases hother

/-- What is between backticks is not empty and ends with the second one. -/
theorem ident_of_backtickLexeme {text : List Char} {word : String}
    (h : (backtickLexeme text).reading = .token (.ident word)) :
    word ≠ "" ∧
      ('\x60' :: text).take (backtickLexeme text).length = '\x60' :: word.toList ++ ['\x60'] := by
  unfold backtickLexeme at h ⊢
  have hstarts := List.takeWhile_prefix (fun c ↦ c != '\x60' && c != '\n') (l := text)
  dsimp only at h ⊢
  generalize text.takeWhile (fun c ↦ c != '\x60' && c != '\n') = name at h hstarts ⊢
  obtain ⟨later, rfl⟩ := hstarts
  rw [List.drop_left] at h ⊢
  split at h
  · cases h
    simp [List.take_length_add_append]
  · cases h

/-- A word is not empty, and if it holds a colon it is written between backticks. -/
theorem ident_of_lexemeAt {first : Char} {text : List Char} {word : String}
    (h : (lexemeAt first text).reading = .token (.ident word)) :
    word ≠ "" ∧ (':' ∈ word.toList →
      (first :: text).take (lexemeAt first text).length = '\x60' :: word.toList ++ ['\x60']) := by
  by_cases hquote : first = '\x60'
  · subst hquote
    have hword : (backtickLexeme text).reading = .token (.ident word) := h
    obtain ⟨hword, hpiece⟩ := ident_of_backtickLexeme hword
    exact ⟨hword, fun _ ↦ hpiece⟩
  · cases hstart : isNameStart first with
    | true =>
      rw [lexemeAt_of_isNameStart first text hstart] at h
      cases h
      refine ⟨by simp, fun hcolon ↦ ?_⟩
      rw [String.toList_ofList] at hcolon
      have hname : isNameChar ':' = true := by
        rcases List.mem_cons.1 hcolon with rfl | hcolon
        · cases hstart
        · exact List.mem_takeWhile_imp hcolon
      cases hname
    | false =>
      have hother := isOther_lexemeAt hstart hquote text
      rw [Lexeme.isOther, h] at hother
      cases hother

theorem mem_of_mem_validTokens {scanned : List (Except Span Token)} {token : Token}
    (h : token ∈ validTokens scanned) : .ok token ∈ scanned := by
  induction scanned with
  | nil => cases h
  | cons piece scanned ih =>
    cases piece with
    | error span => cases h
    | ok first =>
      rcases List.mem_cons.1 h with rfl | hmem
      · exact List.mem_cons_self
      · exact List.mem_cons_of_mem _ (ih hmem)

/-- The end is not among the pieces of a text. -/
theorem eof_not_mem_pieces (text : List Char) : some .eof ∉ pieces text := by
  induction hlength : text.length using Nat.strong_induction_on generalizing text with
  | _ length ih =>
    cases text with
    | nil => exact List.not_mem_nil
    | cons first text =>
      have hless : ((first :: text).drop (lexemeAt first text).length).length < length := by
        rw [← hlength]
        exact Nat.lt_succ_of_le (length_drop_lexemeAt_le first text)
      have hbehind := ih _ hless _ rfl
      have hfirst := lexemeAt_ne_eof first text
      rw [pieces_cons, List.mem_append]
      rintro (hmem | hmem)
      · cases hreading : (lexemeAt first text).reading with
        | skipped =>
          rw [hreading] at hmem
          cases hmem
        | token kind =>
          rw [hreading] at hmem hfirst
          obtain rfl := Option.some.inj (List.mem_singleton.1 hmem)
          exact hfirst rfl
        | invalid =>
          rw [hreading] at hmem
          cases List.mem_singleton.1 hmem
      · exact hbehind hmem

theorem scans_nil (follows : List Char → Bool) : Scans follows [] fun _ tokens ↦ tokens = [] :=
  fun _ _ _ ↦ ⟨[], rfl, rfl⟩

/-- A lexeme that is a token in front of what may follow. -/
theorem scans_lexeme {follows : List Char → Bool} {first : Char} {text : List Char}
    {kind : TokenKind}
    (h : ∀ rest, follows rest = true →
      lexemeAt first (text ++ rest) = ⟨text.length + 1, .token kind⟩) :
    Scans follows (first :: text) fun offset tokens ↦
      tokens = [tokenAt offset kind (first :: text)] := by
  intro rest offset hrest
  refine ⟨[tokenAt offset kind (first :: text)], rfl, ?_⟩
  rw [List.cons_append, scanAt_cons, h rest hrest]
  dsimp only
  rw [List.take_succ_cons, List.drop_succ_cons, List.take_left, List.drop_left]
  rfl

/-- A word is one identifier in front of anything that does not go on with it. -/
theorem scans_word {word : String} (hword : isWord word.toList = true) :
    Scans (avoids isNameChar) word.toList fun offset tokens ↦
      tokens = [tokenAt offset (.ident word) word.toList] := by
  obtain ⟨first, text, hchars, hfirst, htext⟩ := exists_cons_of_isWord hword
  rw [hchars]
  refine scans_lexeme fun rest hrest ↦ ?_
  rw [lexemeAt_of_isNameStart first _ hfirst, wordLexeme,
    takeWhile_append_of_avoids isNameChar text rest htext hrest, ← hchars, String.ofList_toList]
  rw [hchars]
  rfl

theorem scans_blank {blank : Char} (hblank : isGap blank = true) :
    Scans (fun _ ↦ true) [blank] fun _ tokens ↦ tokens = [] := by
  intro rest offset _
  refine ⟨[], rfl, ?_⟩
  rw [List.cons_append, List.nil_append, scanAt_cons_of_isGap offset blank rest hblank]
  rfl

/-- A comment goes on to the end of the line. -/
theorem scans_comment {text : List Char} (htext : '\n' ∉ text) :
    Scans (fun rest ↦ rest.head? == some '\n') ('#' :: text) fun _ tokens ↦ tokens = [] := by
  intro rest offset hrest
  refine ⟨[], rfl, ?_⟩
  have havoids : avoids (· != '\n') rest = true := by
    rw [avoids, eq_of_beq hrest]
    rfl
  have hall : text.all (· != '\n') = true := by
    rw [List.all_eq_true]
    rintro c hc
    exact bne_iff_ne.2 fun h ↦ htext (h ▸ hc)
  have hlexeme : lexemeAt '#' (text ++ rest) = ⟨1 + text.length, .skipped⟩ := by
    have htake := takeWhile_append_of_avoids (· != '\n') text rest hall havoids
    have hcomment : lexemeAt '#' (text ++ rest) =
        ⟨1 + ((text ++ rest).takeWhile (· != '\n')).length, .skipped⟩ := rfl
    rw [hcomment, htake]
  rw [List.cons_append, scanAt_cons, hlexeme]
  dsimp only
  rw [Nat.add_comm 1, List.take_succ_cons, List.drop_succ_cons, List.take_left, List.drop_left]
  rfl

end DeclaredMethods.Signature
