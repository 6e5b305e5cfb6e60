import DeclaredMethods.Proofs.Building.Operators
import DeclaredMethods.Proofs.Lexing.Numbers
import Mathlib.Algebra.Ring.Int.Defs
import Mathlib.Logic.Function.Iterate

/-!
# Whole numbers with signs

The minus signs in front of a whole number become part of it. So a whole number of a tree is a
number of the source with the signs right in front of it, and its value is the one that is written.
No sign is left in front of a number.

A number of the source is less than `2 ^ 63`; larger ones are errors. So all numbers of a tree lie
between `-(2 ^ 63 - 1)` and `2 ^ 63 - 1`, and signs can be applied to them in 64 bits as often as
one likes: the smallest number of 64 bits, which has no negative, never comes up.
-/

namespace DeclaredMethods.Source

open Parse

section Signs

variable {source : String} {first first' : Token} {rest rest' : List Token} {value : Int}

/-- Minus signs and a whole number behind them at the head of some tokens, and their value. -/
inductive SignedNumber : List Token → Int → Prop where
  | number {token : Token} {rest : List Token} {value : Int} (hkind : token.kind = .int value) :
      SignedNumber (token :: rest) value
  | negative {sign : Token} {tokens : List Token} {value : Int} (hkind : sign.kind = .punct .minus)
      (h : SignedNumber tokens value) : SignedNumber (sign :: tokens) (-value)

/-- The signs are followed by a number, whose sign changes with each of them. -/
theorem SignedNumber.eq_append {tokens : List Token} (h : SignedNumber tokens value) :
    ∃ signs number rest magnitude, tokens = signs ++ number :: rest ∧
      (∀ sign ∈ signs, sign.kind = .punct .minus) ∧ number.kind = .int magnitude ∧
      value = (-1) ^ signs.length * magnitude := by
  induction h with
  | @number token rest value hkind => exact ⟨[], token, rest, value, rfl, by simp, hkind, by simp⟩
  | @negative sign tokens value hkind h ih =>
    obtain ⟨signs, number, rest, magnitude, rfl, hsigns, hnumber, rfl⟩ := ih
    refine ⟨sign :: signs, number, rest, magnitude, rfl, List.forall_mem_cons.2 ⟨hkind, hsigns⟩,
      hnumber, ?_⟩
    rw [List.length_cons, pow_succ, mul_neg_one, neg_mul]

/-- Of two ends of a source that start at the same place, one is the other. -/
theorem eq_of_suffix_of_start (h : first :: rest <:+ innerTokens source)
    (h' : first' :: rest' <:+ innerTokens source) (hstart : first.span.start = first'.span.start) :
    first :: rest = first' :: rest' := by
  have hordered : (innerTokens source).Pairwise fun first second ↦
      first.span.start < second.span.start := (pairwise_tokens source).filter _
  -- A token of the rest starts behind the first one.
  have hlater {first first' : Token} {rest rest' : List Token}
      (h : first :: rest <:+ innerTokens source) (hsuffix : first' :: rest' <:+ first :: rest)
      (hstart : first.span.start = first'.span.start) : first' :: rest' = first :: rest := by
    refine (List.suffix_cons_iff.1 hsuffix).resolve_right fun hrest ↦ ?_
    have hbehind := List.rel_of_pairwise_cons (hordered.sublist h.sublist)
      (hrest.subset List.mem_cons_self)
    exact Nat.ne_of_lt hbehind hstart
  rcases List.suffix_or_suffix_of_suffix h h' with hsuffix | hsuffix
  · exact hlater h' hsuffix hstart.symm
  · exact (hlater h hsuffix hstart).symm

/-- Whole numbers are those of the source with the signs in front of them, and no sign is left in
front of one. -/
def Piece.FoldsSigns (source : String) : Piece → Prop
  | expr ⟨.literal (.int value), span⟩ =>
    ∃ first rest, first :: rest <:+ innerTokens source ∧ first.span.start = span.start ∧
      SignedNumber (first :: rest) value
  | expr ⟨.unary ⟨.neg, _⟩ operand, _⟩ => operand.node.isNumber = false
  | _ => True

/-- That signs become part of numbers is a condition on numbers and negations only. -/
def folding (source : String) : Condition source where
  holds := Piece.FoldsSigns source
  plain piece hplain := by
    cases piece with
    | expr value =>
      obtain ⟨node, span⟩ := value
      cases node with
      | literal value =>
        cases value with
        | int value => cases hplain
        | _ => trivial
      | unary op operand =>
        obtain ⟨op, opSpan⟩ := op
        cases op with
        | neg => cases hplain
        | _ => trivial
      | _ => trivial
    | _ => trivial
  number token rest value hsuffix hkind := ⟨token, rest, hsuffix, rfl, .number hkind⟩
  negative sign first rest value inner span hsuffix hkind hinner hspan hvalue := by
    -- The number starts at the token behind the sign, so its tokens are those behind the sign.
    obtain ⟨first', rest', hsuffix', hstart, hnumber⟩ := hvalue
    have hbehind : first :: rest <:+ innerTokens source := (List.suffix_cons _ _).trans hsuffix
    rw [eq_of_suffix_of_start hsuffix' hbehind (hstart.trans hinner)] at hnumber
    exact ⟨sign, first :: rest, hsuffix, hspan.symm, .negative hkind hnumber⟩
  negation _ _ _ hoperand := hoperand

end Signs

section Trees

variable {source : String} {g : Grammar}

theorem folding_on_binary {left right : Expr} {op : Spanned BinaryOp} {span : Span}
    (hleft : (folding source).OnExpr left) (hright : (folding source).OnExpr right) :
    (folding source).OnExpr ⟨.binary left op right, span⟩ :=
  Piece.everywhere_iff.2 ⟨trivial, by
    simpa [Piece.parts, Node.pieces] using ⟨hleft, Condition.on_word, hright⟩⟩

/-- The productions of a grammar make signs part of the numbers behind them. -/
structure Grammar.Folds (source : String) (g : Grammar) : Prop where
  unary : ∀ c : Cursor, c.DrawsFrom source →
    Gives c g.unary fun value c' ↦ (folding source).OnRead c value ∧ c'.DrawsFrom source
  binary : ∀ least, Yields source (g.binary least) (folding source).OnExpr
  expr : Yields source g.expr (folding source).OnExpr
  notOperand : Yields source g.notOperand (folding source).OnExpr

theorem covers_onExpr {condition : Condition source} : condition.Covers condition.OnExpr where
  operand _ h := h.on
  on _ h := h

theorem onExpr_nested {condition : Condition source} {inner : Parse Expr}
    (h : Yields source inner condition.OnExpr) : Yields source (nested inner) condition.OnExpr :=
  h.nested fun span ↦ (onOperand_error span).on

theorem folds_notOperand (hg : g.Folds source) :
    Yields source (notOperand g) (folding source).OnExpr :=
  yields_notOperand covers_onExpr hg.expr hg.notOperand

/-- A grammar that folds signs builds trees with folded signs. -/
theorem Grammar.Folds.builds (hg : g.Folds source) : g.Builds (folding source) where
  unary := hg.unary
  expr := hg.expr
  binary := hg.binary
  notExpr := yields_notExpr covers_onExpr (folds_notOperand hg)
    fun _ _ _ _ hleft hright _ ↦ folding_on_binary hleft hright

/-- A chain of operators adds no sign in front of a number. -/
theorem folds_chain (hg : g.Folds source) (least : Precedence) :
    Yields source (chain g least) (folding source).OnExpr := by
  refine .after fun start ↦ hg.builds.yields_unary.bind fun first hfirst ↦ ?_
  refine .iterate _ hfirst fun left hleft ↦ .after fun c ↦ ?_
  split
  · refine .either (.pure hleft) (.after fun _ ↦ .after fun _ ↦ (hg.builds.binary _).bind
      fun right hright ↦ ?_)
    exact fun c hc ↦ .finish_bind (.pure ⟨folding_on_binary hleft hright, hc⟩)
  · exact .pure hleft

/-- At every nesting level the signs in front of numbers are folded. -/
theorem folds_grammar (source : String) (levels : Nat) : (grammar levels).Folds source := by
  induction levels with
  | zero =>
    have habandon : Yields source (nested abandon) (folding source).OnExpr :=
      onExpr_nested (yields_abandon fun span ↦ (onOperand_error span).on)
    refine ⟨fun c hc ↦ gives_nested_onRead hc fun _ hc ↦ ?_, fun _ ↦ habandon, habandon, habandon⟩
    exact Yields.onRead (yields_abandon onOperand_error) hc
  | succ levels ih =>
    have hassignment : Yields source (assignment (grammar levels)) (folding source).OnExpr :=
      yields_assignment ih.builds covers_onExpr (ih.builds.binary .range)
    exact ⟨fun c hc ↦ gives_nested_onRead hc fun _ hc ↦ gives_operand ih.builds hc,
      fun least ↦ onExpr_nested (folds_chain ih least), onExpr_nested hassignment,
      onExpr_nested (folds_notOperand ih)⟩

/-- In the tree of a source signs are part of the numbers behind them. -/
theorem folds_parse (source : String) : (folding source).OnBody (parse source).file.body :=
  onBody_parse (folds_grammar source maxDepth).builds

end Trees

section Limits

variable {source : String}

/-- A number of 64 bits other than the smallest one is negated exactly. -/
theorem toInt_neg_of_lt {word : Int64} (hlow : -2 ^ 63 < word.toInt) :
    (-word).toInt = -word.toInt := by
  have hhigh := word.toInt_lt
  rw [Int64.toInt_neg]
  exact Int.bmod_eq_of_le (by omega) (by omega)

/-- In 64 bits the sign of a number between `-(2 ^ 63 - 1)` and `2 ^ 63 - 1` can be changed as often
as one likes. -/
theorem toInt_iterate_neg {value : Int} (hlow : -(2 ^ 63 - 1) ≤ value) (hhigh : value ≤ 2 ^ 63 - 1)
    (times : Nat) :
    ((fun word : Int64 ↦ -word)^[times] (Int64.ofInt value)).toInt = (-1) ^ times * value := by
  induction times with
  | zero =>
    rw [Function.iterate_zero_apply, pow_zero, one_mul]
    exact Int64.toInt_ofInt_of_le (by omega) (by omega)
  | succ times ih =>
    rw [Function.iterate_succ_apply', toInt_neg_of_lt, ih, pow_succ, mul_neg_one, neg_mul]
    rcases neg_one_pow_eq_or Int times with hsign | hsign
    all_goals
      rw [ih, hsign]
      omega

/-- A lexical error is reported by the parse. -/
theorem ofLex_mem_errors {error : LexError} (h : error ∈ lexErrors source) :
    ParseError.ofLex error ∈ (parse source).errors := by
  obtain ⟨file, cursor, hrun, hend, hleads⟩ := exists_run streaming source
  have hlast : EofLast cursor.upcoming := hleads.rel.eofLast (Cursor.eofLast_start source)
  have hlexical : cursor.errors.filterMap ParseError.lexical? = lexErrors source := by
    rw [← Cursor.lexical_of_atEnd hlast hend, hleads.rel.lexical_eq, Cursor.lexical_start]
  rw [← hlexical] at h
  obtain ⟨⟨kind, span⟩, hfound, herror⟩ := List.mem_filterMap.1 h
  rw [parse_of_run hrun]
  cases kind with
  | lex kind => cases herror; exact hfound
  | _ => cases herror

/-- A whole number as it is written: minus signs, then a number with its digits. -/
structure WrittenNumber (source : String) (start : Nat) (value : Int) (signs : List Token)
    (number : Token) (base : Base) (digits : List Char) (magnitude : Nat) : Prop where
  tokens : signs ++ [number] <:+: innerTokens source
  minus : ∀ sign ∈ signs, sign.kind = .punct .minus
  kind : number.kind = .int magnitude
  start : ∃ first rest, signs ++ [number] = first :: rest ∧ first.span.start = start
  numeral : Numeral base digits magnitude
  place : StandsAt source digits number.span
  value : value = (-1) ^ signs.length * magnitude

/-- A number of the tokens of a source is written there, and it is not too large. -/
theorem SignedNumber.exists_written {first : Token} {rest : List Token} {value : Int}
    (h : SignedNumber (first :: rest) value) (hsuffix : first :: rest <:+ innerTokens source) :
    ∃ signs number base digits magnitude, magnitude < 2 ^ 63 ∧
      WrittenNumber source first.span.start value signs number base digits magnitude := by
  obtain ⟨signs, number, later, found, htokens, hminus, hkind, hvalue⟩ := h.eq_append
  rw [htokens] at hsuffix
  have hmem : number ∈ tokens source := List.mem_of_mem_filter (hsuffix.subset (by simp))
  obtain ⟨base, digits, magnitude, hnumeral, hplace, rfl, hlt⟩ :=
    exists_numeral_of_mem_tokens hmem hkind
  refine ⟨signs, number, base, digits, magnitude, hlt, ?_, hminus, hkind, ?_, hnumeral, hplace,
    hvalue⟩
  · obtain ⟨front, hfront⟩ := hsuffix
    exact ⟨front, later, by simpa using hfront⟩
  · obtain ⟨first', rest', hfirst⟩ := List.exists_cons_of_ne_nil (List.concat_ne_nil number signs)
    rw [List.append_cons, hfirst] at htokens
    cases htokens
    exact ⟨first, rest', hfirst, rfl⟩

/-- A number with signs in front of it lies between the limits. -/
theorem limits_of_magnitude {magnitude : Nat} (h : magnitude < 2 ^ 63) (times : Nat) :
    -(2 ^ 63 - 1) ≤ (-1) ^ times * (magnitude : Int) ∧
      (-1) ^ times * (magnitude : Int) ≤ 2 ^ 63 - 1 := by
  rcases neg_one_pow_eq_or Int times with hsign | hsign
  all_goals
    rw [hsign]
    omega

/-- Every whole number in the tree of a source is written there with the signs in front of it, and
it is exactly the value of what is written. It lies between `-(2 ^ 63 - 1)` and `2 ^ 63 - 1`, and
changing signs in 64 bits is exact: applying the signs that are written gives its value, and further
changes of its sign give what they should. No sign is left in front of a number.

Where the longest number at the start of a token or an error is a whole number, there is a token
with its value if that is less than `2 ^ 63`, and otherwise an error over the whole number, which
the parse reports. No other token is a whole number, and no other error is of this kind. -/
theorem parse_folds_signs_exactly (source : String) :
    (∀ value span, (Piece.expr ⟨.literal (.int value), span⟩).OccursIn
        (.body (parse source).file.body) →
      ∃ signs number base digits magnitude,
        WrittenNumber source span.start value signs number base digits magnitude ∧
        -(2 ^ 63 - 1) ≤ value ∧ value ≤ 2 ^ 63 - 1 ∧
        ((fun word : Int64 ↦ -word)^[signs.length] (Int64.ofInt magnitude)).toInt = value ∧
        ∀ times, ((fun word : Int64 ↦ -word)^[times] (Int64.ofInt value)).toInt =
          (-1) ^ times * value) ∧
    (∀ opSpan operand span, (Piece.expr ⟨.unary ⟨.neg, opSpan⟩ operand, span⟩).OccursIn
        (.body (parse source).file.body) → operand.node.isNumber = false) ∧
    (∀ item ∈ scan source, ∃ front text, source.toList = front ++ text ∧
      Text.byteLength front = (itemSpan item).start ∧
      (∀ base piece value, LongestNumeral base piece value text →
        item = integerItem value ⟨Text.byteLength front, Text.byteLength (front ++ piece)⟩) ∧
      (isInteger item = true → ∃ base piece value, LongestNumeral base piece value text)) ∧
    ∀ error ∈ lexErrors source, ParseError.ofLex error ∈ (parse source).errors := by
  refine ⟨fun value span hoccurs ↦ ?_, fun opSpan operand span hoccurs ↦ ?_,
    fun _ ↦ exists_text_of_mem_scan, fun _ ↦ ofLex_mem_errors⟩
  · obtain ⟨first, rest, hsuffix, hstart, hnumber⟩ := folds_parse source _ hoccurs
    obtain ⟨signs, number, base, digits, magnitude, hlt, hwritten⟩ :=
      hnumber.exists_written hsuffix
    obtain ⟨hlow, hhigh⟩ := limits_of_magnitude hlt signs.length
    rw [← hwritten.value] at hlow hhigh
    rw [hstart] at hwritten
    refine ⟨signs, number, base, digits, magnitude, hwritten, hlow, hhigh, ?_,
      toInt_iterate_neg hlow hhigh⟩
    rw [toInt_iterate_neg (by omega) (by omega), hwritten.value]
  · exact folds_parse source _ hoccurs

def Piece.number? : Piece → Option Int
  | expr ⟨.literal (.int value), _⟩ => some value
  | _ => none

/-- A piece with a number is a literal and nothing else. -/
theorem Piece.eq_of_number {piece : Piece} {value : Int} (h : piece.number? = some value) :
    ∃ span, piece = .expr ⟨.literal (.int value), span⟩ := by
  unfold Piece.number? at h
  split at h
  · cases h
    exact ⟨_, rfl⟩
  · cases h

/-- The smallest whole number that a tree can hold, written with three signs, and one behind it that
is too large. -/
theorem parse_folds_signs_exactly_at_limits :
    ∃ source span, (Piece.expr ⟨.literal (.int (-9223372036854775807)), span⟩).OccursIn
        (.body (parse source).file.body) ∧
      (∃ signs number base digits magnitude,
        WrittenNumber source span.start (-9223372036854775807) signs number base digits magnitude ∧
        ((fun word : Int64 ↦ -word)^[signs.length] (Int64.ofInt magnitude)).toInt =
          -9223372036854775807) ∧
      ∃ error ∈ lexErrors source, error.kind = .invalidNumber ∧
        ParseError.ofLex error ∈ (parse source).errors := by
  let source := "- - -0x7fff_ffff_ffff_ffff; 9_223_372_036_854_775_808"
  have hrun : (((Piece.body (parse source).file.body).at? [0]).bind Piece.number?,
      (lexErrors source).map LexError.kind) =
      (some (-9223372036854775807), [.invalidNumber]) := by decide +kernel
  obtain ⟨hnumber, herrors⟩ := Prod.mk.inj hrun
  obtain ⟨piece, hpiece, hvalue⟩ := Option.bind_eq_some_iff.1 hnumber
  obtain ⟨span, rfl⟩ := Piece.eq_of_number hvalue
  have hoccurs := Piece.occursIn_of_at hpiece
  obtain ⟨error, hmem, hkind⟩ := List.mem_map.1 (herrors ▸ List.mem_singleton_self _)
  obtain ⟨hnumbers, -, -, hreported⟩ := parse_folds_signs_exactly source
  obtain ⟨signs, number, base, digits, magnitude, hwritten, -, -, hsigns, -⟩ :=
    hnumbers _ span hoccurs
  exact ⟨source, span, hoccurs, ⟨signs, number, base, digits, magnitude, hwritten, hsigns⟩,
    error, hmem, hkind, hreported error hmem⟩

end Limits

end DeclaredMethods.Source
