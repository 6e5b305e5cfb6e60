import DeclaredMethods.Proofs.Building.Operands
import DeclaredMethods.Proofs.Lexing.Partition
import DeclaredMethods.Proofs.Places.Soundness
import Mathlib.Data.List.Nodup

/-!
# How strongly operators bind

The operators that are written as signs stand on a ladder. In a tree the operands of such an
operator are no operations with words. The left one is no weaker operation and the right one a
stronger one, so that operators of the same strength associate to the left; only powers associate to
the right. The words `and` and `or` bind alike, weaker than all signs, and associate to the left.

A chain of operators stops in front of every operator that is too weak for it. So the operator
behind a right operand is not stronger than the one in front of it, and the operation in between may
become its left operand.
-/

namespace DeclaredMethods.Source

open Parse
open Piece (ofBody? ofExprs)

/-- The operators that are written as signs, the weakest first. -/
def ladder : List (List BinaryOp) :=
  [[.range, .exclusiveRange], [.or], [.and], [.eq, .caseEq, .ne, .matches_, .cmp],
    [.lt, .gt, .le, .ge], [.shiftLeft], [.add, .sub], [.mul, .div, .mod], [.pow]]

/-- Where an operator stands on the ladder. -/
def BinaryOp.rung (op : BinaryOp) : Nat :=
  ladder.findIdx fun ops ↦ ops.contains op

/-- The parser compares operators by the rungs they stand on. -/
theorem rank_precedence (op : BinaryOp) : op.precedence.rank = op.rung := by
  cases op <;> rfl

theorem rung_eq_eight_iff (op : BinaryOp) : op.rung = 8 ↔ op = .pow := by
  cases op <;> decide

theorem rung_le_eight (op : BinaryOp) : op.rung ≤ 8 := by
  cases op <;> decide

/-- What may stand on the right of an operator binds more tightly, except behind a power. -/
theorem rank_rightLeast (op : BinaryOp) :
    (rightLeast op).rank = if op = .pow then 8 else op.rung + 1 := by
  cases op <;> rfl

/-- An operator that is too weak for the right operand of another one is no power and not stronger
than the other one. -/
theorem rung_le_of_lt_rightLeast {op inner : BinaryOp} (h : op.rung < (rightLeast inner).rank) :
    op ≠ .pow ∧ op.rung ≤ inner.rung := by
  have hop := rung_eq_eight_iff op
  have hinner := rung_eq_eight_iff inner
  have hle := rung_le_eight inner
  rw [rank_rightLeast] at h
  grind

/-- An operator in the right operand of another one is stronger, or both are powers. -/
theorem of_rightLeast_le_rung {op inner : BinaryOp} (h : (rightLeast op).rank ≤ inner.rung) :
    if op = .pow then inner = .pow else op.rung < inner.rung := by
  have hinner := rung_eq_eight_iff inner
  have hle := rung_le_eight inner
  rw [rank_rightLeast] at h
  grind

def WrittenAsSign (source : String) (op : Spanned BinaryOp) : Prop :=
  ∃ mark : Punct, ⟨.punct mark, op.span⟩ ∈ tokens source ∧ mark.binaryOp? = some op.node

def WrittenAsWord (source : String) (op : Spanned BinaryOp) : Prop :=
  ⟨.keyword .and_, op.span⟩ ∈ tokens source ∧ op.node = .and ∨
    ⟨.keyword .or_, op.span⟩ ∈ tokens source ∧ op.node = .or

/-- Each token of a source starts behind the one before it. -/
theorem pairwise_tokens (source : String) :
    (tokens source).Pairwise fun first second ↦ first.span.start < second.span.start := by
  refine (cut_scan source).pairwise.filterMap _ fun first second hitems token htoken other
    hother ↦ ?_
  cases first with
  | error => cases htoken
  | ok =>
    cases second with
    | error => cases hother
    | ok =>
      cases htoken
      cases hother
      exact hitems.1

/-- No two tokens of a source stand at the same place. -/
theorem eq_of_span_eq {source : String} {token other : Token} (htoken : token ∈ tokens source)
    (hother : other ∈ tokens source) (hspan : token.span = other.span) : token = other := by
  have hnodup : ((tokens source).map fun token ↦ token.span.start).Nodup :=
    List.pairwise_map.2 ((pairwise_tokens source).imp Nat.ne_of_lt)
  exact List.inj_on_of_nodup_map hnodup htoken hother (congrArg Span.start hspan)

/-- No two tokens stand at one place, so an operator that is written as a sign is not written as a
word. -/
theorem not_writtenAsWord {source : String} {op : Spanned BinaryOp}
    (h : WrittenAsSign source op) : ¬WrittenAsWord source op := by
  obtain ⟨mark, hmark, -⟩ := h
  rintro (⟨hword, -⟩ | ⟨hword, -⟩)
  · cases eq_of_span_eq hmark hword rfl
  · cases eq_of_span_eq hmark hword rfl

section Operations

variable {source : String}

/-- An operation with a sign and what its operands are, where these are operations. -/
structure SignOperation (source : String) (left : Expr) (op : Spanned BinaryOp) (right : Expr) :
    Prop where
  sign : WrittenAsSign source op
  left : ∀ inner, left.node.operator? = some inner →
    WrittenAsSign source inner ∧ op.node ≠ .pow ∧ op.node.rung ≤ inner.node.rung
  right : ∀ inner, right.node.operator? = some inner →
    WrittenAsSign source inner ∧
      if op.node = .pow then inner.node = .pow else op.node.rung < inner.node.rung

/-- An operation with a word and what its right operand is, where this is an operation. -/
structure WordOperation (source : String) (op : Spanned BinaryOp) (right : Expr) : Prop where
  word : WrittenAsWord source op
  right : ∀ inner, right.node.operator? = some inner → WrittenAsSign source inner

/-- The operations of a tree are as the strength of their operators demands. -/
def Piece.Graded (source : String) : Piece → Prop
  | expr ⟨.binary left op right, _⟩ =>
    SignOperation source left op right ∨ WordOperation source op right
  | _ => True

/-- That operations are as the strength of their operators demands is a condition on operations
only. -/
def grading (source : String) : Condition source where
  holds := Piece.Graded source
  plain piece hplain := by
    cases piece with
    | expr value =>
      obtain ⟨node, span⟩ := value
      cases node with
      | binary => cases hplain
      | _ => trivial
    | _ => trivial
  number _ _ _ _ _ := trivial
  negative _ _ _ _ _ _ _ _ _ _ _ := trivial
  negation _ _ _ _ := trivial

/-- An operation meets the condition if its operands do and it is graded itself. -/
theorem on_binary {left right : Expr} {op : Spanned BinaryOp} {span : Span}
    (hleft : (grading source).OnExpr left) (hright : (grading source).OnExpr right)
    (h : SignOperation source left op right ∨ WordOperation source op right) :
    (grading source).OnExpr ⟨.binary left op right, span⟩ :=
  Piece.everywhere_iff.2 ⟨h, by
    simpa [Piece.parts, Node.pieces] using ⟨hleft, Condition.on_word, hright⟩⟩

/-- A tree that is no operation with a word. -/
structure Signed (source : String) (value : Expr) : Prop where
  on : (grading source).OnExpr value
  sign : ∀ inner, value.node.operator? = some inner → WrittenAsSign source inner

theorem Condition.OnOperand.signed {value : Expr} (h : (grading source).OnOperand value) :
    Signed source value :=
  ⟨h.on, fun inner hinner ↦ by simp [Node.operator?_of_isPlain h.plain] at hinner⟩

end Operations

/-! ## Chains -/

section Chains

variable {source : String} {g : Grammar} {c : Cursor} {least : Precedence}

/-- No operator that is strong enough stands here. -/
def Cursor.Stops (least : Precedence) (c : Cursor) : Prop :=
  ∀ op, c.current.kind.binaryOp? = some op → op.rung < least.rank

/-- What has been read of a chain of operators is no operation with too weak an operator. -/
structure Linked (source : String) (least : Precedence) (value : Expr) (c : Cursor) : Prop where
  on : (grading source).OnExpr value
  draws : c.DrawsFrom source
  strong : ∀ inner, value.node.operator? = some inner →
    WrittenAsSign source inner ∧ least.rank ≤ inner.node.rung

/-- A whole chain of operators: what follows does not belong to it. -/
structure Chained (source : String) (least : Precedence) (value : Expr) (c : Cursor) : Prop
    extends Linked source least value c where
  stops : c.Stops least

/-- A chain of operators so far: what follows does not belong to its last right operand. -/
structure Chaining (source : String) (least : Precedence) (value : Expr) (c : Cursor) : Prop
    extends Linked source least value c where
  stops : ∀ inner, value.node.operator? = some inner → c.Stops (rightLeast inner.node)

theorem chained_error (span : Span) (hc : c.DrawsFrom source) (hend : c.atEnd = true) :
    Chained source least ⟨.error, span⟩ c where
  on := (onOperand_error span).on
  draws := hc
  strong inner hinner := by cases hinner
  stops op hop := by
    rw [kind_of_atEnd hend] at hop
    cases hop

theorem Chained.signed {value : Expr} (h : Chained source least value c) : Signed source value :=
  ⟨h.on, fun inner hinner ↦ (h.strong inner hinner).1⟩

/-- An operand starts a chain at every precedence. -/
theorem Condition.OnRead.chaining {value : Expr} {c₀ : Cursor}
    (h : (grading source).OnRead c₀ value) (hc : c.DrawsFrom source) :
    Chaining source least value c :=
  ⟨⟨h.on, hc, fun inner hinner ↦ by simp [h.operator?_eq] at hinner⟩,
    fun inner hinner ↦ by simp [h.operator?_eq] at hinner⟩

/-- A sign is a token of the source. -/
theorem writtenAsSign_current {op : BinaryOp} (hc : c.DrawsFrom source)
    (hop : c.current.kind.binaryOp? = some op) : WrittenAsSign source ⟨op, c.current.span⟩ := by
  cases hkind : c.current.kind with
  | punct mark =>
    rw [hkind] at hop
    refine ⟨mark, ?_, hop⟩
    rw [← hkind]
    exact hc.current_mem (atEnd_of_kind hkind rfl)
  | _ =>
    rw [hkind] at hop
    cases hop

/-- The operator at the cursor takes a chain so far as its left operand, and a chain of stronger
operators as its right one. -/
theorem Chaining.signOperation {left right : Expr} {op : BinaryOp} {c' : Cursor}
    (h : Chaining source least left c) (hop : c.current.kind.binaryOp? = some op)
    (hright : Chained source (rightLeast op) right c') :
    SignOperation source left ⟨op, c.current.span⟩ right where
  sign := writtenAsSign_current h.draws hop
  left inner hinner :=
    ⟨(h.strong inner hinner).1, rung_le_of_lt_rightLeast (h.stops inner hinner op hop)⟩
  right inner hinner :=
    ⟨(hright.strong inner hinner).1, of_rightLeast_le_rung (hright.strong inner hinner).2⟩

/-- The productions of a grammar give operations that are as the strength of their operators
demands. -/
structure Grammar.Graded (source : String) (g : Grammar) : Prop where
  unary : ∀ c : Cursor, c.DrawsFrom source →
    Gives c g.unary fun value c' ↦ (grading source).OnRead c value ∧ c'.DrawsFrom source
  binary : ∀ least (c : Cursor), c.DrawsFrom source →
    Gives c (g.binary least) (Chained source least)
  expr : Yields source g.expr (Signed source)
  notOperand : Yields source g.notOperand (Signed source)

theorem gives_nested_chained {inner : Parse Expr} (hc : c.DrawsFrom source)
    (h : ∀ c : Cursor, c.DrawsFrom source → Gives c inner (Chained source least)) :
    Gives c (nested inner) (Chained source least) :=
  gives_nested hc (h _ (hc.of_upcoming_eq rfl))
    (fun _ _ _ h ↦ ⟨⟨h.on, h.draws.of_upcoming_eq rfl, h.strong⟩, h.stops⟩)
    fun span _ ↦ chained_error span

/-- A chain of operators is graded: each stands where the ladder allows it. -/
theorem gives_chain (hg : g.Graded source) (least : Precedence) (hc : c.DrawsFrom source) :
    Gives c (chain g least) (Chained source least) := by
  refine .currentStart_bind ((hg.unary c hc).bind fun first c₁ hfirst ↦ ?_)
  refine gives_iterate (Chaining source least) (hfirst.1.chaining hfirst.2) fun left c₂ hleft ↦
    .get_bind ?_
  split
  · rename_i op hop
    rw [rank_precedence]
    split
    · rename_i hweak
      refine .pure ⟨hleft.toLinked, fun other hother ↦ ?_⟩
      rw [hop] at hother
      cases hother
      exact hweak
    · rename_i hstrong
      refine .advance_bind ((Keeps.yields _ hleft.draws.advance).bind fun _ c₃ hskip ↦ ?_)
      refine (hg.binary _ _ hskip.2).bind fun right c₄ hright ↦ .finish_bind (.pure ?_)
      -- The new operation is the chain so far, and what follows is too weak for its right operand.
      have hoperation := hleft.signOperation hop hright
      refine ⟨⟨on_binary hleft.on hright.on (.inl hoperation), hright.draws, fun inner hinner ↦ ?_⟩,
        fun inner hinner ↦ ?_⟩
      · cases hinner
        exact ⟨hoperation.sign, Nat.le_of_not_lt hstrong⟩
      · cases hinner
        exact hright.stops
  · rename_i hnone
    refine .pure ⟨hleft.toLinked, fun other hother ↦ ?_⟩
    rw [hnone] at hother
    cases hother

end Chains

section Words

variable {source : String} {condition : Condition source} {post : Expr → Prop} {g : Grammar}
  {c : Cursor}

/-- Expressions in which a condition is met, all plain ones among them. -/
structure Condition.Covers (condition : Condition source) (post : Expr → Prop) : Prop where
  operand : ∀ value, condition.OnOperand value → post value
  on : ∀ value, post value → condition.OnExpr value

theorem writtenAsWord_current {op : BinaryOp} (hc : c.DrawsFrom source)
    (hop : wordOp? c.current.kind = some op) : WrittenAsWord source ⟨op, c.current.span⟩ := by
  have hmem (word : Keyword) (hkind : c.current.kind = .keyword word) :
      (⟨.keyword word, c.current.span⟩ : Token) ∈ tokens source := by
    rw [← hkind]
    exact hc.current_mem (atEnd_of_kind hkind rfl)
  unfold wordOp? at hop
  split at hop
  · rename_i hkind
    cases hop
    exact .inl ⟨hmem _ hkind, rfl⟩
  · rename_i hkind
    cases hop
    exact .inr ⟨hmem _ hkind, rfl⟩
  · cases hop

/-- The word `not` adds nothing but a negation. -/
theorem yields_notOperand (hpost : condition.Covers post) (hexpr : Yields source g.expr post)
    (hnot : Yields source g.notOperand post) : Yields source (notOperand g) post := by
  refine .after fun start ↦ .after fun _ ↦ .either (.after fun opSpan ↦ .after fun _ ↦ ?_) hexpr
  refine hnot.bind fun inner hinner ↦ ?_
  exact (yields_finish ⟨rfl, by simp [Node.pieces, hpost.on inner hinner]⟩ start).mono hpost.operand

/-- Operations with words are read from the left: a whole operation may be the left operand of the
next one. -/
theorem yields_notExpr (hpost : condition.Covers post)
    (hoperand : Yields source (notOperand g) post)
    (hbinary : ∀ left op right span, condition.OnExpr left → post right →
      WrittenAsWord source op → condition.OnExpr ⟨.binary left op right, span⟩) :
    Yields source (notExpr g) condition.OnExpr := by
  refine .after fun start ↦ hoperand.bind fun first hfirst ↦ ?_
  refine .iterate _ (hpost.on first hfirst) fun left hleft c hc ↦ .currentKind_bind ?_
  split
  · rename_i op hop
    have hword := writtenAsWord_current hc hop
    refine .currentSpan_bind (.advance_bind ((Keeps.yields _ hc.advance).bind fun _ c₁ hskip ↦ ?_))
    refine (hoperand c₁ hskip.2).bind fun right c₂ hright ↦ .finish_bind (.pure ?_)
    exact ⟨hbinary left _ right _ hleft hright.1 hword, hright.2⟩
  · exact .pure ⟨hleft, hc⟩

theorem yields_ternary (hg : g.Builds condition) (start : Nat) {test : Expr}
    (h : condition.OnExpr test) : Yields source (ternary g start test) condition.OnOperand := by
  refine .after fun _ ↦ hg.expr.bind fun thenExpr hthen ↦ .after fun _ ↦ .after fun _ ↦
    .after fun _ ↦ hg.expr.bind fun elseExpr helse ↦ ?_
  exact yields_finish ⟨rfl, by
    simp [Node.pieces, ofBody?, Body.single, ofExprs, h, hthen, helse]⟩ start

/-- An assignment or a conditional expression, or what is read as a range. -/
theorem yields_assignment (hg : g.Builds condition) (hpost : condition.Covers post)
    (hbinary : Yields source (g.binary .range) post) : Yields source (assignment g) post := by
  refine .after fun start ↦ hbinary.bind fun left hleft ↦ .after fun c ↦ ?_
  split
  · refine .after fun _ ↦ .after fun _ ↦ (yields_assignTarget (hpost.on left hleft)).bind
      fun target htarget ↦ hg.expr.bind fun value hvalue ↦ ?_
    exact (yields_finish ⟨rfl, by simp [Node.pieces, htarget, hvalue]⟩ start).mono hpost.operand
  · exact .after fun eaten ↦ .either
      ((yields_ternary hg start (hpost.on left hleft)).mono hpost.operand) (.pure hleft)

end Words

/-! ## Whole trees -/

section Trees

variable {source : String} {g : Grammar} {c : Cursor}

/-- Plain expressions are no operations with a word. -/
theorem covers_signed : (grading source).Covers (Signed source) where
  operand _ h := h.signed
  on _ h := h.on

theorem signed_notOperand (hg : g.Graded source) :
    Yields source (notOperand g) (Signed source) :=
  yields_notOperand covers_signed hg.expr hg.notOperand

theorem Grammar.Graded.builds (hg : g.Graded source) : g.Builds (grading source) where
  unary := hg.unary
  expr := hg.expr.mono fun _ hvalue ↦ hvalue.on
  binary least c hc := (hg.binary least c hc).mono fun _ _ hvalue ↦ ⟨hvalue.on, hvalue.draws⟩
  -- An operation with a word may be the left operand of another one, but not the right one.
  notExpr := yields_notExpr covers_signed (signed_notOperand hg)
    fun _ _ _ _ hleft hright hword ↦ on_binary hleft hright.on (.inr ⟨hword, hright.sign⟩)

theorem signed_assignment (hg : g.Graded source) :
    Yields source (assignment g) (Signed source) :=
  yields_assignment hg.builds covers_signed fun _ hc ↦
    (hg.binary .range _ hc).mono fun _ _ hvalue ↦ ⟨hvalue.signed, hvalue.draws⟩

theorem signed_nested {inner : Parse Expr} (h : Yields source inner (Signed source)) :
    Yields source (nested inner) (Signed source) :=
  h.nested fun span ↦ (onOperand_error span).signed

/-- Where expressions are nested too deeply the grammar only gives up. -/
theorem graded_exhausted (source : String) : (grammar 0).Graded source where
  unary _ hc := gives_nested_onRead hc fun _ hc ↦ (yields_abandon onOperand_error).onRead hc
  binary _ c hc := gives_nested_chained hc fun c hc ↦ by
    refine (gives_abandon hc).mono fun value c' habandon ↦ ?_
    obtain ⟨rfl, hdraws, hend⟩ := habandon
    exact chained_error _ hdraws hend
  expr := signed_nested (yields_abandon fun span ↦ (onOperand_error span).signed)
  notOperand := signed_nested (yields_abandon fun span ↦ (onOperand_error span).signed)

/-- At every nesting level operations are graded. -/
theorem graded_grammar (source : String) (levels : Nat) : (grammar levels).Graded source := by
  induction levels with
  | zero => exact graded_exhausted source
  | succ levels ih =>
    exact ⟨fun _ hc ↦ gives_nested_onRead hc fun _ hc ↦ gives_operand ih.builds hc,
      fun least _ hc ↦ gives_nested_chained hc fun _ hc ↦ gives_chain ih least hc,
      signed_nested (signed_assignment ih), signed_nested (signed_notOperand ih)⟩

/-- A condition that the expressions of a source meet holds in its whole tree. -/
theorem onBody_parse {condition : Condition source} (hg : fullGrammar.Builds condition) :
    condition.OnBody (parse source).file.body := by
  obtain ⟨file, cursor, hrun, -, -⟩ := exists_run onward source
  have hyields : Yields source (sourceFile fullGrammar) fun file ↦ condition.OnBody file.body :=
    (yields_body hg .eof).bind fun _ hbody ↦ .after fun _ ↦ .pure hbody
  rw [parse_of_run hrun]
  exact ((hyields _ (.start source)).of_run hrun).1

/-- The operations of the tree of a source are as the strength of their operators demands. -/
theorem graded_parse (source : String) :
    (grading source).OnBody (parse source).file.body :=
  onBody_parse (graded_grammar source maxDepth).builds

/-- What starts with a parenthesis is read as such, whatever stands inside. -/
theorem node_of_primary_paren {value : Expr} {c' : Cursor}
    (hkind : c.current.kind = .punct .leftParen) (hrun : primary g c = some (value, c')) :
    ∃ inner, value.node = .paren inner := by
  have hgives : Gives c (primary g) fun value _ ↦ ∃ inner, value.node = .paren inner := by
    refine .currentKind_bind ?_
    rw [hkind]
    refine .currentStart_bind (.advance_bind ?_)
    refine .any_bind fun inner _ ↦ .any_bind fun _ _ ↦ ?_
    exact .spanFrom_bind (.pure ⟨inner, rfl⟩)
  exact hgives.of_run hrun

/-- In the tree of a source, every binary operator is either a sign or one of the words `and` and
`or`. For a sign, the right operand is no binary operation, or one with a sign that binds more
strongly or, for a power, a power; the left operand is no binary operation, or one with a sign that
binds no less strongly, and that only if the operator is no power. For a word, the right operand is
no operation with a word. An operand in parentheses is read as such, so it is no operation. -/
theorem parse_respects_strength (source : String) :
    (∀ left op right span, (Piece.expr ⟨.binary left op right, span⟩).OccursIn
        (.body (parse source).file.body) →
      (WrittenAsSign source op ∧ ¬WrittenAsWord source op ∨
        WrittenAsWord source op ∧ ¬WrittenAsSign source op) ∧
      (WrittenAsSign source op →
        (∀ inner, right.node.operator? = some inner → WrittenAsSign source inner ∧
          if op.node = .pow then inner.node = .pow else op.node.rung < inner.node.rung) ∧
        ∀ inner, left.node.operator? = some inner → WrittenAsSign source inner ∧
          op.node ≠ .pow ∧ op.node.rung ≤ inner.node.rung) ∧
      (WrittenAsWord source op → ∀ inner, right.node.operator? = some inner →
        ¬WrittenAsWord source inner)) ∧
    ∀ g c value c', c.current.kind = .punct .leftParen → primary g c = some (value, c') →
      ∃ inner, value.node = .paren inner := by
  refine ⟨fun left op right span hoccurs ↦ ?_, fun _ _ _ _ ↦ node_of_primary_paren⟩
  rcases graded_parse source _ hoccurs with hsign | hword
  · have hnot := not_writtenAsWord hsign.sign
    exact ⟨.inl ⟨hsign.sign, hnot⟩, fun _ ↦ ⟨hsign.right, hsign.left⟩, fun h ↦ absurd h hnot⟩
  · have hnot : ¬WrittenAsSign source op := fun h ↦ not_writtenAsWord h hword.word
    exact ⟨.inr ⟨hword.word, hnot⟩, fun h ↦ absurd h hnot, fun _ inner hinner ↦
      not_writtenAsWord (hword.right inner hinner)⟩

def Piece.operator? : Piece → Option (Spanned BinaryOp)
  | expr value => value.node.operator?
  | _ => none

/-- A piece with an operator is a binary operation. -/
theorem Piece.eq_of_operator {piece : Piece} {op : Spanned BinaryOp}
    (h : piece.operator? = some op) :
    ∃ left right span, piece = .expr ⟨.binary left op right, span⟩ := by
  cases piece with
  | expr value =>
    obtain ⟨node, span⟩ := value
    cases node with
    | binary left found right =>
      cases h
      exact ⟨left, right, span, rfl⟩
    | _ => cases h
  | _ => cases h

/-- A difference whose left operand is a difference and whose right operand is a power. -/
theorem parse_respects_strength_in_difference :
    ∃ source left op right span, (Piece.expr ⟨.binary left op right, span⟩).OccursIn
        (.body (parse source).file.body) ∧
      (∃ inner, left.node.operator? = some inner ∧ op.node.rung ≤ inner.node.rung) ∧
      ∃ inner, right.node.operator? = some inner ∧ op.node.rung < inner.node.rung := by
  let source := "a - b * c - d ** e ** f"
  let whole := Piece.body (parse source).file.body
  have hrun : [[0], [0, 0], [0, 2]].map (fun path ↦
      ((whole.at? path).bind Piece.operator?).map Spanned.node) =
      [some .sub, some .sub, some .pow] := by decide +kernel
  simp only [List.map_cons, List.map_nil, List.cons.injEq] at hrun
  obtain ⟨hwhole, hfirst, hsecond, -⟩ := hrun
  obtain ⟨op, hop, hsub⟩ := Option.map_eq_some_iff.1 hwhole
  obtain ⟨piece, hpiece, hop⟩ := Option.bind_eq_some_iff.1 hop
  obtain ⟨left, right, span, rfl⟩ := Piece.eq_of_operator hop
  have hpart (index : Nat) : whole.at? [0, index] =
      (Piece.expr ⟨.binary left op right, span⟩).at? [index] := by
    rw [← List.singleton_append, Piece.at?_append, hpiece, Option.bind_some]
  rw [hpart] at hfirst hsecond
  obtain ⟨first, hfirst, -⟩ := Option.map_eq_some_iff.1 hfirst
  obtain ⟨second, hsecond, -⟩ := Option.map_eq_some_iff.1 hsecond
  have hoccurs := Piece.occursIn_of_at hpiece
  obtain ⟨hwritten, hsign, -⟩ := (parse_respects_strength source).1 left op right span hoccurs
  have hnoWord : ¬WrittenAsWord source op := by
    rintro (⟨-, hand⟩ | ⟨-, hor⟩)
    · rw [hsub] at hand
      cases hand
    · rw [hsub] at hor
      cases hor
  obtain ⟨hright, hleft⟩ := hsign (hwritten.resolve_right fun hword ↦ hnoWord hword.1).1
  have hstronger := (hright second hsecond).2
  rw [if_neg (by rw [hsub]; decide)] at hstronger
  exact ⟨source, left, op, right, span, hoccurs, ⟨first, hfirst, (hleft first hfirst).2.2⟩,
    second, hsecond, hstronger⟩

end Trees

end DeclaredMethods.Source
