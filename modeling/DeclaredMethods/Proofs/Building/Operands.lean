import DeclaredMethods.Proofs.Building.Statements
import DeclaredMethods.Source.Parser

/-!
# Building operands

Blocks, calls, conditionals, definitions and literals with the calls and prefix operators around
them are operands: none of them is a binary operation itself, and what they are made of meets every
condition that the expressions inside them meet.
-/

namespace DeclaredMethods.Source

open Parse
open Piece (ofExpr? ofBody? ofExprs)

variable {source : String} {condition : Condition source} {g : Grammar} (hg : g.Builds condition)

section Blocks

instance keeps_paramName : Keeps source paramName? where
  yields := by
    refine .after fun kind ↦ ?_
    split
    · exact .after fun _ ↦ .pure trivial
    · exact .pure trivial

include hg

theorem yields_keywordDefault (closer : Option Punct) :
    Yields source (keywordDefault g closer) fun default ↦ condition.OnAll (ofExpr? default) :=
  .after fun c ↦ .either (.pure Condition.onAll_nil)
    ((hg.binary _).bind fun value hvalue ↦ .pure (by simpa [ofExpr?]))

theorem yields_namedParam (closer : Option Punct) :
    Yields source (namedParam g closer) fun param ↦ condition.OnAll (ofExpr? param.2) := by
  refine .after fun c ↦ .either ?_ ?_
  · exact .after fun _ ↦ .after fun _ ↦ (yields_keywordDefault hg closer).bind
      fun _ hdefault ↦ .pure hdefault
  · refine .after fun _ ↦ .after fun eaten ↦ .either ?_ (.pure Condition.onAll_nil)
    exact (hg.binary _).bind fun value hvalue ↦ .pure (by simpa [ofExpr?])

theorem yields_param (closer : Option Punct)
    {destructured : Parse (List Param)} [Keeps source destructured] :
    Yields source (param? g closer destructured) fun param ↦
      condition.OnAll (param.toList.map .param) := by
  refine .after fun start ↦ Preserves.bind (?_ : Yields source _
    fun parts ↦ condition.OnAll (ofExpr? (parts.bind fun parts ↦ parts.2.2))) fun parts hparts ↦ ?_
  · refine .after fun kind ↦ ?_
    split
    case h_4 => exact .after fun _ ↦ .pure Condition.onAll_nil
    case h_5 => exact (yields_namedParam hg closer).bind fun _ hdefault ↦ .pure hdefault
    case h_6 =>
      exact .after fun _ ↦ .after fun inner ↦ .after fun _ ↦ .after fun _ ↦
        .pure Condition.onAll_nil
    case h_7 => exact .after fun _ ↦ .pure Condition.onAll_nil
    all_goals exact .after fun _ ↦ .after fun _ ↦ .pure Condition.onAll_nil
  · split
    · exact .after fun span ↦ .pure (by simpa using hparts)
    · exact .pure Condition.onAll_nil

/-- Parameters can be destructured into parameters, as deeply as the bound allows. -/
theorem yields_paramListUpTo (bound : Nat) (closer : Option Punct) :
    Yields source (paramListUpTo g bound closer) fun params ↦
      condition.OnAll (params.map .param) := by
  induction bound generalizing closer with
  | zero => exact fun _ _ ↦ triple_failure
  | succ bound ih =>
    have hinner : Keeps source (paramListUpTo g bound (some .rightParen)) :=
      ⟨(ih _).mono fun _ _ ↦ trivial⟩
    refine .iterate _ Condition.onAll_nil fun params hparams ↦ .optional (.after fun c ↦
      .either (.pure hparams) ((yields_param hg closer).bind fun param hparam ↦ ?_))
    split
    · exact .pure hparams
    · rename_i param
      have hmore : condition.OnAll ((params ++ [param]).map .param) := by simp_all
      exact .after fun eaten ↦ .either (.pure hmore) (.pure hmore)

theorem yields_paramList (closer : Option Punct) :
    Yields source (paramList g closer) fun params ↦ condition.OnAll (params.map .param) :=
  .after fun _ ↦ yields_paramListUpTo hg _ closer

theorem yields_enclosedParams (closer : Punct) (expected : String) :
    Yields source (do
      let params ← paramList g (some closer)
      expect closer expected
      return params) fun params ↦ condition.OnAll (params.map .param) :=
  (yields_paramList hg _).bind fun _ hparams ↦ .after fun _ ↦ .pure hparams

theorem yields_blockParams :
    Yields source (blockParams g) fun params ↦ condition.OnAll (params.map .param) := by
  refine .after fun eaten ↦ .either (.pure Condition.onAll_nil) (.after fun eaten ↦
    .either ?_ (.pure Condition.onAll_nil))
  exact (yields_paramList hg _).bind fun _ hparams ↦ .after fun _ ↦ .after fun _ ↦ .pure hparams

omit hg in
/-- Parameters and a body all of whose pieces meet a condition. -/
def Condition.OnInside (condition : Condition source) (inside : List Param × Body) : Prop :=
  condition.OnAll (inside.1.map .param) ∧ condition.OnBody inside.2

omit hg in
/-- A block is read in a scope of its own. -/
theorem yields_scopedBlock {inside : Parse (List Param × Body)} (start : Nat)
    (h : Yields source inside condition.OnInside) :
    Yields source (do
      let inside ← inScope true inside
      return Block.mk inside.1 inside.2 (← spanFrom start)) fun block ↦
      condition.On (.block block) :=
  (h.inScope true).bind fun _ hinside ↦ .after fun _ ↦ .pure (Condition.on_block.2 hinside)

theorem yields_braceBlock :
    Yields source (braceBlock g) fun block ↦ condition.On (.block block) := by
  refine .after fun start ↦ .after fun _ ↦ yields_scopedBlock start ?_
  refine (yields_blockParams hg).bind fun params hparams ↦ ?_
  refine ((yields_body hg _).withDo true).bind fun inner hinner ↦ ?_
  exact .after fun _ ↦ .pure ⟨hparams, hinner⟩

theorem yields_doBlock : Yields source (doBlock g) fun block ↦ condition.On (.block block) := by
  refine .after fun start ↦ .after fun _ ↦ yields_scopedBlock start ?_
  refine (yields_blockParams hg).bind fun params hparams ↦ ?_
  refine ((yields_rescuedBody hg).withDo true).bind fun inner hinner ↦ ?_
  exact .after fun _ ↦ .pure ⟨hparams, hinner⟩

theorem yields_lambdaParams :
    Yields source (lambdaParams g) fun params ↦ condition.OnAll (params.map .param) := by
  refine .after fun eaten ↦ .either (yields_enclosedParams hg _ _) (.after fun kind ↦ ?_)
  split
  · exact yields_paramList hg _
  · exact .pure Condition.onAll_nil

theorem yields_lambdaBody : Yields source (lambdaBody g) condition.OnBody := by
  refine .after fun eaten ↦ .either ?_ (.after fun eaten ↦ .either ?_ ?_)
  · exact ((yields_body hg _).withDo true).bind fun _ hinner ↦ .after fun _ ↦ .pure hinner
  · exact ((yields_rescuedBody hg).withDo true).bind fun _ hinner ↦ .after fun _ ↦ .pure hinner
  · exact .after fun _ ↦ .after fun span ↦ .pure (Condition.on_body.2 Condition.onAll_nil)

theorem yields_lambda (start : Nat) :
    Yields source (lambda g start) fun block ↦ condition.On (.block block) := by
  refine yields_scopedBlock start ?_
  refine (yields_lambdaParams hg).bind fun params hparams ↦ .after fun _ ↦ ?_
  exact (yields_lambdaBody hg).bind fun inner hinner ↦ .pure ⟨hparams, hinner⟩

end Blocks

section Calls

include hg

theorem yields_callArguments :
    Yields source (callArguments g) fun args ↦ condition.OnAll args.pieces :=
  .after fun _ ↦ .either (.after fun _ ↦ yields_enclosedArguments hg _ _)
    (.either ((yields_argumentList hg none).withDo false) (.pure Condition.onAll_nil))

theorem yields_callBlock :
    Yields source (callBlock? g) fun block ↦ condition.OnAll (block.toList.map .block) :=
  .after fun c ↦ .either ((yields_braceBlock hg).bind fun block hblock ↦ .pure (by simpa))
    (.either ((yields_doBlock hg).bind fun block hblock ↦ .pure (by simpa))
      (.pure Condition.onAll_nil))

/-- The receiver of a call is passed in and becomes one of its pieces. -/
theorem yields_callTail {receiver : Option Expr} (name : Spanned String)
    (safeNavigation : Bool) (start : Nat) (h : condition.OnAll (ofExpr? receiver)) :
    Yields source (callTail g receiver name safeNavigation start) condition.OnOperand := by
  refine (yields_callArguments hg).bind fun args hargs ↦ ?_
  refine (yields_callBlock hg).bind fun block hblock ↦ ?_
  exact yields_finish ⟨rfl, by simp [Node.pieces, h, hargs, hblock]⟩ start

end Calls

section Control

include hg

/-- The branches behind `elsif` are conditionals themselves. -/
theorem yields_conditionalUpTo (bound : Nat) (negated : Bool) :
    Yields source (conditionalUpTo g bound negated) condition.OnNode := by
  induction bound generalizing negated with
  | zero => exact fun _ _ ↦ triple_failure
  | succ bound ih =>
    refine hg.notExpr.bind fun test htest ↦ .after fun _ ↦ ?_
    refine (yields_body hg _).bind fun thenBranch hthen ↦ .after fun c ↦ ?_
    split
    · refine .after fun _ ↦ (ih false).bind fun inner hinner ↦ .after fun span ↦ .pure ⟨rfl, ?_⟩
      simp [Node.pieces, ofBody?, ofExprs, htest, hthen, (hinner.onOperand span).on]
    · refine .after fun _ ↦ (yields_body hg _).bind fun elseBranch helse ↦ .pure ⟨rfl, ?_⟩
      simp [Node.pieces, ofBody?, htest, hthen, helse]
    · exact .pure ⟨rfl, by simp [Node.pieces, ofBody?, htest, hthen]⟩

theorem yields_conditional (negated : Bool) :
    Yields source (conditional g negated) condition.OnOperand :=
  .after fun start ↦ .after fun _ ↦ .after fun _ ↦
    (yields_conditionalUpTo hg _ negated).bind fun _ hnode ↦
      .after fun _ ↦ yields_finish hnode start

theorem yields_loop (negated : Bool) : Yields source (loop g negated) condition.OnOperand := by
  refine .after fun start ↦ .after fun _ ↦ (hg.notExpr.withDo false).bind fun test htest ↦ ?_
  refine .after fun _ ↦ (yields_body hg _).bind fun inner hinner ↦ .after fun _ ↦ ?_
  exact yields_finish ⟨rfl, by simp [Node.pieces, htest, hinner]⟩ start

theorem yields_whenClauses :
    Yields source (whenClauses g) fun whens ↦
      condition.OnAll (whens.flatMap WhenClause.pieces) := by
  refine .iterate _ Condition.onAll_nil fun whens hwhens ↦ .after fun eaten ↦
    .either ?_ (.pure hwhens)
  refine hg.expr.bind fun first hfirst ↦ ?_
  refine (yields_whileComma (yields_exprBehindNewlines hg) (by simpa [ofExprs])).bind
    fun patterns hpatterns ↦ .after fun _ ↦ (yields_body hg _).bind fun inner hinner ↦ .pure ?_
  simp_all [WhenClause.pieces, Round.value]

theorem yields_caseSubject :
    Yields source (caseSubject? g) fun subject ↦ condition.OnAll (ofExpr? subject) :=
  .after fun c ↦ .either (.pure Condition.onAll_nil)
    (hg.notExpr.bind fun value hvalue ↦ .pure (by simpa [ofExpr?]))

theorem yields_caseDistinction : Yields source (caseDistinction g) condition.OnOperand := by
  refine .after fun start ↦ .after fun _ ↦ (yields_caseSubject hg).bind fun subject hsubject ↦ ?_
  refine .after fun _ ↦ (yields_whenClauses hg).bind fun whens hwhens ↦ .optional ?_
  refine (yields_bodyBehind hg _ _).bind fun elseBranch helse ↦ .after fun _ ↦ ?_
  exact yields_finish ⟨rfl, by simp [Node.pieces, hsubject, hwhens, helse]⟩ start

end Control

/-! ## Definitions -/

section Definitions

instance keeps_constSegments (first : String) : Keeps source (constSegments first) where
  yields := by
    refine .iterate _ trivial fun _ _ ↦ .after fun c ↦ ?_
    split
    · exact .after fun _ ↦ .after fun _ ↦ .pure trivial
    · exact .pure trivial

instance keeps_constPath : Keeps source constPath? where
  yields := by
    refine .after fun start ↦ .after fun absolute ↦ .after fun kind ↦ ?_
    split
    · exact .after fun _ ↦ .after fun _ ↦ .after fun _ ↦ .pure trivial
    · exact .after fun _ ↦ .pure trivial

include hg

theorem yields_skipDefinition (start : Nat) :
    Yields source (skipDefinition g start) condition.OnOperand :=
  ((yields_body hg _).inScope false).bind fun _ _ ↦ .after fun _ ↦
    yields_finish ⟨rfl, Condition.onAll_nil⟩ start

theorem yields_singletonClass (start : Nat) :
    Yields source (singletonClass g start) condition.OnOperand := by
  refine hg.expr.bind fun target htarget ↦ ((yields_body hg _).inScope false).bind
    fun inner hinner ↦ .after fun _ ↦ ?_
  exact yields_finish ⟨rfl, by simp [Node.pieces, htarget, hinner]⟩ start

theorem yields_superclass :
    Yields source (superclass? g) fun superclass ↦ condition.OnAll (ofExpr? superclass) :=
  .after fun eaten ↦ .either (hg.expr.bind fun value hvalue ↦ .pure (by simpa [ofExpr?]))
    (.pure Condition.onAll_nil)

theorem yields_classDefinition : Yields source (classDefinition g) condition.OnOperand := by
  refine .after fun start ↦ .after fun _ ↦ .after fun eaten ↦
    .either (yields_singletonClass hg start) (.after fun name ↦ ?_)
  split
  · exact yields_skipDefinition hg start
  · refine (yields_superclass hg).bind fun superclass hsuperclass ↦ ?_
    refine ((yields_rescuedBody hg).inScope false).bind fun inner hinner ↦ .after fun _ ↦ ?_
    exact yields_finish ⟨rfl, by simp [Node.pieces, hsuperclass, hinner]⟩ start

theorem yields_moduleDefinition : Yields source (moduleDefinition g) condition.OnOperand := by
  refine .after fun start ↦ .after fun _ ↦ .after fun name ↦ ?_
  split
  · exact yields_skipDefinition hg start
  · refine ((yields_body hg _).inScope false).bind fun inner hinner ↦ .after fun _ ↦ ?_
    exact yields_finish ⟨rfl, by simp [Node.pieces, hinner]⟩ start

omit hg in
theorem yields_definitionReceiver (condition : Condition source) :
    Yields source definitionReceiver? fun receiver ↦ condition.OnAll (ofExpr? receiver) := by
  refine .after fun c ↦ ?_
  dsimp only
  split
  · rename_i node _ hnode
    have hplain : node.isPlain = true ∧ node.pieces = [] := by
      split at hnode
      all_goals cases hnode
      all_goals exact ⟨rfl, rfl⟩
    have hreceiver : condition.OnNode node := ⟨hplain.1, by simp [hplain.2]⟩
    exact .after fun _ ↦ .after fun _ ↦ .pure (by simpa [ofExpr?] using (hreceiver.onOperand _).on)
  · exact .pure Condition.onAll_nil

omit hg in
instance keeps_baseMethodName : Keeps source baseMethodName? where
  yields := by
    refine .after fun kind ↦ ?_
    split
    case h_4 => exact .after fun _ ↦ .after fun eaten ↦ .either (.pure trivial) (.pure trivial)
    case h_5 =>
      split
      · exact .after fun _ ↦ .pure trivial
      · exact .pure trivial
    case h_6 => exact .pure trivial
    all_goals exact .after fun _ ↦ .pure trivial

omit hg in
instance keeps_definitionName : Keeps source definitionName? where
  yields := by
    refine .after fun start ↦ .after fun name ↦ ?_
    split
    · exact .pure trivial
    · exact .after fun c ↦ .either (.after fun _ ↦ .after fun _ ↦ .pure trivial)
        (.after fun _ ↦ .pure trivial)

theorem yields_definitionParams :
    Yields source (definitionParams g) fun params ↦ condition.OnAll (params.map .param) :=
  .after fun _ ↦ .either (.after fun _ ↦ yields_enclosedParams hg _ _)
    (.either (.pure Condition.onAll_nil) (yields_paramList hg none))

theorem yields_definitionBody : Yields source (definitionBody g) condition.OnBody := by
  refine .after fun eaten ↦ .either ?_ ?_
  · refine .after fun _ ↦ .after fun start ↦ (yields_statement hg).bind fun value hvalue ↦ ?_
    exact .after fun span ↦ .pure (by simpa [ofExprs])
  · exact (yields_rescuedBody hg).bind fun _ hinner ↦ .after fun _ ↦ .pure hinner

theorem yields_methodDefinition : Yields source (methodDefinition g) condition.OnOperand := by
  refine .after fun start ↦ .after fun _ ↦ (yields_definitionReceiver condition).bind
    fun receiver hreceiver ↦ .after fun name ↦ ?_
  split
  · exact .after fun _ ↦ yields_skipDefinition hg start
  · refine ((?_ : Yields source _ condition.OnInside).inScope false).bind fun inside hinside ↦ ?_
    · refine (yields_definitionParams hg).bind fun params hparams ↦ .after fun _ ↦ ?_
      exact (yields_definitionBody hg).bind fun inner hinner ↦ .pure ⟨hparams, hinner⟩
    · exact yields_finish ⟨rfl, by simp [Node.pieces, hreceiver, hinside.1, hinside.2]⟩ start

end Definitions

/-! ## Operands -/

section Operands

theorem yields_tokenExpr {node : Node} (h : condition.OnNode node) :
    Yields source (tokenExpr node) condition.OnOperand :=
  .after fun span ↦ .after fun _ ↦ .pure (h.onOperand span)

/-- A number that is written in the source. -/
theorem gives_tokenExpr_int {c : Cursor} (hc : c.DrawsFrom source) {value : Int}
    (hkind : c.current.kind = .int value) :
    Gives c (tokenExpr (.literal (.int value))) fun value c' ↦
      condition.OnRead c value ∧ c'.DrawsFrom source := by
  have hend := atEnd_of_kind hkind rfl
  refine .currentSpan_bind (.advance_bind (.pure ⟨⟨?_, rfl, fun _ ↦ ⟨hend, rfl⟩⟩, hc.advance⟩))
  rw [Cursor.DrawsFrom, Cursor.unread_eq_cons hend] at hc
  exact Piece.everywhere_iff.2 ⟨condition.number _ _ value hc hkind, Condition.onAll_nil⟩

theorem yields_symbolLiteral (name : String) :
    Yields source (symbolLiteral name) condition.OnOperand :=
  .after fun start ↦ .after fun _ ↦ .after fun _ ↦
    .either (.after fun _ ↦ yields_finish ⟨rfl, Condition.onAll_nil⟩ start)
      (yields_finish ⟨rfl, Condition.onAll_nil⟩ start)

/-- The items of a word list are texts and symbols, of which no condition speaks. -/
theorem yields_wordList (words : List String) {item : String → Literal}
    (hitem : ∀ word, (Node.literal (item word)).isPlain = true) :
    Yields source (wordList words item) condition.OnOperand := by
  refine .after fun span ↦ .after fun _ ↦ .pure (Condition.OnNode.onOperand ⟨rfl, ?_⟩ span)
  intro piece hpiece
  obtain ⟨value, hvalue, rfl⟩ := List.mem_map.1 hpiece
  obtain ⟨word, -, rfl⟩ := List.mem_map.1 hvalue
  exact (Condition.OnNode.onOperand ⟨hitem word, Condition.onAll_nil⟩ span).on

include hg

theorem yields_identifier (name : String) : Yields source (identifier g name) condition.OnOperand :=
  .after fun span ↦ .after fun _ ↦ .after fun _ ↦
    .either (.pure (Condition.OnNode.onOperand ⟨rfl, Condition.onAll_nil⟩ span))
      (yields_callTail hg _ _ _ Condition.onAll_nil)

theorem yields_constant (name : String) : Yields source (constant g name) condition.OnOperand :=
  .after fun _ ↦ .after fun _ ↦ .after fun _ ↦
    .either (yields_callTail hg _ _ _ Condition.onAll_nil)
      (.after fun _ ↦ yields_finish ⟨rfl, Condition.onAll_nil⟩ _)

omit hg in
theorem yields_rootConstant : Yields source rootConstant condition.OnOperand := by
  refine .after fun start ↦ .after fun _ ↦ .after fun kind ↦ ?_
  split
  · exact .after fun _ ↦ .after fun _ ↦ yields_finish ⟨rfl, Condition.onAll_nil⟩ start
  · exact .after fun _ ↦ yields_finish ⟨rfl, Condition.onAll_nil⟩ start

theorem yields_arrayLiteral : Yields source (arrayLiteral g) condition.OnOperand := by
  refine .after fun start ↦ .after fun _ ↦ (yields_enclosedArguments hg _ _).bind
    fun args hargs ↦ ?_
  exact yields_finish ⟨rfl, hargs.subset (List.subset_append_left _ _)⟩ start

theorem yields_hashExpr : Yields source (hashExpr g) condition.OnOperand :=
  .after fun start ↦ .after fun _ ↦ (yields_hashLiteral hg).bind fun _ hentries ↦
    yields_finish ⟨rfl, hentries⟩ start

theorem yields_parenthesized : Yields source (parenthesized g) condition.OnOperand := by
  refine .after fun start ↦ .after fun _ ↦ ((yields_body hg _).withDo true).bind
    fun inner hinner ↦ .after fun _ ↦ ?_
  exact yields_finish ⟨rfl, by simp [Node.pieces, hinner]⟩ start

theorem yields_lambdaExpr : Yields source (lambdaExpr g) condition.OnOperand := by
  refine .after fun start ↦ .after fun _ ↦ (yields_lambda hg start).bind fun block hblock ↦ ?_
  exact yields_finish ⟨rfl, by simp [Node.pieces, hblock]⟩ start

theorem yields_beginExpr : Yields source (beginExpr g) condition.OnOperand :=
  .after fun start ↦ .after fun _ ↦ (yields_body hg _).bind fun _ hmain ↦
    (yields_rescueClauses hg hmain).bind fun _ hnode ↦ .after fun _ ↦ yields_finish hnode start

theorem yields_returnExpr : Yields source (returnExpr g) condition.OnOperand := by
  refine .after fun start ↦ .after fun _ ↦ .after fun c ↦
    .either (yields_finish ⟨rfl, Condition.onAll_nil⟩ start) (hg.expr.bind fun value hvalue ↦ ?_)
  exact yields_finish ⟨rfl, by simpa [Node.pieces, ofExpr?]⟩ start

theorem yields_yieldExpr : Yields source (yieldExpr g) condition.OnOperand := by
  refine .after fun start ↦ .after fun _ ↦ (yields_callArguments hg).bind fun args hargs ↦ ?_
  exact yields_finish ⟨rfl, hargs.subset (List.subset_append_left _ _)⟩ start

omit hg in
theorem yields_noExpression : Yields source noExpression condition.OnOperand := by
  refine .after fun c ↦ .after fun _ ↦ ?_
  split
  case h_6 => exact .after fun _ ↦ yields_finish ⟨rfl, Condition.onAll_nil⟩ _
  all_goals exact .pure (Condition.OnNode.onOperand ⟨rfl, Condition.onAll_nil⟩ _)

/-- What is read without operators is an operand, or a number that stands at the current token. -/
theorem gives_primary {c : Cursor} (hc : c.DrawsFrom source) :
    Gives c (primary g) fun value c' ↦ condition.OnRead c value ∧ c'.DrawsFrom source := by
  refine .currentKind_bind ?_
  split
  case h_5 hkind => exact gives_tokenExpr_int hc hkind
  case h_8 => exact Yields.onRead (yields_symbolLiteral _) hc
  case h_9 => exact Yields.onRead (yields_wordList _ (fun _ ↦ rfl)) hc
  case h_10 => exact Yields.onRead (yields_wordList _ (fun _ ↦ rfl)) hc
  case h_14 => exact Yields.onRead (yields_identifier hg _) hc
  case h_15 => exact Yields.onRead (yields_constant hg _) hc
  case h_16 => exact Yields.onRead yields_rootConstant hc
  case h_17 => exact Yields.onRead (yields_arrayLiteral hg) hc
  case h_18 => exact Yields.onRead (yields_hashExpr hg) hc
  case h_19 => exact Yields.onRead (yields_parenthesized hg) hc
  case h_20 => exact Yields.onRead (yields_lambdaExpr hg) hc
  case h_21 => exact Yields.onRead (yields_classDefinition hg) hc
  case h_22 => exact Yields.onRead (yields_moduleDefinition hg) hc
  case h_23 => exact Yields.onRead (yields_methodDefinition hg) hc
  case h_24 => exact Yields.onRead (yields_conditional hg _) hc
  case h_25 => exact Yields.onRead (yields_conditional hg _) hc
  case h_26 => exact Yields.onRead (yields_loop hg _) hc
  case h_27 => exact Yields.onRead (yields_loop hg _) hc
  case h_28 => exact Yields.onRead (yields_caseDistinction hg) hc
  case h_29 => exact Yields.onRead (yields_beginExpr hg) hc
  case h_30 => exact Yields.onRead (yields_returnExpr hg) hc
  case h_31 => exact Yields.onRead (yields_yieldExpr hg) hc
  case h_32 => exact Yields.onRead yields_noExpression hc
  all_goals exact Yields.onRead (yields_tokenExpr ⟨rfl, Condition.onAll_nil⟩) hc

end Operands

section Trailers

variable {value : Expr} {c₀ : Cursor}

instance keeps_methodName : Keeps source methodName? where
  yields := by
    refine .after fun c ↦ ?_
    dsimp only
    split
    · exact .after fun _ ↦ .pure trivial
    · exact .pure trivial

include hg

/-- A call of a method of an expression, as a round of a loop. -/
theorem yields_again_callTail (name : Spanned String)
    (safeNavigation : Bool) (start : Nat) (h : condition.OnExpr value) :
    Yields source (do return Round.again (← callTail g (some value) name safeNavigation start))
      fun round ↦ condition.OnRead c₀ round.value :=
  (yields_callTail hg name safeNavigation start (by simpa [ofExpr?])).bind
    fun _ hvalue ↦ .pure (hvalue.onRead c₀)

theorem yields_dotCall (start : Nat) (h : condition.OnRead c₀ value) :
    Yields source (dotCall g start value) fun round ↦
      condition.OnRead c₀ round.value := by
  refine .after fun c ↦ .after fun _ ↦ .after fun _ ↦ .after fun name ↦ ?_
  split
  · exact yields_again_callTail hg _ _ start h.on
  · exact .after fun _ ↦ .pure h

omit hg in
theorem onNode_scopedNode (name : Spanned String) (h : condition.OnExpr value) :
    condition.OnNode (scopedNode value name) := by
  unfold scopedNode
  split
  · exact ⟨rfl, Condition.onAll_nil⟩
  · exact ⟨rfl, by
      simp [Node.pieces, Arguments.pieces, Arguments.none, ofExpr?, ofExprs, h]⟩

theorem yields_scopedName (start : Nat) (h : condition.OnRead c₀ value) :
    Yields source (scopedName g start value) fun round ↦
      condition.OnRead c₀ round.value := by
  refine .after fun _ ↦ .after fun c ↦ ?_
  dsimp only
  split
  case h_1 =>
    exact .after fun _ ↦ (yields_again_finish (onNode_scopedNode _ h.on) start).mono
      fun _ hvalue ↦ hvalue.onRead c₀
  case h_4 => exact .after fun _ ↦ .pure h
  all_goals exact .after fun _ ↦ yields_again_callTail hg _ _ start h.on

theorem yields_indexCall (start : Nat) (h : condition.OnExpr value) :
    Yields source (indexCall g start value) fun round ↦
      condition.OnRead c₀ round.value := by
  refine .after fun span ↦ .after fun _ ↦ (yields_enclosedArguments hg _ _).bind fun args hargs ↦ ?_
  have hpieces : condition.OnAll (Node.call (some value) ⟨"[]", span⟩ args none false).pieces := by
    simp [Node.pieces, ofExpr?, h, hargs]
  exact (yields_again_finish ⟨rfl, hpieces⟩ start).mono fun _ hvalue ↦ hvalue.onRead c₀

theorem yields_trailer (start : Nat) (h : condition.OnRead c₀ value) :
    Yields source (trailer g start value) fun round ↦
      condition.OnRead c₀ round.value := by
  refine .after fun c ↦ .optional (.after fun c ↦ ?_)
  split
  · exact yields_dotCall hg start h
  · exact yields_dotCall hg start h
  · exact yields_scopedName hg start h
  · exact .either (.pure h) (yields_indexCall hg start h.on)
  · exact .pure h

/-- With calls, names and indices behind it, an expression is still no operation, and it starts at
the current token if it is a number. -/
theorem gives_trailed {c : Cursor} (hc : c.DrawsFrom source) :
    Gives c (trailed g) fun value c' ↦ condition.OnRead c value ∧ c'.DrawsFrom source := by
  refine .currentStart_bind ((gives_primary hg hc).bind fun first c₁ hfirst ↦ ?_)
  have htrailers : Yields source (iterate (trailer g c.front) first) (condition.OnRead c) :=
    .iterate _ hfirst.1 fun _ hvalue ↦ yields_trailer hg c.front hvalue
  exact htrailers c₁ hfirst.2

omit hg in
/-- The negation of an expression that was read right behind a sign; the sign of a number goes with
the number. -/
theorem onRead_negated {c : Cursor} (hc : c.DrawsFrom source)
    (hkind : c.current.kind = .punct .minus) (h : condition.OnRead c.advance value) (stop : Nat) :
    condition.OnRead c ⟨negated c.current.span value, ⟨c.front, stop⟩⟩ := by
  have hend := atEnd_of_kind hkind rfl
  refine ⟨?_, ?_, fun _ ↦ ⟨hend, rfl⟩⟩
  · obtain ⟨node, inner⟩ := value
    unfold negated
    split
    · rename_i number hnode
      dsimp only at hnode
      subst hnode
      obtain ⟨hnext, hstart⟩ := h.front rfl
      rw [Cursor.DrawsFrom, Cursor.unread_eq_cons hend, Cursor.unread_eq_cons hnext] at hc
      have hholds := condition.negative _ _ _ number inner ⟨c.front, stop⟩ hc hkind hstart rfl
        (Piece.everywhere_iff.1 h.on).1
      exact Piece.everywhere_iff.2 ⟨hholds, Condition.onAll_nil⟩
    · exact (Condition.OnNode.onOperand ⟨rfl, Condition.onAll_nil⟩ _).on
    · rename_i hnumber _
      have hplain : node.isNumber = false := by
        unfold Node.isNumber
        split
        · exact absurd rfl (hnumber _)
        · rfl
      exact Piece.everywhere_iff.2 ⟨condition.negation _ _ _ hplain, by
        simpa [Piece.parts, Node.pieces] using ⟨Condition.on_word, h.on⟩⟩
  · unfold negated
    split <;> rfl

/-- An operand is no binary operation. -/
theorem gives_operand {c : Cursor} (hc : c.DrawsFrom source) :
    Gives c (operand g) fun value c' ↦ condition.OnRead c value ∧ c'.DrawsFrom source := by
  refine .currentSpan_bind (.currentKind_bind ?_)
  split
  case h_5 => exact gives_trailed hg hc
  case h_3 hkind =>
    refine .advance_bind ((hg.unary _ hc.advance).bind fun inner c₁ hinner ↦ .finish_bind ?_)
    exact .pure ⟨onRead_negated hc hkind hinner.1 _, hinner.2⟩
  all_goals
    refine Yields.onRead (.after fun _ ↦ hg.yields_unary.bind fun inner hinner ↦ ?_) hc
    exact yields_finish ⟨rfl, by simp [Node.pieces, hinner]⟩ _

end Trailers

end DeclaredMethods.Source
