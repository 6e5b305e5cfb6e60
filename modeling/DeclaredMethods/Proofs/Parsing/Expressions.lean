import DeclaredMethods.Proofs.Parsing.Bodies
import DeclaredMethods.Source.Parser

/-!
# Expressions obey every discipline

The productions for calls, for conditionals, loops and case distinctions, for definitions and for
expressions obey every discipline that the productions one nesting level further in obey. Behind
the nesting limit the rest of the source is skipped, which every discipline allows; so the
productions of all levels obey every discipline.
-/

namespace DeclaredMethods.Source

open Parse

variable {d : Discipline} {g : Grammar} (hg : g.Obeys d)

section Calls

theorem obeys_methodName : Obeys d methodName? := by
  refine fun c ↦ .get_bind ?_
  dsimp only
  split
  · rename_i name hname
    have hc : c.atEnd = false := atEnd_of_ne_eof fun hend ↦ by
      rw [hend] at hname
      cases hname
    exact .advance_bind hc (.pure trivial)
  · exact .pure trivial

include hg

theorem obeys_callArguments : Obeys d (callArguments g) := by
  refine fun c ↦ .get_bind ?_
  split
  · rename_i hparen
    have hc := atEnd_of_atMark (Bool.and_eq_true_iff.1 hparen).1
    exact .advance_bind hc (obeys_enclosedArguments hg _ _ _)
  · exact Obeys.ite (obeys_commandArguments hg) (.pure _) c

theorem obeys_callBlock : Obeys d (callBlock? g) := by
  refine fun c ↦ .get_bind ?_
  split
  · rename_i hbrace
    exact (obeysInside_braceBlock hg c (atEnd_of_atMark hbrace)).bind fun _ _ _ _ ↦ .pure trivial
  · split
    · rename_i hdo
      have hc := atEnd_of_atWord (Bool.and_eq_true_iff.1 hdo).1
      exact (obeysInside_doBlock hg c hc).bind fun _ _ _ _ ↦ .pure trivial
    · exact .pure trivial

/-- Arguments and a block are both optional. -/
theorem obeys_callTail (receiver : Option Expr) (name : Spanned String)
    (safeNavigation : Bool) (start : Nat) :
    Obeys d (callTail g receiver name safeNavigation start) :=
  (obeys_callArguments hg).bind fun _ ↦ (obeys_callBlock hg).bind fun _ ↦ obeys_finish start _

end Calls

section Control

include hg

/-- Each `elsif` takes a token, so branches with fewer tokens left than `elsif` allowed are read
to their end. -/
theorem obeysAt_conditionalUpTo (bound : Nat) (negated : Bool) (c : Cursor)
    (hbound : c.unread.length < bound) :
    ObeysAt d c (conditionalUpTo g bound negated) fun _ _ ↦ True := by
  induction bound generalizing negated c with
  | zero => exact absurd hbound (Nat.not_lt_zero _)
  | succ bound ih =>
    refine (obeys_notExpr hg c).bind fun condition c₁ hcondition _ ↦ ?_
    refine (obeys_eatWord _ c₁).bind fun _ c₂ hthen _ ↦ ?_
    refine (obeys_body hg _ c₂).bind fun thenBranch c₃ hbranch _ ↦ .get_bind ?_
    have hle := hcondition.length_le
    have hle₂ := hthen.length_le
    have hle₃ := hbranch.length_le
    split
    · rename_i hkind
      have hc := atEnd_of_kind hkind rfl
      have hless := Cursor.length_advance_lt hc
      refine .advance_bind hc ((ih false _ (by omega)).bind fun inner c₄ _ _ ↦ ?_)
      exact (looks_spanFrom _).obeys.bind (fun _ ↦ .pure _) c₄
    · rename_i hkind
      refine .advance_bind (atEnd_of_kind hkind rfl) ?_
      exact (obeys_body hg _).bind (fun _ ↦ .pure _) _
    · exact .pure trivial

theorem obeysInside_conditional (negated : Bool) : ObeysInside d (conditional g negated) := by
  refine .bind_of_looks looks_currentStart fun start ↦ .advance fun c ↦ .get_bind ?_
  refine (obeysAt_conditionalUpTo hg _ negated c c.length_unread_lt_rounds).bind
    fun node c' _ _ ↦ ?_
  exact (obeys_expectWord _ _).bind (fun _ ↦ obeys_finish start node) c'

theorem obeysInside_loop (negated : Bool) : ObeysInside d (loop g negated) := by
  refine .bind_of_looks looks_currentStart fun start ↦ .advance ?_
  refine (obeys_withDo false (obeys_notExpr hg)).bind fun condition ↦ ?_
  refine (obeys_eatWord _).bind fun _ ↦ (obeys_body hg _).bind fun inner ↦ ?_
  exact (obeys_expectWord _ _).bind fun _ ↦ obeys_finish start _

theorem obeys_whenClauses : Obeys d (whenClauses g) := by
  refine obeys_iterate [] fun whens ↦ .eaten (obeysAt_eatWord .when_) ?_ (.done whens)
  refine hg.expr.bind fun first ↦ ?_
  refine (obeys_whileComma _ (obeys_skipNewlines.bind fun _ ↦ hg.expr)).bind fun patterns ↦ ?_
  exact (obeys_eatWord _).bind fun _ ↦ (obeys_body hg _).bind fun _ ↦ .pure _

theorem obeys_caseSubject : Obeys d (caseSubject? g) :=
  fun c ↦ .get_bind (Obeys.ite (.pure none) ((obeys_notExpr hg).bind fun _ ↦ .pure _) c)

theorem obeysInside_caseDistinction : ObeysInside d (caseDistinction g) := by
  refine .bind_of_looks looks_currentStart fun start ↦ .advance ?_
  refine (obeys_caseSubject hg).bind fun subject ↦ obeys_skipTerminators.bind fun _ ↦ ?_
  refine (obeys_whenClauses hg).bind fun whens ↦ .optional (obeys_fail rfl) ?_
  refine (obeys_bodyBehind hg _ _).bind fun elseBranch ↦ ?_
  exact (obeys_expectWord _ _).bind fun _ ↦ obeys_finish start _

end Control

section Definitions

theorem obeys_constSegments (first : String) : Obeys d (constSegments first) := by
  refine obeys_iterate [first] fun segments c ↦ .get_bind ?_
  split
  · rename_i name hmark hnext
    have hc := atEnd_of_atMark hmark
    have hc' : c.advance.atEnd = false := atEnd_of_kind hnext rfl
    have hless := Nat.lt_trans (Cursor.length_advance_lt hc') (Cursor.length_advance_lt hc)
    exact .advance_bind hc (.advance_bind hc' (.pure hless))
  · exact .pure trivial

theorem obeys_constPath : Obeys d constPath? := by
  refine looks_currentStart.obeys.bind fun start ↦ (obeys_eat _).bind fun absolute c ↦ ?_
  refine .currentKind_bind ?_
  split
  · rename_i first hkind
    refine .advance_bind (atEnd_of_kind hkind rfl) ((obeys_constSegments first).bind ?_ _)
    exact fun _ ↦ (looks_spanFrom start).obeys.bind fun _ ↦ .pure _
  · exact (obeys_fail rfl).bind (fun _ ↦ .pure none) c

include hg

/-- A definition that is skipped is read up to its end. -/
theorem obeys_skipDefinition (start : Nat) : Obeys d (skipDefinition g start) :=
  (obeys_inScope false (obeys_body hg _)).bind fun _ ↦
    (obeys_expectWord _ _).bind fun _ ↦ obeys_finish start _

theorem obeys_singletonClass (start : Nat) : Obeys d (singletonClass g start) := by
  refine hg.expr.bind fun target ↦ (obeys_inScope false (obeys_body hg _)).bind fun inner ↦ ?_
  exact (obeys_expectWord _ _).bind fun _ ↦ obeys_finish start _

theorem obeys_superclass : Obeys d (superclass? g) :=
  (obeys_eat _).bind fun _ ↦ .ite (hg.expr.bind fun _ ↦ .pure _) (.pure none)

theorem obeysInside_classDefinition : ObeysInside d (classDefinition g) := by
  refine .bind_of_looks looks_currentStart fun start ↦ .advance ?_
  refine (obeys_eat _).bind fun _ ↦ .ite (obeys_singletonClass hg start) ?_
  refine obeys_constPath.bind fun name ↦ ?_
  split
  · exact obeys_skipDefinition hg start
  · refine (obeys_superclass hg).bind fun superclass ↦ ?_
    refine (obeys_inScope false (obeys_rescuedBody hg)).bind fun inner ↦ ?_
    exact (obeys_expectWord _ _).bind fun _ ↦ obeys_finish start _

theorem obeysInside_moduleDefinition : ObeysInside d (moduleDefinition g) := by
  refine .bind_of_looks looks_currentStart fun start ↦ .advance ?_
  refine obeys_constPath.bind fun name ↦ ?_
  split
  · exact obeys_skipDefinition hg start
  · refine (obeys_inScope false (obeys_body hg _)).bind fun inner ↦ ?_
    exact (obeys_expectWord _ _).bind fun _ ↦ obeys_finish start _

omit hg in
theorem obeys_definitionReceiver : Obeys d definitionReceiver? := by
  refine fun c ↦ .get_bind ?_
  dsimp only
  split
  · rename_i node hdot hnode
    have hc : c.atEnd = false := atEnd_of_ne_eof fun hend ↦ by
      rw [hend] at hnode
      cases hnode
    exact .advance_bind hc (.advance_bind (atEnd_advance_of_nextIsMark hdot) (.pure trivial))
  · exact .pure trivial

omit hg in
theorem obeys_baseMethodName : Obeys d baseMethodName? := by
  refine fun c ↦ .currentKind_bind ?_
  split
  case h_4 hkind =>
    refine .advance_bind (atEnd_of_kind hkind rfl) ?_
    exact (obeys_eat _).bind (fun _ ↦ .ite (.pure _) (.pure _)) _
  case h_5 hkind =>
    split
    · exact .advance_bind (atEnd_of_kind hkind rfl) (.pure trivial)
    · exact .pure trivial
  case h_6 => exact .pure trivial
  all_goals
    rename_i hkind
    exact .advance_bind (atEnd_of_kind hkind rfl) (.pure trivial)

omit hg in
theorem obeys_definitionName : Obeys d definitionName? := by
  refine looks_currentStart.obeys.bind fun start ↦ obeys_baseMethodName.bind fun name ↦ ?_
  split
  · exact .pure none
  · refine fun c ↦ .get_bind ?_
    split
    · rename_i hsign
      simp only [atSetterSign, Bool.and_eq_true_iff] at hsign
      refine .advance_bind (atEnd_of_atMark hsign.1.1.1) ?_
      exact (looks_spanFrom start).obeys.bind (fun _ ↦ .pure _) _
    · exact (looks_spanFrom start).obeys.bind (fun _ ↦ .pure _) c

theorem obeys_definitionParams : Obeys d (definitionParams g) := by
  refine fun c ↦ .get_bind ?_
  split
  · rename_i hparen
    refine .advance_bind (atEnd_of_atMark hparen) ((obeys_paramList hg _).bind ?_ _)
    exact fun params ↦ (obeys_expect _ _).bind fun _ ↦ .pure params
  · exact Obeys.ite (.pure []) (obeys_paramList hg none) c

theorem obeys_definitionBody : Obeys d (definitionBody g) := by
  refine (obeys_eat _).bind fun _ ↦ .ite (obeys_skipNewlines.bind fun _ ↦ ?_) ?_
  · refine looks_currentStart.obeys.bind fun start ↦ (obeys_statement hg).bind fun expr ↦ ?_
    exact (looks_spanFrom start).obeys.bind fun _ ↦ .pure _
  · exact (obeys_rescuedBody hg).bind fun inner ↦ (obeys_expectWord _ _).bind fun _ ↦ .pure inner

theorem obeysInside_methodDefinition : ObeysInside d (methodDefinition g) := by
  refine .bind_of_looks looks_currentStart fun start ↦ .advance ?_
  refine obeys_definitionReceiver.bind fun receiver ↦ obeys_definitionName.bind fun name ↦ ?_
  split
  · exact (obeys_fail rfl).bind fun _ ↦ obeys_skipDefinition hg start
  · refine (obeys_inScope false ?_).bind fun _ ↦ obeys_finish start _
    refine (obeys_definitionParams hg).bind fun params ↦ ?_
    exact (obeys_declareParams params).bind fun _ ↦ (obeys_definitionBody hg).bind fun _ ↦ .pure _

end Definitions

section Operands

theorem obeysInside_tokenExpr (node : Node) : ObeysInside d (tokenExpr node) :=
  .bind_of_looks looks_currentSpan fun _ ↦ .advance (.pure _)

theorem obeysInside_symbolLiteral (name : String) : ObeysInside d (symbolLiteral name) := by
  refine .bind_of_looks looks_currentStart fun start ↦ .advance fun c ↦ .get_bind ?_
  split
  · rename_i hassign
    have hc := atEnd_of_atMark (Bool.and_eq_true_iff.1 hassign).1
    exact .advance_bind hc (obeys_finish start _ _)
  · exact obeys_finish start _ c

theorem obeysInside_wordList (words : List String) (item : String → Literal) :
    ObeysInside d (wordList words item) :=
  .bind_of_looks looks_currentSpan fun _ ↦ .advance (.pure _)

include hg

theorem obeysInside_identifier (name : String) : ObeysInside d (identifier g name) := by
  refine .bind_of_looks looks_currentSpan fun span ↦ .advance fun c ↦ .get_bind ?_
  exact Obeys.ite (.pure _) (obeys_callTail hg none _ false span.start) c

theorem obeysInside_constant (name : String) : ObeysInside d (constant g name) := by
  refine .bind_of_looks looks_currentSpan fun span ↦ .advance fun c ↦ .get_bind ?_
  refine Obeys.ite (obeys_callTail hg none _ false span.start) ?_ c
  exact (obeys_constSegments name).bind fun _ ↦ obeys_finish span.start _

omit hg in
theorem obeysInside_rootConstant : ObeysInside d rootConstant := by
  refine .bind_of_looks looks_currentStart fun start ↦ .advance fun c ↦ .currentKind_bind ?_
  split
  · rename_i name hkind
    refine .advance_bind (atEnd_of_kind hkind rfl) ?_
    exact (obeys_constSegments name).bind (fun _ ↦ obeys_finish start _) _
  · exact (obeys_fail rfl).bind (fun _ ↦ obeys_finish start _) c

theorem obeysInside_arrayLiteral : ObeysInside d (arrayLiteral g) := by
  refine .bind_of_looks looks_currentStart fun start ↦ .advance ?_
  exact (obeys_enclosedArguments hg _ _).bind fun _ ↦ obeys_finish start _

theorem obeysInside_hashExpr : ObeysInside d (hashExpr g) := by
  refine .bind_of_looks looks_currentStart fun start ↦ .advance ?_
  exact (obeys_hashLiteral hg).bind fun _ ↦ obeys_finish start _

theorem obeysInside_parenthesized : ObeysInside d (parenthesized g) := by
  refine .bind_of_looks looks_currentStart fun start ↦ .advance ?_
  refine (obeys_withDo true (obeys_body hg _)).bind fun inner ↦ ?_
  exact (obeys_expect _ _).bind fun _ ↦ obeys_finish start _

theorem obeysInside_lambdaExpr : ObeysInside d (lambdaExpr g) := by
  refine .bind_of_looks looks_currentStart fun start ↦ .advance ?_
  exact (obeys_lambda hg start).bind fun _ ↦ obeys_finish start _

theorem obeysInside_beginExpr : ObeysInside d (beginExpr g) := by
  refine .bind_of_looks looks_currentStart fun start ↦ .advance ?_
  refine (obeys_body hg _).bind fun main ↦ (obeys_rescueClauses hg main).bind fun node ↦ ?_
  exact (obeys_expectWord _ _).bind fun _ ↦ obeys_finish start node

theorem obeysInside_returnExpr : ObeysInside d (returnExpr g) := by
  refine .bind_of_looks looks_currentStart fun start ↦ .advance fun c ↦ .get_bind ?_
  exact Obeys.ite (obeys_finish start _) (hg.expr.bind fun _ ↦ obeys_finish start _) c

theorem obeysInside_yieldExpr : ObeysInside d (yieldExpr g) := by
  refine .bind_of_looks looks_currentStart fun start ↦ .advance ?_
  exact (obeys_callArguments hg).bind fun _ ↦ obeys_finish start _

omit hg in
/-- A token that starts no expression is read unless something around it may need it; the end of
the source is never read. -/
theorem obeys_noExpression : Obeys d noExpression := by
  refine fun c ↦ .get_bind ?_
  have hreport : (c.report ⟨.expectedExpr, c.current.span⟩).atEnd = c.atEnd := by
    rcases c.report_eq ⟨.expectedExpr, c.current.span⟩ with h | h
    · rw [h]
    · rw [h]
      rfl
  refine .bind_of_run rfl ((onward.meet d).report c rfl) ?_
  split
  case h_6 hkind _ _ _ _ =>
    have hc : c.atEnd = false := atEnd_of_ne_eof hkind
    exact .advance_bind (hreport.trans hc) (obeys_finish _ _ _)
  all_goals exact .pure trivial

/-- At the end of the source there is no expression, and every other production may read the
current token. -/
theorem obeys_primary : Obeys d (primary g) := by
  refine fun c ↦ .currentKind_bind ?_
  cases hend : c.atEnd with
  | true =>
    rw [kind_of_atEnd hend]
    exact obeys_noExpression c
  | false =>
    split
    case h_32 => exact obeys_noExpression c
    case h_8 name _ => exact obeysInside_symbolLiteral name c hend
    case h_9 words _ => exact obeysInside_wordList words _ c hend
    case h_10 words _ => exact obeysInside_wordList words _ c hend
    case h_14 name _ => exact obeysInside_identifier hg name c hend
    case h_15 name _ => exact obeysInside_constant hg name c hend
    case h_16 => exact obeysInside_rootConstant c hend
    case h_17 => exact obeysInside_arrayLiteral hg c hend
    case h_18 => exact obeysInside_hashExpr hg c hend
    case h_19 => exact obeysInside_parenthesized hg c hend
    case h_20 => exact obeysInside_lambdaExpr hg c hend
    case h_21 => exact obeysInside_classDefinition hg c hend
    case h_22 => exact obeysInside_moduleDefinition hg c hend
    case h_23 => exact obeysInside_methodDefinition hg c hend
    case h_24 => exact obeysInside_conditional hg false c hend
    case h_25 => exact obeysInside_conditional hg true c hend
    case h_26 => exact obeysInside_loop hg false c hend
    case h_27 => exact obeysInside_loop hg true c hend
    case h_28 => exact obeysInside_caseDistinction hg c hend
    case h_29 => exact obeysInside_beginExpr hg c hend
    case h_30 => exact obeysInside_returnExpr hg c hend
    case h_31 => exact obeysInside_yieldExpr hg c hend
    all_goals exact obeysInside_tokenExpr _ c hend

end Operands

section Operators

include hg

theorem obeysAt_dotCall (start : Nat) (receiver : Expr) {c : Cursor} (hc : c.atEnd = false) :
    ObeysAt d c (dotCall g start receiver) (Proceeds c fun _ _ ↦ True) := by
  refine .get_bind (.advance_round hc (obeys_skipNewlines.bind fun _ ↦ ?_))
  refine obeys_methodName.bind fun name ↦ ?_
  split
  · exact (obeys_callTail hg _ _ _ start).bind fun _ ↦ .pure _
  · exact (obeys_fail rfl).bind fun _ ↦ .pure _

theorem obeysAt_scopedName (start : Nat) (outer : Expr) {c : Cursor} (hc : c.atEnd = false) :
    ObeysAt d c (scopedName g start outer) (Proceeds c fun _ _ ↦ True) := by
  refine .advance_round hc fun c' ↦ .get_bind ?_
  dsimp only
  split
  · rename_i name hkind _
    refine .advance_bind (atEnd_of_kind hkind rfl) ?_
    exact (obeys_finish start _).bind (fun _ ↦ .pure _) _
  · rename_i name hkind _
    refine .advance_bind (atEnd_of_kind hkind rfl) ?_
    exact (obeys_callTail hg _ _ _ start).bind (fun _ ↦ .pure _) _
  · rename_i name hkind
    refine .advance_bind (atEnd_of_kind hkind rfl) ?_
    exact (obeys_callTail hg _ _ _ start).bind (fun _ ↦ .pure _) _
  · exact (obeys_fail rfl).bind (fun _ ↦ .pure _) c'

theorem obeysAt_indexCall (start : Nat) (receiver : Expr) {c : Cursor} (hc : c.atEnd = false) :
    ObeysAt d c (indexCall g start receiver) (Proceeds c fun _ _ ↦ True) := by
  refine .bind_of_looks looks_currentSpan fun span ↦ .advance_round hc ?_
  exact (obeys_enclosedArguments hg _ _).bind fun _ ↦ (obeys_finish start _).bind fun _ ↦ .pure _

/-- What hangs behind an expression starts with a token. -/
theorem obeysRound_trailer (start : Nat) (expr : Expr) : ObeysRound d (trailer g start expr) := by
  refine fun c ↦ .get_bind (ObeysRound.advance_optional (fun c' ↦ .get_bind ?_) fun hline ↦ ?_)
  · split
    · rename_i hkind
      exact obeysAt_dotCall hg start expr (atEnd_of_kind hkind rfl)
    · rename_i hkind
      exact obeysAt_dotCall hg start expr (atEnd_of_kind hkind rfl)
    · rename_i hkind
      exact obeysAt_scopedName hg start expr (atEnd_of_kind hkind rfl)
    · rename_i hkind
      split
      · exact .pure trivial
      · exact obeysAt_indexCall hg start expr (atEnd_of_kind hkind rfl)
    · exact .pure trivial
  · refine atEnd_of_ne_eof fun hend ↦ ?_
    rw [hend] at hline
    cases hline

/-- The rounds of a chain of trailers each read a token, so it ends. -/
theorem obeys_trailed : Obeys d (trailed g) :=
  looks_currentStart.obeys.bind fun start ↦ (obeys_primary hg).bind fun first ↦
    obeys_iterate first (obeysRound_trailer hg start)

theorem obeys_operand : Obeys d (operand g) := by
  refine looks_currentSpan.obeys.bind fun opSpan c ↦ .currentKind_bind ?_
  split
  case h_5 => exact obeys_trailed hg c
  all_goals
    rename_i hkind
    refine .advance_bind (atEnd_of_kind hkind rfl) ?_
    exact hg.unary.bind (fun _ ↦ obeys_finish opSpan.start _) _

/-- An operator is a token, so a chain of operations ends. -/
theorem obeys_chain (least : Precedence) : Obeys d (chain g least) := by
  refine looks_currentStart.obeys.bind fun start ↦ hg.unary.bind fun first ↦ ?_
  refine obeys_iterate first fun left c ↦ .get_bind ?_
  split
  · rename_i op hop
    have hc : c.atEnd = false := atEnd_of_ne_eof fun hend ↦ by
      rw [hend] at hop
      cases hop
    split
    · exact .pure trivial
    · refine .advance_round hc (obeys_skipNewlines.bind fun _ ↦ (hg.binary _).bind fun right ↦ ?_)
      exact (obeys_finish start _).bind fun _ ↦ .pure _
  · exact .pure trivial

theorem obeys_ternary (start : Nat) (condition : Expr) : Obeys d (ternary g start condition) := by
  refine obeys_skipNewlines.bind fun _ ↦ hg.expr.bind fun thenExpr ↦ ?_
  refine obeys_skipNewlines.bind fun _ ↦ (obeys_expect _ _).bind fun _ ↦ ?_
  exact obeys_skipNewlines.bind fun _ ↦ hg.expr.bind fun _ ↦ obeys_finish start _

theorem obeys_assignment : Obeys d (assignment g) := by
  refine looks_currentStart.obeys.bind fun start ↦ (hg.binary _).bind fun left c ↦ .get_bind ?_
  split
  · rename_i op hop
    have hc : c.atEnd = false := atEnd_of_ne_eof fun hend ↦ by
      unfold assignmentOp? at hop
      rw [hend] at hop
      split at hop <;> cases hop
    refine .advance_bind hc (obeys_skipNewlines.bind (fun _ ↦ ?_) _)
    refine (obeys_assignTarget left).bind fun target ↦ hg.expr.bind fun value ↦ ?_
    exact obeys_finish start _
  · exact (obeys_eat _).bind (fun _ ↦ .ite (obeys_ternary hg start left) (.pure left)) c

end Operators

/-- The productions of every nesting level obey every discipline. -/
theorem obeys_grammar (levels : Nat) : (grammar levels).Obeys d := by
  induction levels with
  | zero =>
    have habandon : Obeys d (nested abandon) := obeys_nested obeys_abandon
    exact ⟨habandon, habandon, fun _ ↦ habandon, habandon⟩
  | succ levels ih =>
    exact ⟨obeys_nested (obeys_notOperand ih), obeys_nested (obeys_assignment ih),
      fun least ↦ obeys_nested (obeys_chain ih least), obeys_nested (obeys_operand ih)⟩

/-- A source is read to its end: nothing else closes its body. -/
theorem obeysAt_sourceFile (c : Cursor) :
    ObeysAt d c (sourceFile fullGrammar) fun _ c' ↦ c'.atEnd = true := by
  refine (obeysAt_body (obeys_grammar maxDepth) .eof c).bind fun inner c' _ hclosed ↦ .get_bind ?_
  refine .pure (hclosed.resolve_right ?_)
  exact Bool.false_ne_true

end DeclaredMethods.Source
