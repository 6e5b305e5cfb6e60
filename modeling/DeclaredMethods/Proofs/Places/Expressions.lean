import DeclaredMethods.Proofs.Places.Arguments
import DeclaredMethods.Source.Parser

/-!
# Places of expressions

Calls, conditionals, definitions and operands cover their parts, and so do the expressions of the
whole grammar. The last branch behind `elsif` may be empty, in front of the `end` that all branches
share.

Whatever stands for an expression that could not be read comes with a report.
-/

namespace DeclaredMethods.Source

open Cursor (Moves Passed)
open Parse
open Piece (ofExpr? ofBody? ofExprs)

variable {source : String} {g : Grammar} {c₀ c : Cursor} {pieces : List Piece}
  (hg : g.ReadsExprs source)

section Calls

theorem reads_methodName :
    Reads source methodName? fun name ↦ name.toList.map fun name ↦ .word name.span := by
  refine fun c hc ↦ .get_bind ?_
  dsimp only
  split
  · exact .advance_bind (.pure (.word hc))
  · exact .pure (.refl hc)

include hg

theorem reads_callArguments : Reads source (callArguments g) Arguments.pieces := by
  refine fun c hc ↦ .get_bind ?_
  split
  · exact .advance_bind (((AllEndBy.word hc).andThen (reads_enclosedArguments hg _ _)).mono
      fun _ _ hends ↦ hends.subset (List.subset_append_left _ _))
  split
  · exact reads_commandArguments hg c hc
  · exact .pure (.refl hc)

theorem reads_callBlock : Reads source (callBlock? g) fun block ↦ block.toList.map .block := by
  refine fun c hc ↦ .get_bind ?_
  split
  · exact (AllEndBy.refl hc).read (reads_braceBlock hg) fun _ _ hends ↦ .pure hends
  split
  · exact (AllEndBy.refl hc).read (reads_doBlock hg) fun _ _ hends ↦ .pure hends
  · exact .pure (.refl hc)

/-- A call covers its receiver, its name, its arguments and its block. -/
theorem gives_callTail {receiver : Option Expr} {name : Spanned String}
    (safeNavigation : Bool) (h : AllEndBy source c₀ c pieces)
    (hparts : .word name.span :: ofExpr? receiver ⊆ pieces) :
    Gives c (callTail g receiver name safeNavigation c₀.front) (ExprBetween source c₀) := by
  refine h.read (reads_callArguments hg) fun args c₁ hends ↦ ?_
  refine hends.read (reads_callBlock hg) fun block c₂ hends ↦ ?_
  have hpieces : pieces ≠ [] := List.ne_nil_of_mem (hparts List.mem_cons_self)
  have hne := List.append_ne_nil_of_right_ne_nil args.pieces hpieces
  exact hends.finish (List.append_ne_nil_of_right_ne_nil _ hne) rfl (by grind [Node.pieces])

end Calls

section Control

include hg

/-- Only the last of the branches may be an empty body in front of the current token, since a
keyword follows the others. -/
theorem gives_conditionalUpTo (bound : Nat) (negated : Bool) (hc : c.Stands source) :
    Gives c (conditionalUpTo g bound negated) fun node c' ↦
      AllEndByOrEmpty source c c' node.pieces ∧ node.isClausal = true := by
  induction bound generalizing negated c with
  | zero => exact triple_failure
  | succ bound ih =>
    refine (AllEndBy.refl hc).readExpr (readsExpr_notExpr hg) fun condition c₁ hends ↦ ?_
    refine hends.skip (reads_eatWord _) fun _ c₂ hends ↦ ?_
    refine hends.readOrEmpty (readsOrEmpty_body hg _) fun thenBranch c₃ horEmpty ↦ .get_bind ?_
    have helse := AllEndBy.word horEmpty.moves.stands
    split
    · refine .advance_bind ((ih false helse.moves.stands).bind fun inner c₄ hinner ↦ ?_)
      obtain ⟨hinner, hclausal⟩ := hinner
      have hword := helse.orEmpty.trans hinner
      -- The branches behind `elsif` and the keyword itself, as one body.
      have hbranch := hword.single hclausal (by grind) fun herrors ↦
        hword.passed_of_word (List.mem_append_right _ List.mem_cons_self) herrors
      refine .spanFrom_bind (.pure ⟨?_, rfl⟩)
      exact (horEmpty.allEndBy hbranch (List.cons_ne_nil _ _)).orEmpty.subset (by
        grind [Node.pieces, ofBody?, Body.single])
    · refine .advance_bind
        (horEmpty.advance.readOrEmpty (readsOrEmpty_body hg _) fun elseBranch c₄ horEmpty ↦ ?_)
      exact .pure ⟨horEmpty.subset (by grind [Node.pieces, ofBody?]), rfl⟩
    · exact .pure ⟨horEmpty.subset (by grind [Node.pieces, ofBody?]), rfl⟩

theorem readsExpr_conditional (negated : Bool) : ReadsExpr source (conditional g negated) := by
  refine fun c hc ↦ .currentStart_bind (.advance_bind (.get_bind ?_))
  have hif := AllEndBy.word hc
  refine (gives_conditionalUpTo hg _ negated hif.moves.stands).bind fun node c₁ hnode ↦ ?_
  obtain ⟨horEmpty, hclausal⟩ := hnode
  refine (hif.orEmpty.trans horEmpty).expectWord fun c₂ hends ↦ ?_
  exact hends.finish (List.cons_ne_nil _ _) (isError_of_isClausal hclausal) (by grind)

theorem readsExpr_loop (negated : Bool) : ReadsExpr source (loop g negated) := by
  refine fun c hc ↦ .currentStart_bind (.advance_bind ?_)
  refine (AllEndBy.word hc).read ((readsExpr_notExpr hg).reads.withDo false)
    fun condition c₁ hends ↦ ?_
  refine hends.skip (reads_eatWord _) fun _ c₂ hends ↦ ?_
  refine hends.readOrEmpty (readsOrEmpty_body hg _) fun inner c₃ horEmpty ↦
    horEmpty.expectWord fun c₄ hends ↦ ?_
  exact hends.finish (List.cons_ne_nil _ _) rfl (by grind [Node.pieces])

/-- The last clause may have an empty body in front of the current token. -/
theorem readsOrEmpty_whenClauses :
    ReadsOrEmpty source (whenClauses g) (·.flatMap WhenClause.pieces) := by
  intro c hc
  refine gives_iterate
    (fun whens c' ↦ AllEndByOrEmpty source c c' (List.flatMap WhenClause.pieces whens))
    (AllEndBy.refl hc).orEmpty fun whens c₁ horEmpty ↦
      horEmpty.eatWord (fun _ hends ↦ ?_) fun _ ↦ .pure horEmpty
  refine hends.readExpr hg.expr fun first c₂ hends ↦ ?_
  refine (AllEndBy.whileComma hends (reads_exprBehindNewlines hg)).bind fun patterns c₃ hends ↦ ?_
  refine hends.skip (reads_eatWord _) fun _ c₄ hends ↦ ?_
  refine hends.readOrEmpty (readsOrEmpty_body hg _) fun inner c₅ horEmpty ↦
    .pure (horEmpty.subset ?_)
  grind [WhenClause.pieces]

theorem reads_caseSubject : Reads source (caseSubject? g) ofExpr? := by
  refine fun c hc ↦ .get_bind ?_
  split
  · exact .pure (.refl hc)
  · exact (AllEndBy.refl hc).readExpr (readsExpr_notExpr hg) fun _ _ hends ↦ .pure hends

theorem readsExpr_caseDistinction : ReadsExpr source (caseDistinction g) := by
  refine fun c hc ↦ .currentStart_bind (.advance_bind ?_)
  refine (AllEndBy.word hc).read (reads_caseSubject hg) fun subject c₁ hends ↦ ?_
  refine hends.skip reads_skipTerminators fun _ c₂ hends ↦ ?_
  refine hends.readOrEmpty (readsOrEmpty_whenClauses hg) fun whens c₃ horEmpty ↦ ?_
  have hreport := (reads_fail (.unsupported "case without when") c₃ horEmpty.moves.stands).mono
    fun _ _ hfail ↦ horEmpty.keep (.refl horEmpty.moves.origin) hfail.moves
  refine .optional hreport horEmpty fun c₄ horEmpty ↦ ?_
  refine (gives_bodyBehind hg _ _ horEmpty.moves.stands).bind fun elseBranch c₅ helse ↦ ?_
  refine (horEmpty.trans helse.1).expectWord fun c₆ hends ↦ ?_
  exact hends.finish (List.cons_ne_nil _ _) rfl (by grind [Node.pieces])

end Control

/-! ## Definitions -/

section Definitions

theorem reads_constSegments (first : String) : Reads source (constSegments first) fun _ ↦ [] := by
  intro c hc
  refine gives_iterate (fun _ c' ↦ AllEndBy source c c' []) (.refl hc) fun segments c₁ hends ↦
    .get_bind ?_
  split
  · exact .advance_bind (.advance_bind (.pure (hends.advance.advance.subset (List.nil_subset _))))
  · exact .pure hends

/-- The name of a class or module, or a report. -/
theorem gives_constPath (hc : c.Stands source) :
    Gives c constPath? fun name c' ↦
      AllEndBy source c c' (name.toList.map fun name ↦ .word name.span) ∧
        (name = none → c'.errors ≠ []) := by
  refine .currentStart_bind ((AllEndBy.refl hc).skip (reads_eat _) fun absolute c₁ hends ↦
    .currentKind_bind ?_)
  split
  · refine .advance_bind (hends.advance.skip (reads_constSegments _) fun segments c₂ hends ↦ ?_)
    exact .spanFrom_bind (.pure ⟨hends.name (List.cons_ne_nil _ _), fun h ↦ by cases h⟩)
  · exact hends.fail fun c₂ hmoves herrors ↦ .pure ⟨.nil hmoves, fun _ ↦ herrors⟩

include hg

/-- A definition that is skipped has been reported. -/
theorem gives_skipDefinition (h : Moves source c₀ c) (herrors : c.errors ≠ []) :
    Gives c (skipDefinition g c₀.front) (ExprBetween source c₀) := by
  refine (AllEndBy.refl h.stands).readOrEmpty ((readsOrEmpty_body hg _).inScope false)
    fun inner c₁ horEmpty ↦ ?_
  refine horEmpty.expectWord fun c₂ hends ↦ .spanFrom_bind (.pure ?_)
  exact exprBetween_skipped (h.trans hends.moves) fun h' ↦ herrors (hends.moves.errors h')

/-- A singleton class starts with the word that its definition starts with. -/
theorem gives_singletonClass (h : AllEndBy source c₀ c pieces) :
    Gives c (singletonClass g c₀.front) (ExprBetween source c₀) := by
  refine h.readExpr hg.expr fun target c₁ hends ↦ ?_
  refine hends.readOrEmpty ((readsOrEmpty_body hg _).inScope false) fun inner c₂ horEmpty ↦ ?_
  refine horEmpty.expectWord fun c₃ hends ↦ ?_
  exact hends.finish (List.cons_ne_nil _ _) rfl (by grind [Node.pieces])

theorem reads_superclass : Reads source (superclass? g) ofExpr? := by
  intro c hc
  refine (AllEndBy.refl hc).orEmpty.eat (fun hlt ↦ ?_) (.pure (.refl hc))
  exact hlt.readExpr hg.expr fun _ _ hends ↦ .pure (hends.subset (by grind [ofExpr?]))

theorem readsExpr_classDefinition : ReadsExpr source (classDefinition g) := by
  refine fun c hc ↦ .currentStart_bind (.advance_bind ?_)
  have hclass := AllEndBy.word hc
  refine hclass.orEmpty.eat (fun hsingleton ↦ gives_singletonClass hg hsingleton) ?_
  refine (gives_constPath hclass.moves.stands).bind fun name c₁ hname ↦ ?_
  obtain ⟨hname, hnone⟩ := hname
  have hends := hclass.trans hname
  split
  · exact gives_skipDefinition hg hends.moves (hnone rfl)
  · refine hends.read (reads_superclass hg) fun superclass c₂ hends ↦ ?_
    refine hends.readOrEmpty ((readsOrEmpty_rescuedBody hg).inScope false)
      fun inner c₃ horEmpty ↦ ?_
    refine horEmpty.expectWord fun c₄ hends ↦ ?_
    exact hends.finish (List.cons_ne_nil _ _) rfl (by grind [Node.pieces])

theorem readsExpr_moduleDefinition : ReadsExpr source (moduleDefinition g) := by
  refine fun c hc ↦ .currentStart_bind (.advance_bind ?_)
  have hmodule := AllEndBy.word hc
  refine (gives_constPath hmodule.moves.stands).bind fun name c₁ hname ↦ ?_
  obtain ⟨hname, hnone⟩ := hname
  have hends := hmodule.trans hname
  split
  · exact gives_skipDefinition hg hends.moves (hnone rfl)
  · refine hends.readOrEmpty ((readsOrEmpty_body hg _).inScope false) fun inner c₂ horEmpty ↦ ?_
    refine horEmpty.expectWord fun c₃ hends ↦ ?_
    exact hends.finish (List.cons_ne_nil _ _) rfl (by grind [Node.pieces])

omit hg in
/-- An expression that is a token. -/
theorem exprBetween_token {node : Node} (hc : c.Stands source) (hnode : node.isError = false)
    (hparts : node.pieces ⊆ [.word c.current.span]) :
    ExprBetween source c ⟨node, c.current.span⟩ c.advance where
  allEndBy := by
    have hword := AllEndBy.word hc
    exact (AllEndBy.nil hword.moves).cons ((hword.endsBy _ List.mem_cons_self).expr hnode hparts)
  start_eq := rfl
  stop_le := Nat.le_max_right _ _

omit hg in
theorem reads_definitionReceiver : Reads source definitionReceiver? ofExpr? := by
  refine fun c hc ↦ .get_bind ?_
  dsimp only
  split
  · rename_i node _ hnode
    have hplain : node.isError = false ∧ node.pieces = [] := by
      split at hnode
      all_goals cases hnode
      all_goals exact ⟨rfl, rfl⟩
    have hbetween := exprBetween_token hc hplain.1 (by simp [hplain.2])
    have hdot := Moves.advance hbetween.allEndBy.moves.stands
    exact .advance_bind (.advance_bind (.pure (hbetween.keep hdot).allEndBy))
  · exact .pure (.refl hc)

omit hg in
/-- A name for a method is the current token. -/
theorem gives_baseMethodName (hc : c.Stands source) :
    Gives c baseMethodName? fun name c' ↦
      AllEndBy source c c' (name.elim [] fun _ ↦ [.word c.current.span]) := by
  have hword := AllEndBy.word hc
  refine .currentKind_bind ?_
  split
  case h_4 =>
    refine .advance_bind (hword.orEmpty.eat (fun hbracket ↦ .pure ?_) (.pure ?_))
    · exact hbracket.subset (List.subset_cons_self _ _)
    · exact hword.subset (List.nil_subset _)
  case h_5 =>
    split
    · exact .advance_bind (.pure hword)
    · exact .pure (.refl hc)
  case h_6 => exact .pure (.refl hc)
  all_goals exact .advance_bind (.pure hword)

omit hg in
theorem reads_definitionName :
    Reads source definitionName? fun name ↦ name.toList.map fun name ↦ .word name.span := by
  refine fun c hc ↦ .currentStart_bind ((gives_baseMethodName hc).bind fun name c₁ hends ↦ ?_)
  split
  · exact .pure hends
  · refine .get_bind ?_
    split
    · exact .advance_bind (.spanFrom_bind (.pure (hends.advance.name (List.cons_ne_nil _ _))))
    · exact .spanFrom_bind (.pure (hends.name (List.cons_ne_nil _ _)))

theorem reads_definitionParams :
    Reads source (definitionParams g) fun params ↦ params.map .param := by
  refine fun c hc ↦ .get_bind ?_
  split
  · exact .advance_bind ((AllEndBy.word hc).enclosedParams hg)
  split
  · exact .pure (.refl hc)
  · exact reads_paramList hg none c hc

theorem reads_definitionBody : Reads source (definitionBody g) fun value ↦ [.body value] := by
  intro c hc
  refine (AllEndBy.refl hc).orEmpty.eat (fun hassign ↦ ?_) ?_
  · refine hassign.skip reads_skipNewlines fun _ c₁ hends ↦ .currentStart_bind ?_
    refine (readsExpr_statement hg c₁ hends.moves.stands).bind fun value c₂ hvalue ↦ ?_
    have hbody : AllEndBy source c₁ c₂ [.body ⟨[value], c₂.spanFrom c₁.front⟩] :=
      hvalue.allEndBy.build (List.cons_ne_nil _ _) rfl (List.pairwise_singleton _ _) rfl
        (List.Subset.refl _)
    exact .spanFrom_bind (.pure ((hends.trans hbody).subset (by grind)))
  · refine (readsOrEmpty_rescuedBody hg c hc).bind fun inner c₁ horEmpty ↦ ?_
    exact horEmpty.expectWord fun c₂ hends ↦ .pure (hends.subset (by grind))

theorem readsExpr_methodDefinition : ReadsExpr source (methodDefinition g) := by
  refine fun c hc ↦ .currentStart_bind (.advance_bind ?_)
  refine (AllEndBy.word hc).read reads_definitionReceiver fun receiver c₁ hends ↦ ?_
  refine hends.read reads_definitionName fun name c₂ hends ↦ ?_
  split
  · exact hends.fail fun c₃ hmoves herrors ↦ gives_skipDefinition hg hmoves herrors
  · refine hends.read (Parse.Reads.inScope false fun c hc ↦ ?_) fun inside c₃
      (hends : AllEndBy source c c₃ ((inside.1.map .param ++ [.body inside.2]) ++ _)) ↦ ?_
    · refine (AllEndBy.refl hc).read (reads_definitionParams hg) fun params c₁ hends ↦ ?_
      refine hends.skip (reads_declareParams params) fun _ c₂ hends ↦ ?_
      refine hends.read (reads_definitionBody hg) fun inner c₃ hends ↦ ?_
      exact .pure (hends.subset (by grind))
    · exact hends.finish (by simp) rfl (by grind [Node.pieces])

end Definitions

/-! ## Operands -/

section Operands

/-- An expression of one token spans that token. -/
theorem readsExpr_tokenExpr {node : Node} (hnode : node.isError = false)
    (hparts : node.pieces = []) :
    ReadsExpr source (tokenExpr node) :=
  fun _ hc ↦ .currentSpan_bind
    (.advance_bind (.pure (exprBetween_token hc hnode (by simp [hparts]))))

theorem readsExpr_symbolLiteral (name : String) : ReadsExpr source (symbolLiteral name) := by
  refine fun c hc ↦ .currentStart_bind (.advance_bind (.get_bind ?_))
  have hword := AllEndBy.word hc
  split
  · exact .advance_bind (hword.advance.finish (List.cons_ne_nil _ _) rfl (List.nil_subset _))
  · exact hword.finish (List.cons_ne_nil _ _) rfl (List.nil_subset _)

/-- The words of a list stand where the list stands. -/
theorem readsExpr_wordList (words : List String) (item : String → Literal) :
    ReadsExpr source (wordList words item) := by
  refine fun c hc ↦ .currentSpan_bind (.advance_bind (.pure ⟨?_, rfl, Nat.le_max_right _ _⟩))
  have hends := AllEndBy.word hc
  have hword := hends.endsBy _ List.mem_cons_self
  refine (AllEndBy.nil hends.moves).cons
    (hword.of_span_eq rfl trivial (.inl rfl) fun part hpart ↦ ?_)
  obtain ⟨value, hvalue, rfl⟩ := List.mem_map.1 hpart
  obtain ⟨word, -, rfl⟩ := List.mem_map.1 hvalue
  exact ⟨hword.expr rfl (List.nil_subset _), fun _ ↦ .refl _⟩

include hg

/-- Whether a name is a variable or a call, the expression starts with it. -/
theorem readsExpr_identifier (name : String) : ReadsExpr source (identifier g name) := by
  refine fun c hc ↦ .currentSpan_bind (.advance_bind (.get_bind ?_))
  split
  · exact .pure (exprBetween_token hc rfl (List.nil_subset _))
  · exact gives_callTail hg false (AllEndBy.word hc) (List.Subset.refl _)

theorem readsExpr_constant (name : String) : ReadsExpr source (constant g name) := by
  refine fun c hc ↦ .currentSpan_bind (.advance_bind (.get_bind ?_))
  split
  · exact gives_callTail hg false (AllEndBy.word hc) (List.Subset.refl _)
  · refine (AllEndBy.word hc).skip (reads_constSegments name) fun segments c₁ hends ↦ ?_
    exact hends.finish (List.cons_ne_nil _ _) rfl (List.nil_subset _)

omit hg in
theorem readsExpr_rootConstant : ReadsExpr source rootConstant := by
  refine fun c hc ↦ .currentStart_bind (.advance_bind (.currentKind_bind ?_))
  split
  · refine .advance_bind
      ((AllEndBy.word hc).advance.skip (reads_constSegments _) fun _ c₁ hends ↦ ?_)
    exact hends.finish (List.cons_ne_nil _ _) rfl (List.nil_subset _)
  · exact (AllEndBy.word hc).fail fun c₁ hmoves herrors ↦
      .spanFrom_bind (.pure (exprBetween_skipped hmoves herrors))

theorem readsExpr_arrayLiteral : ReadsExpr source (arrayLiteral g) := by
  refine fun c hc ↦ .currentStart_bind (.advance_bind ?_)
  refine (AllEndBy.word hc).read (reads_enclosedArguments hg _ _) fun args c₁ hends ↦ ?_
  exact hends.finish (by simp) rfl (by grind [Node.pieces, Arguments.pieces])

theorem readsExpr_hashExpr : ReadsExpr source (hashExpr g) := by
  refine fun c hc ↦ .currentStart_bind (.advance_bind ?_)
  refine (AllEndBy.word hc).read (reads_hashLiteral hg) fun entries c₁ hends ↦ ?_
  exact hends.finish (by simp) rfl (by grind [Node.pieces])

theorem readsExpr_parenthesized : ReadsExpr source (parenthesized g) := by
  refine fun c hc ↦ .currentStart_bind (.advance_bind ?_)
  refine (AllEndBy.word hc).readOrEmpty ((readsOrEmpty_body hg _).withDo true)
    fun inner c₁ horEmpty ↦ ?_
  refine horEmpty.expect fun c₂ hends ↦ ?_
  exact hends.finish (List.cons_ne_nil _ _) rfl (by grind [Node.pieces])

theorem readsExpr_lambdaExpr : ReadsExpr source (lambdaExpr g) := by
  refine fun c hc ↦ .currentStart_bind (.advance_bind ?_)
  refine (gives_lambda hg (AllEndBy.word hc) (List.cons_ne_nil _ _)).bind fun block c₁ hends ↦ ?_
  exact hends.finish (List.cons_ne_nil _ _) rfl (List.Subset.refl _)

theorem readsExpr_beginExpr : ReadsExpr source (beginExpr g) := by
  refine fun c hc ↦ .currentStart_bind (.advance_bind ?_)
  refine (AllEndBy.word hc).readOrEmpty (readsOrEmpty_body hg _) fun main c₁ horEmpty ↦ ?_
  have hmain : AllEndByOrEmpty source c c₁ [.body main] := horEmpty.subset (by grind)
  refine (gives_rescueClauses hg hmain).bind fun node c₂ hnode ↦ ?_
  obtain ⟨horEmpty, hclausal, -⟩ := hnode
  refine horEmpty.expectWord fun c₃ hends ↦ ?_
  exact hends.finish (List.cons_ne_nil _ _) (isError_of_isClausal hclausal)
    (List.subset_cons_self _ _)

theorem readsExpr_returnExpr : ReadsExpr source (returnExpr g) := by
  refine fun c hc ↦ .currentStart_bind (.advance_bind (.get_bind ?_))
  split
  · exact (AllEndBy.word hc).finish (List.cons_ne_nil _ _) rfl (List.nil_subset _)
  · refine (AllEndBy.word hc).readExpr hg.expr fun value c₁ hends ↦ ?_
    exact hends.finish (List.cons_ne_nil _ _) rfl (by grind [Node.pieces, ofExpr?])

theorem readsExpr_yieldExpr : ReadsExpr source (yieldExpr g) := by
  refine fun c hc ↦ .currentStart_bind (.advance_bind ?_)
  refine (AllEndBy.word hc).read (reads_callArguments hg) fun args c₁ hends ↦ ?_
  exact hends.finish (by simp) rfl (by grind [Node.pieces, Arguments.pieces])

omit hg in
/-- A token that starts no expression is reported before anything stands for the expression. -/
theorem readsExpr_noExpression : ReadsExpr source noExpression := by
  refine fun c hc ↦ .get_bind ((gives_fail hc _).bind fun _ c₁ hfail ↦ ?_)
  obtain ⟨hmoves, herrors⟩ := hfail
  split
  case h_6 =>
    have hadvance := Moves.advance hmoves.stands
    exact .advance_bind (.spanFrom_bind (.pure (exprBetween_skipped (hmoves.trans hadvance)
      fun h ↦ herrors (hadvance.errors h))))
  all_goals exact .pure (exprBetween_hole hmoves herrors)

theorem readsExpr_primary : ReadsExpr source (primary g) := by
  refine fun c hc ↦ .currentKind_bind ?_
  split
  case h_8 => exact readsExpr_symbolLiteral _ c hc
  case h_9 => exact readsExpr_wordList _ _ c hc
  case h_10 => exact readsExpr_wordList _ _ c hc
  case h_14 => exact readsExpr_identifier hg _ c hc
  case h_15 => exact readsExpr_constant hg _ c hc
  case h_16 => exact readsExpr_rootConstant c hc
  case h_17 => exact readsExpr_arrayLiteral hg c hc
  case h_18 => exact readsExpr_hashExpr hg c hc
  case h_19 => exact readsExpr_parenthesized hg c hc
  case h_20 => exact readsExpr_lambdaExpr hg c hc
  case h_21 => exact readsExpr_classDefinition hg c hc
  case h_22 => exact readsExpr_moduleDefinition hg c hc
  case h_23 => exact readsExpr_methodDefinition hg c hc
  case h_24 => exact readsExpr_conditional hg _ c hc
  case h_25 => exact readsExpr_conditional hg _ c hc
  case h_26 => exact readsExpr_loop hg _ c hc
  case h_27 => exact readsExpr_loop hg _ c hc
  case h_28 => exact readsExpr_caseDistinction hg c hc
  case h_29 => exact readsExpr_beginExpr hg c hc
  case h_30 => exact readsExpr_returnExpr hg c hc
  case h_31 => exact readsExpr_yieldExpr hg c hc
  case h_32 => exact readsExpr_noExpression c hc
  all_goals exact readsExpr_tokenExpr rfl rfl c hc

end Operands

section Trailers

variable {value : Expr}

include hg

theorem gives_dotCall (h : ExprBetween source c₀ value c) :
    Gives c (dotCall g c₀.front value)
      (Round.Leaves (ExprBetween source c₀) (ExprBetween source c₀)) := by
  refine .get_bind (.advance_bind ?_)
  refine (AllEndBy.word h.allEndBy.moves.stands).skip reads_skipNewlines fun _ c₁ hdot ↦ ?_
  refine hdot.read reads_methodName fun name c₂ hname ↦ ?_
  split
  · refine (gives_callTail hg _ (h.allEndBy.trans hname) (by grind [ofExpr?])).bind
      fun _ _ hbetween ↦ .pure hbetween
  · exact hname.fail fun c₃ hmoves _ ↦ .pure (h.keep hmoves)

omit hg in
theorem isError_scopedNode (outer : Expr) (name : Spanned String) :
    (scopedNode outer name).isError = false := by
  unfold scopedNode
  split
  · rfl
  · rfl

omit hg in
/-- A scoped name has no more in it than the outer expression and the name. -/
theorem pieces_scopedNode (outer : Expr) (name : Spanned String) :
    (scopedNode outer name).pieces ⊆ [.word name.span, .expr outer] := by
  unfold scopedNode
  split
  · exact List.nil_subset _
  · grind [Node.pieces, Arguments.pieces, Arguments.none, ofExpr?, ofExprs]

theorem gives_scopedName (h : ExprBetween source c₀ value c) :
    Gives c (scopedName g c₀.front value)
      (Round.Leaves (ExprBetween source c₀) (ExprBetween source c₀)) := by
  have hcolons := h.allEndBy.advance
  refine .advance_bind (.get_bind ?_)
  dsimp only
  split
  · refine .advance_bind ((hcolons.advance.finish (List.cons_ne_nil _ _) (isError_scopedNode _ _)
      ?_).bind fun _ _ hbetween ↦ .pure hbetween)
    exact List.Subset.trans (pieces_scopedNode _ _) (by simp)
  case h_4 =>
    refine (gives_fail hcolons.moves.stands _).bind fun _ c₂ hfail ↦ .pure ?_
    exact h.keep ((Moves.advance h.allEndBy.moves.stands).trans hfail.1)
  all_goals
    exact .advance_bind ((gives_callTail hg false hcolons.advance (by grind [ofExpr?])).bind
      fun _ _ hbetween ↦ .pure hbetween)

theorem gives_indexCall (h : ExprBetween source c₀ value c) :
    Gives c (indexCall g c₀.front value)
      (Round.Leaves (ExprBetween source c₀) (ExprBetween source c₀)) := by
  refine .currentSpan_bind (.advance_bind ?_)
  refine h.allEndBy.advance.read (reads_enclosedArguments hg _ _) fun args c₁ hends ↦ ?_
  exact (hends.finish (by simp) rfl (by grind [Node.pieces, ofExpr?])).bind
    fun _ _ hbetween ↦ .pure hbetween

/-- What hangs behind an expression extends it: the start stays, the end moves on. -/
theorem gives_trailer (h : ExprBetween source c₀ value c) :
    Gives c (trailer g c₀.front value)
      (Round.Leaves (ExprBetween source c₀) (ExprBetween source c₀)) := by
  refine .get_bind ?_
  have hline := (reads_advance c h.allEndBy.moves.stands).mono fun _ _ hends ↦ h.keep hends.moves
  refine .optional hline h fun c₁ h ↦ .get_bind ?_
  split
  · exact gives_dotCall hg h
  · exact gives_dotCall hg h
  · exact gives_scopedName hg h
  · split
    · exact .pure h
    · exact gives_indexCall hg h
  · exact .pure h

theorem readsExpr_trailed : ReadsExpr source (trailed g) := by
  refine fun c hc ↦ .currentStart_bind ((readsExpr_primary hg c hc).bind fun first c₁ hfirst ↦ ?_)
  exact gives_iterate (ExprBetween source c) hfirst fun _ _ ↦ gives_trailer hg

end Trailers

section Operators

theorem isError_negated (opSpan : Span) (value : Expr) :
    (negated opSpan value).isError = false := by
  unfold negated
  split
  · rfl
  · rfl
  · rfl

/-- A negated expression has no more in it than the expression and the sign. -/
theorem pieces_negated (opSpan : Span) (value : Expr) :
    (negated opSpan value).pieces ⊆ [.expr value, .word opSpan] := by
  unfold negated
  split
  · exact List.nil_subset _
  · exact List.nil_subset _
  · grind [Node.pieces]

include hg

theorem readsExpr_operand : ReadsExpr source (operand g) := by
  refine fun c hc ↦ .currentSpan_bind (.currentKind_bind ?_)
  have hop := AllEndBy.word hc
  split
  case h_5 => exact readsExpr_trailed hg c hc
  case h_3 =>
    refine .advance_bind (hop.readExpr hg.unary fun inner c₁ hends ↦ ?_)
    exact hends.finish (List.cons_ne_nil _ _) (isError_negated _ _) (pieces_negated _ _)
  all_goals
    refine .advance_bind (hop.readExpr hg.unary fun inner c₁ hends ↦ ?_)
    exact hends.finish (List.cons_ne_nil _ _) rfl (by grind [Node.pieces])

/-- By induction over the rounds of the chain: each operation starts where the chain does. -/
theorem readsExpr_chain (least : Precedence) : ReadsExpr source (chain g least) := by
  refine fun c hc ↦ .currentStart_bind ((hg.unary c hc).bind fun first c₁ hfirst ↦ ?_)
  refine gives_iterate (ExprBetween source c) hfirst fun left c₂ hleft ↦ .get_bind ?_
  split
  · split
    · exact .pure hleft
    · refine .advance_bind (hleft.allEndBy.advance.skip reads_skipNewlines fun _ c₃ hends ↦ ?_)
      refine hends.readExpr (hg.binary _) fun right c₄ hends ↦ ?_
      exact (hends.finish (List.cons_ne_nil _ _) rfl (by grind [Node.pieces])).bind
        fun _ _ hbetween ↦ .pure hbetween
  · exact .pure hleft

/-- A ternary starts where its condition does. -/
theorem gives_ternary {condition : Expr}
    (h : AllEndBy source c₀ c pieces) (hcondition : .expr condition ∈ pieces) :
    Gives c (ternary g c₀.front condition) (ExprBetween source c₀) := by
  refine h.skip reads_skipNewlines fun _ c₁ hends ↦ ?_
  refine hends.readExpr hg.expr fun thenExpr c₂ hends ↦ ?_
  have hthen := hends.cons (hends.endsBy _ List.mem_cons_self).single
  refine hthen.skip reads_skipNewlines fun _ c₃ hends ↦ hends.orEmpty.expect fun c₄ hends ↦ ?_
  refine hends.skip reads_skipNewlines fun _ c₅ hends ↦ ?_
  refine hends.readExpr hg.expr fun elseExpr c₆ hends ↦ ?_
  have helse := hends.cons (hends.endsBy _ List.mem_cons_self).single
  exact helse.finish (List.cons_ne_nil _ _) rfl (by grind [Node.pieces, ofBody?])

theorem readsExpr_assignment : ReadsExpr source (assignment g) := by
  refine fun c hc ↦ .currentStart_bind ((hg.binary _ c hc).bind fun left c₁ hleft ↦ .get_bind ?_)
  split
  · have hassign := Moves.advance hleft.allEndBy.moves.stands
    refine .advance_bind
      ((AllEndBy.refl hassign.stands).skip reads_skipNewlines fun _ c₂ hskip ↦ ?_)
    refine (gives_assignTarget (hleft.keep (hassign.trans hskip.moves))).bind
      fun target c₃ htarget ↦ ?_
    refine htarget.allEndBy.readExpr hg.expr fun value c₄ hends ↦ ?_
    exact hends.finish (List.cons_ne_nil _ _) rfl (by grind [Node.pieces])
  · refine hleft.allEndBy.orEmpty.eat (fun hquestion ↦ ?_) (.pure hleft)
    exact gives_ternary hg hquestion (by simp)

end Operators

/-- At every nesting level expressions start and end where they were read. -/
theorem readsExpr_grammar (source : String) (levels : Nat) :
    (grammar levels).ReadsExprs source := by
  induction levels with
  | zero =>
    have habandon : ReadsExpr source (nested abandon) := readsExpr_abandon.nested
    exact ⟨habandon, habandon, fun _ ↦ habandon, habandon⟩
  | succ levels ih =>
    exact ⟨(readsExpr_notOperand ih).nested, (readsExpr_assignment ih).nested,
      fun least ↦ (readsExpr_chain ih least).nested, (readsExpr_operand ih).nested⟩

end DeclaredMethods.Source
