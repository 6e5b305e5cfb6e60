import DeclaredMethods.Proofs.Order.Arguments
import DeclaredMethods.Proofs.Places.Expressions

/-!
# The order of expressions

Calls, conditionals, definitions and operands list what they are made of in the order in which it is
read, and so the whole grammar reads written expressions.
-/

namespace DeclaredMethods.Source

open Cursor (Moves)
open Parse

variable {source : String} {g : Grammar} {c₀ c : Cursor} {children : List Child}
  (hg : g.Lines source)

section Calls

include hg

theorem lines_callArguments : LinesArguments source (callArguments g) := by
  refine fun c hc hdraws ↦ .get_bind ?_
  split
  · have hparen := (Row.refl hc hdraws).advance
    refine .advance_bind ((lines_enclosedArguments hg _ _ _ hparen.moves.stands hparen.draws).mono
      fun args c' hargs ↦ ⟨hparen.moves.trans hargs.moves, hargs.draws, fun herrors ↦ ?_⟩)
    exact (hargs.holds herrors).mono hparen.moves.front_le (Nat.le_refl _)
  split
  · exact lines_commandArguments hg c hc hdraws
  · exact .pure ⟨.refl hc, hdraws, fun _ ↦ .none⟩

theorem lines_callBlock :
    Lines source (callBlock? g) fun block ↦ block.toList.flatMap Child.ofBlock := by
  refine fun c hc hdraws ↦ .get_bind ?_
  have hrow := Row.refl hc hdraws
  split
  · exact hrow.read (lines_braceBlock hg) fun _ _ hrow ↦ .pure (by simpa using hrow)
  split
  · exact hrow.read (lines_doBlock hg) fun _ _ hrow ↦ .pure (by simpa using hrow)
  · exact .pure hrow

/-- Of a call the receiver is written first, then the arguments, then the block. -/
theorem gives_rowCall {receiver : Option Expr} {name : Spanned String}
    (safe : Bool) (h : Row source c₀ c (Child.ofOption receiver))
    (hname : receiver = none → c₀.front < name.span.stop ∧ name.span.stop ≤ c.front) :
    Gives c (callTail g receiver name safe c₀.front) (RowExpr source c₀) := by
  refine (lines_callArguments hg c h.moves.stands h.draws).bind fun args c₁ hargs ↦ ?_
  refine (lines_callBlock hg c₁ hargs.moves.stands hargs.draws).bind fun block c₂ hblock ↦ ?_
  exact .spanFrom_bind (.pure (h.call safe hname hargs hblock))

end Calls

section Control

include hg

/-- The branches of a conditional are written one after another, each further condition in the
branch of the one before it. -/
theorem gives_rowConditionalUpTo (bound : Nat) (negated : Bool)
    (hc : c.Stands source) (hdraws : c.DrawsFrom source) :
    Gives c (conditionalUpTo g bound negated) fun node c' ↦
      Row source c c' node.children ∧ node.isOwnCall = false := by
  induction bound generalizing negated c with
  | zero => exact triple_failure
  | succ bound ih =>
    refine (Row.refl hc hdraws).read (lines_notExpr hg) fun condition c₁ hrow ↦ ?_
    refine hrow.skip (reads_eatWord _) fun _ c₂ hrow ↦ ?_
    refine hrow.read (lines_body hg _) fun thenBranch c₃ hrow ↦ .get_bind ?_
    have helse := (Row.refl hrow.moves.stands hrow.draws).advance
    split
    · refine .advance_bind ((ih false helse.moves.stands helse.draws).bind fun inner c₄ hinner ↦ ?_)
      have hbranch : Row source c₃ c₄ [.expr ⟨inner, c₄.spanFrom c₃.front⟩] :=
        (helse.trans hinner.1).expr (.refl _) hinner.2
      exact .spanFrom_bind (.pure ⟨hrow.trans hbranch.single, rfl⟩)
    · refine .advance_bind (hrow.advance.read (lines_body hg _) fun elseBranch c₄ hrow ↦ ?_)
      exact .pure ⟨hrow, rfl⟩
    · exact .pure ⟨hrow, rfl⟩

theorem lines_conditional (negated : Bool) : LinesExpr source (conditional g negated) := by
  refine fun c hc hdraws ↦ .currentStart_bind (.advance_bind (.get_bind ?_))
  have hif := (Row.refl hc hdraws).advance
  refine (gives_rowConditionalUpTo hg _ negated hif.moves.stands hif.draws).bind
    fun node c₁ hnode ↦ ?_
  exact (hif.trans hnode.1).expectWord fun c₂ hrow ↦ hrow.finish (.refl _) hnode.2

theorem lines_loop (negated : Bool) : LinesExpr source (loop g negated) := by
  refine fun c hc hdraws ↦ .currentStart_bind (.advance_bind ?_)
  refine (Row.refl hc hdraws).advance.read ((lines_notExpr hg).withDo false)
    fun condition c₁ hrow ↦ ?_
  refine hrow.skip (reads_eatWord _) fun _ c₂ hrow ↦ ?_
  refine hrow.read (lines_body hg _) fun inner c₃ hrow ↦ hrow.expectWord fun c₄ hrow ↦ ?_
  exact hrow.finish (.refl _) rfl

theorem lines_whenClauses : Lines source (whenClauses g) (·.flatMap WhenClause.children) := by
  intro c hc hdraws
  refine gives_iterate (fun whens c' ↦ Row source c c' (List.flatMap WhenClause.children whens))
    (.refl hc hdraws) fun whens c₁ hrow ↦ hrow.eatWord (fun hwhen ↦ ?_) (.pure hrow)
  refine hwhen.read hg.expr fun first c₂ hrow ↦ ?_
  have hpatterns : Row source c c₂ (whens.flatMap WhenClause.children ++ [first].map .expr) := hrow
  refine (hpatterns.whileComma (lines_exprBehindNewlines hg)).bind fun patterns c₃ hrow ↦ ?_
  refine hrow.skip (reads_eatWord _) fun _ c₄ hrow ↦ ?_
  refine hrow.read (lines_body hg _) fun inner c₅ hrow ↦ .pure ?_
  simpa [Round.Leaves, WhenClause.children] using hrow

theorem lines_caseSubject : Lines source (caseSubject? g) Child.ofOption := by
  refine fun c hc hdraws ↦ .get_bind ?_
  have hrow := Row.refl hc hdraws
  split
  · exact .pure hrow
  · exact hrow.read (lines_notExpr hg) fun _ _ hrow ↦ .pure hrow

/-- The subject is written in front of the clauses, and those in front of the other branch. -/
theorem lines_caseDistinction : LinesExpr source (caseDistinction g) := by
  refine fun c hc hdraws ↦ .currentStart_bind (.advance_bind ?_)
  refine (Row.refl hc hdraws).advance.read (lines_caseSubject hg) fun subject c₁ hrow ↦ ?_
  refine hrow.skip reads_skipTerminators fun _ c₂ hrow ↦ ?_
  refine hrow.read (lines_whenClauses hg) fun whens c₃ hrow ↦ ?_
  refine hrow.skipIf (reads_fail _) fun c₄ hrow ↦ ?_
  refine hrow.read (lines_bodyBehind hg _ _) fun elseBranch c₅ hrow ↦ ?_
  exact hrow.expectWord fun c₆ hrow ↦ hrow.finish (.refl _) rfl

end Control

/-! ## Definitions -/

section Definitions

theorem reads_constPath :
    Reads source constPath? fun name ↦ name.toList.map fun name ↦ .word name.span :=
  fun _ hc ↦ (gives_constPath hc).mono fun _ _ hname ↦ hname.1

include hg

/-- A definition that is skipped has no children, whatever was read of it. -/
theorem gives_rowSkipped (h : Row source c₀ c children) :
    Gives c (skipDefinition g c₀.front) (RowExpr source c₀) := by
  refine h.read ((lines_body hg _).inScope false) fun inner c₁ hrow ↦ ?_
  exact hrow.expectWord fun c₂ hrow ↦ hrow.finish (List.nil_sublist _) rfl

theorem gives_rowSingletonClass (h : Row source c₀ c []) :
    Gives c (singletonClass g c₀.front) (RowExpr source c₀) := by
  refine h.read hg.expr fun target c₁ hrow ↦ ?_
  refine hrow.read ((lines_body hg _).inScope false) fun inner c₂ hrow ↦ ?_
  exact hrow.expectWord fun c₃ hrow ↦ hrow.finish (.refl _) rfl

theorem lines_superclass : Lines source (superclass? g) Child.ofOption := by
  intro c hc hdraws
  have hrow := Row.refl hc hdraws
  exact hrow.eat (fun hlt ↦ hlt.read hg.expr fun _ _ hrow ↦ .pure hrow) (.pure hrow)

theorem lines_classDefinition : LinesExpr source (classDefinition g) := by
  refine fun c hc hdraws ↦ .currentStart_bind (.advance_bind ?_)
  have hclass := (Row.refl hc hdraws).advance
  refine hclass.eat (fun hsingleton ↦ gives_rowSingletonClass hg hsingleton) ?_
  refine hclass.skip reads_constPath fun name c₁ hrow ↦ ?_
  split
  · exact gives_rowSkipped hg hrow
  · refine hrow.read (lines_superclass hg) fun superclass c₂ hrow ↦ ?_
    refine hrow.read ((lines_rescuedBody hg).inScope false) fun inner c₃ hrow ↦ ?_
    exact hrow.expectWord fun c₄ hrow ↦ hrow.finish (.refl _) rfl

theorem lines_moduleDefinition : LinesExpr source (moduleDefinition g) := by
  refine fun c hc hdraws ↦ .currentStart_bind (.advance_bind ?_)
  refine (Row.refl hc hdraws).advance.skip reads_constPath fun name c₁ hrow ↦ ?_
  split
  · exact gives_rowSkipped hg hrow
  · refine hrow.read ((lines_body hg _).inScope false) fun inner c₂ hrow ↦ ?_
    exact hrow.expectWord fun c₃ hrow ↦ hrow.finish (.refl _) rfl

omit hg in
/-- An expression that is a token. -/
theorem row_token {node : Node} (hc : c.Stands source) (hdraws : c.DrawsFrom source)
    (hchildren : node.children = []) (hnode : node.isOwnCall = false) :
    Row source c c.advance [.expr ⟨node, c.current.span⟩] where
  moves := .advance hc
  draws := hdraws.advance
  holds _ := by
    refine Lined.nil.expr ?_ hnode (Nat.le_refl _) hc.stop_le_next
    rw [hchildren]

omit hg in
theorem lines_definitionReceiver : Lines source definitionReceiver? Child.ofOption := by
  refine fun c hc hdraws ↦ .get_bind ?_
  dsimp only
  split
  · rename_i node _ hnode
    have hplain : node.children = [] ∧ node.isOwnCall = false := by
      split at hnode
      all_goals cases hnode
      all_goals exact ⟨rfl, rfl⟩
    exact .advance_bind (.advance_bind (.pure (row_token hc hdraws hplain.1 hplain.2).advance))
  · exact .pure (Row.refl hc hdraws)

theorem lines_definitionParams : Lines source (definitionParams g) Child.ofParams := by
  refine fun c hc hdraws ↦ .get_bind ?_
  have hrow := Row.refl hc hdraws
  split
  · exact .advance_bind (hrow.advance.enclosedParams hg)
  split
  · exact .pure hrow
  · exact lines_paramList hg none c hc hdraws

theorem lines_definitionBody : Lines source (definitionBody g) fun value ↦ [.body value] := by
  intro c hc hdraws
  have hrow := Row.refl hc hdraws
  refine hrow.eat (fun hassign ↦ ?_) ?_
  · refine hassign.skip reads_skipNewlines fun _ c₁ hrow ↦ .currentStart_bind ?_
    refine (lines_statement hg c₁ hrow.moves.stands hrow.draws).bind fun value c₂
      (hvalue : Row source c₁ c₂ ([value].map .expr)) ↦ ?_
    have hbody : Row source c₁ c₂ [.body ⟨[value], c₂.spanFrom c₁.front⟩] := hvalue.body
    exact .spanFrom_bind (.pure (hrow.trans hbody))
  · refine hrow.read (lines_rescuedBody hg) fun inner c₁ hrow ↦ ?_
    exact hrow.expectWord fun c₂ hrow ↦ .pure hrow

theorem lines_methodDefinition : LinesExpr source (methodDefinition g) := by
  refine fun c hc hdraws ↦ .currentStart_bind (.advance_bind ?_)
  refine (Row.refl hc hdraws).advance.read lines_definitionReceiver fun receiver c₁ hrow ↦ ?_
  refine hrow.skip reads_definitionName fun name c₂ hrow ↦ ?_
  split
  · exact hrow.skip (reads_fail _) fun _ c₃ hrow ↦ gives_rowSkipped hg hrow
  · refine hrow.read (Parse.Tracks.inScope false fun c hc hdraws ↦ ?_) fun inside c₃
      (hrow : Row source c c₃ (([] ++ Child.ofOption receiver) ++
        (Child.ofParams inside.1 ++ [.body inside.2]))) ↦ ?_
    · refine (Row.refl hc hdraws).read (lines_definitionParams hg) fun params c₁ hrow ↦ ?_
      refine hrow.skip (reads_declareParams params) fun _ c₂ hrow ↦ ?_
      exact hrow.read (lines_definitionBody hg) fun inner c₃ hrow ↦ .pure hrow
    · rw [← List.append_assoc] at hrow
      exact hrow.finish (.refl _) rfl

end Definitions

/-! ## Operands -/

section Operands

/-- An expression of one token has nothing that could be out of order. -/
theorem lines_tokenExpr {node : Node} (hchildren : node.children = [])
    (hnode : node.isOwnCall = false) : LinesExpr source (tokenExpr node) :=
  fun _ hc hdraws ↦
    .currentSpan_bind (.advance_bind (.pure (row_token hc hdraws hchildren hnode)))

theorem lines_symbolLiteral (name : String) : LinesExpr source (symbolLiteral name) := by
  refine fun c hc hdraws ↦ .currentStart_bind (.advance_bind (.get_bind ?_))
  have hrow := (Row.refl hc hdraws).advance
  split
  · exact .advance_bind (hrow.advance.finish (.refl _) rfl)
  · exact hrow.finish (.refl _) rfl

/-- The words of a list are literals at the place of the list. -/
theorem lined_words {lower upper : Nat} {span : Span} (words : List String)
    (item : String → Literal) (hlower : lower ≤ span.start) (hupper : span.stop ≤ upper) :
    Lined lower (words.map fun word ↦ .expr ⟨.literal (item word), span⟩) upper := by
  have hword (word : String) : Lined lower [.expr ⟨.literal (item word), span⟩] upper :=
    Lined.nil.expr (.refl _) rfl hlower hupper
  refine ⟨fun child hchild ↦ ?_, ?_, fun child hchild ↦ ?_⟩
  · obtain ⟨word, -, rfl⟩ := List.mem_map.1 hchild
    exact (hword word).within _ List.mem_cons_self
  · refine List.pairwise_map.2 (List.pairwise_of_forall fun first second part hpart ↦ ?_)
    rw [List.mem_singleton.1 hpart]
    exact .inl rfl
  · obtain ⟨word, -, rfl⟩ := List.mem_map.1 hchild
    exact (hword word).written _ List.mem_cons_self

theorem lines_wordList (words : List String) (item : String → Literal) :
    LinesExpr source (wordList words item) := by
  refine fun c hc hdraws ↦ .currentSpan_bind (.advance_bind (.pure ?_))
  refine ⟨.advance hc, hdraws.advance, fun _ ↦ ?_⟩
  have hwords := lined_words words item (Nat.le_refl _) hc.stop_le_next
  refine hwords.expr ?_ rfl (Nat.le_refl _) hc.stop_le_next
  rw [Node.children, List.map_map]
  exact .refl _

include hg

/-- A call without a receiver that starts with its name. -/
theorem gives_rowOwnCall (name : String) (hc : c.Stands source)
    (hdraws : c.DrawsFrom source) (hend : c.atEnd = false) :
    Gives c.advance (callTail g none ⟨name, c.current.span⟩ false c.front) (RowExpr source c) :=
  gives_rowCall hg false (Row.refl hc hdraws).advance fun _ ↦
    ⟨hdraws.front_lt_stop hend, hc.stop_le_next⟩

/-- A name is a variable, or a call that starts with the name. -/
theorem gives_rowIdentifier (name : String) (hc : c.Stands source)
    (hdraws : c.DrawsFrom source) (hend : c.atEnd = false) :
    Gives c (identifier g name) (RowExpr source c) := by
  refine .currentSpan_bind (.advance_bind (.get_bind ?_))
  split
  · exact .pure (row_token hc hdraws rfl rfl)
  · exact gives_rowOwnCall hg name hc hdraws hend

/-- A constant is a name, or a call that starts with it. -/
theorem gives_rowConstant (name : String) (hc : c.Stands source)
    (hdraws : c.DrawsFrom source) (hend : c.atEnd = false) :
    Gives c (constant g name) (RowExpr source c) := by
  refine .currentSpan_bind (.advance_bind (.get_bind ?_))
  split
  · exact gives_rowOwnCall hg name hc hdraws hend
  · refine (Row.refl hc hdraws).advance.skip (reads_constSegments name) fun segments c₁ hrow ↦ ?_
    exact hrow.finish (.refl _) rfl

omit hg in
theorem lines_rootConstant : LinesExpr source rootConstant := by
  refine fun c hc hdraws ↦ .currentStart_bind (.advance_bind (.currentKind_bind ?_))
  have hrow := (Row.refl hc hdraws).advance
  split
  · refine .advance_bind (hrow.advance.skip (reads_constSegments _) fun _ c₁ hrow ↦ ?_)
    exact hrow.finish (.refl _) rfl
  · exact hrow.skip (reads_fail _) fun _ c₁ hrow ↦ hrow.finish (.refl _) rfl

omit hg in
/-- An expression whose children are the positional arguments read behind its first token. -/
theorem gives_rowItems {step : Parse Arguments} {node : List Expr → Node}
    (hstep : LinesArguments source step)
    (hchildren : ∀ items, (node items).children = items.map .expr)
    (hitems : ∀ items, (node items).items = items) (hnode : ∀ items, (node items).isOwnCall = false)
    (hc : c.Stands source) (hdraws : c.DrawsFrom source) :
    Gives c.advance (do let args ← step; finish c.front (node args.positional))
      (RowExpr source c) := by
  have hfirst := (Row.refl hc hdraws).advance
  refine (hstep _ hfirst.moves.stands hfirst.draws).bind fun args c₁ hargs ↦ .finish_bind (.pure ?_)
  have hmoves := hfirst.moves.trans hargs.moves
  refine ⟨hmoves, hargs.draws, fun herrors ↦ ?_⟩
  have hlined := (hargs.holds herrors).mono hfirst.moves.front_le (Nat.le_refl _)
  exact hlined.expr (hchildren _) (hitems _) (hnode _) (Nat.le_refl _)
    (Nat.max_le.2 ⟨hargs.moves.stands.back_le_front, hmoves.front_le⟩)

theorem lines_arrayLiteral : LinesExpr source (arrayLiteral g) :=
  fun _ hc hdraws ↦ .currentStart_bind (.advance_bind (gives_rowItems
    (lines_enclosedArguments hg _ _) (fun _ ↦ rfl) (fun _ ↦ rfl) (fun _ ↦ rfl) hc hdraws))

theorem lines_yieldExpr : LinesExpr source (yieldExpr g) :=
  fun _ hc hdraws ↦ .currentStart_bind (.advance_bind (gives_rowItems
    (lines_callArguments hg) (fun _ ↦ rfl) (fun _ ↦ rfl) (fun _ ↦ rfl) hc hdraws))

theorem lines_hashExpr : LinesExpr source (hashExpr g) := by
  refine fun c hc hdraws ↦ .currentStart_bind (.advance_bind ?_)
  refine (Row.refl hc hdraws).advance.read (lines_hashLiteral hg) fun entries c₁ hrow ↦ ?_
  exact hrow.finish (.refl _) rfl

theorem lines_parenthesized : LinesExpr source (parenthesized g) := by
  refine fun c hc hdraws ↦ .currentStart_bind (.advance_bind ?_)
  refine (Row.refl hc hdraws).advance.read ((lines_body hg _).withDo true) fun inner c₁ hrow ↦ ?_
  exact hrow.expect fun c₂ hrow ↦ hrow.finish (.refl _) rfl

theorem lines_lambdaExpr : LinesExpr source (lambdaExpr g) := by
  refine fun c hc hdraws ↦ .currentStart_bind (.advance_bind ?_)
  refine (gives_rowLambda hg (Row.refl hc hdraws).advance).bind fun block c₁ hrow ↦ ?_
  exact hrow.finish (.refl _) rfl

theorem lines_beginExpr : LinesExpr source (beginExpr g) := by
  refine fun c hc hdraws ↦ .currentStart_bind (.advance_bind ?_)
  refine (Row.refl hc hdraws).advance.read (lines_body hg _) fun main c₁ hrow ↦ ?_
  refine (gives_rowClauses hg hrow).bind fun node c₂ hnode ↦ ?_
  exact hnode.1.expectWord fun c₃ hrow ↦ hrow.finish (.refl _) hnode.2

theorem lines_returnExpr : LinesExpr source (returnExpr g) := by
  refine fun c hc hdraws ↦ .currentStart_bind (.advance_bind (.get_bind ?_))
  have hrow := (Row.refl hc hdraws).advance
  split
  · exact hrow.finish (.refl _) rfl
  · exact hrow.read hg.expr fun value c₁ hrow ↦ hrow.finish (.refl _) rfl

omit hg in
theorem lines_noExpression : LinesExpr source noExpression := by
  refine fun c hc hdraws ↦ .get_bind ?_
  refine (Row.refl hc hdraws).report (gives_fail hc _) fun _ c₁ hmoves hdraws herrors ↦ ?_
  split
  case h_6 =>
    have hadvance := Moves.advance hmoves.stands
    exact .advance_bind (.spanFrom_bind (.pure (.of_errors (hmoves.trans hadvance) hdraws.advance
      fun h ↦ herrors (hadvance.errors h))))
  all_goals exact .pure (.of_errors hmoves hdraws herrors)

theorem lines_primary : LinesExpr source (primary g) := by
  refine fun c hc hdraws ↦ .currentKind_bind ?_
  split
  case h_8 => exact lines_symbolLiteral _ c hc hdraws
  case h_9 => exact lines_wordList _ _ c hc hdraws
  case h_10 => exact lines_wordList _ _ c hc hdraws
  case h_14 name hkind => exact gives_rowIdentifier hg name hc hdraws (atEnd_of_kind hkind rfl)
  case h_15 name hkind => exact gives_rowConstant hg name hc hdraws (atEnd_of_kind hkind rfl)
  case h_16 => exact lines_rootConstant c hc hdraws
  case h_17 => exact lines_arrayLiteral hg c hc hdraws
  case h_18 => exact lines_hashExpr hg c hc hdraws
  case h_19 => exact lines_parenthesized hg c hc hdraws
  case h_20 => exact lines_lambdaExpr hg c hc hdraws
  case h_21 => exact lines_classDefinition hg c hc hdraws
  case h_22 => exact lines_moduleDefinition hg c hc hdraws
  case h_23 => exact lines_methodDefinition hg c hc hdraws
  case h_24 => exact lines_conditional hg _ c hc hdraws
  case h_25 => exact lines_conditional hg _ c hc hdraws
  case h_26 => exact lines_loop hg _ c hc hdraws
  case h_27 => exact lines_loop hg _ c hc hdraws
  case h_28 => exact lines_caseDistinction hg c hc hdraws
  case h_29 => exact lines_beginExpr hg c hc hdraws
  case h_30 => exact lines_returnExpr hg c hc hdraws
  case h_31 => exact lines_yieldExpr hg c hc hdraws
  case h_32 => exact lines_noExpression c hc hdraws
  all_goals exact lines_tokenExpr rfl rfl c hc hdraws

end Operands

section Trailers

variable {value : Expr}

include hg

theorem gives_rowDotCall (h : Row source c₀ c [.expr value]) :
    Gives c (dotCall g c₀.front value) (Round.Leaves (RowExpr source c₀) (RowExpr source c₀)) := by
  refine .get_bind (.advance_bind ?_)
  refine h.advance.skip reads_skipNewlines fun _ c₁ hrow ↦ ?_
  refine hrow.skip reads_methodName fun name c₂ hrow ↦ ?_
  split
  · have hreceiver : Row source c₀ c₂ (Child.ofOption (some value)) := hrow
    exact (gives_rowCall hg _ hreceiver fun h ↦ by cases h).bind fun _ _ hrow ↦
      .pure hrow
  · exact hrow.skip (reads_fail _) fun _ c₃ hrow ↦ .pure hrow

omit hg in
/-- Behind a constant a scoped name makes a longer constant, and behind anything else a call on
it. -/
theorem children_scopedNode (outer : Expr) (name : Spanned String) :
    (scopedNode outer name).children.Sublist [.expr outer] := by
  unfold scopedNode
  split
  · exact List.nil_sublist _
  · exact .refl _

omit hg in
theorem isOwnCall_scopedNode (outer : Expr) (name : Spanned String) :
    (scopedNode outer name).isOwnCall = false := by
  unfold scopedNode
  split
  · rfl
  · rfl

theorem gives_rowScopedName (h : Row source c₀ c [.expr value]) :
    Gives c (scopedName g c₀.front value)
      (Round.Leaves (RowExpr source c₀) (RowExpr source c₀)) := by
  have hcolons : Row source c₀ c.advance (Child.ofOption (some value)) := h.advance
  refine .advance_bind (.get_bind ?_)
  dsimp only
  split
  · exact .advance_bind ((hcolons.advance.finish (children_scopedNode _ _)
      (isOwnCall_scopedNode _ _)).bind fun _ _ hrow ↦ .pure hrow)
  case h_4 => exact hcolons.skip (reads_fail _) fun _ c₂ hrow ↦ .pure hrow
  all_goals
    exact .advance_bind ((gives_rowCall hg false hcolons.advance fun h ↦ by cases h).bind
      fun _ _ hrow ↦ .pure hrow)

theorem gives_rowIndexCall (h : Row source c₀ c [.expr value]) :
    Gives c (indexCall g c₀.front value)
      (Round.Leaves (RowExpr source c₀) (RowExpr source c₀)) := by
  refine .currentSpan_bind (.advance_bind ?_)
  have hbracket : Row source c₀ c.advance (Child.ofOption (some value)) := h.advance
  refine (lines_enclosedArguments hg _ _ _ hbracket.moves.stands hbracket.draws).bind
    fun args c₁ hargs ↦ .finish_bind (.pure ?_)
  exact hbracket.call false (fun h ↦ by cases h) hargs (.refl hargs.moves.stands hargs.draws)

/-- What hangs behind an expression is written behind it. -/
theorem gives_rowTrailer (h : Row source c₀ c [.expr value]) :
    Gives c (trailer g c₀.front value)
      (Round.Leaves (RowExpr source c₀) (RowExpr source c₀)) := by
  refine .get_bind (h.skipIf reads_advance fun c₁ h ↦ .get_bind ?_)
  split
  · exact gives_rowDotCall hg h
  · exact gives_rowDotCall hg h
  · exact gives_rowScopedName hg h
  · split
    · exact .pure h
    · exact gives_rowIndexCall hg h
  · exact .pure h

theorem lines_trailed : LinesExpr source (trailed g) := by
  refine fun c hc hdraws ↦ .currentStart_bind ?_
  refine (lines_primary hg c hc hdraws).bind fun first c₁ hfirst ↦ ?_
  exact gives_iterate (RowExpr source c) hfirst fun _ _ ↦ gives_rowTrailer hg

end Trailers

section Operators

/-- A negated number is a literal again, and any other expression is kept as the operand. -/
theorem children_negated (opSpan : Span) (value : Expr) :
    (negated opSpan value).children.Sublist [.expr value] := by
  unfold negated
  split
  · exact List.nil_sublist _
  · exact List.nil_sublist _
  · exact .refl _

theorem isOwnCall_negated (opSpan : Span) (value : Expr) :
    (negated opSpan value).isOwnCall = false := by
  unfold negated
  split
  · rfl
  · rfl
  · rfl

include hg

theorem lines_operand : LinesExpr source (operand g) := by
  refine fun c hc hdraws ↦ .currentSpan_bind (.currentKind_bind ?_)
  have hop := (Row.refl hc hdraws).advance
  split
  case h_5 => exact lines_trailed hg c hc hdraws
  case h_3 =>
    refine .advance_bind (hop.read hg.unary fun inner c₁ hrow ↦ ?_)
    exact hrow.finish (children_negated _ _) (isOwnCall_negated _ _)
  all_goals
    exact .advance_bind (hop.read hg.unary fun inner c₁ hrow ↦ hrow.finish (.refl _) rfl)

/-- By induction over the rounds of the chain: the second operand stands behind all that was
read. -/
theorem lines_chain (least : Precedence) : LinesExpr source (chain g least) := by
  refine fun c hc hdraws ↦ .currentStart_bind ?_
  refine (hg.unary c hc hdraws).bind fun first c₁ hfirst ↦ ?_
  refine gives_iterate (RowExpr source c) hfirst fun left c₂ hleft ↦ .get_bind ?_
  split
  · split
    · exact .pure hleft
    · refine .advance_bind (hleft.advance.skip reads_skipNewlines fun _ c₃ hrow ↦ ?_)
      refine hrow.read (hg.binary _) fun right c₄ hrow ↦ ?_
      exact (hrow.finish (.refl _) rfl).bind fun _ _ hrow ↦ .pure hrow
  · exact .pure hleft

/-- The two values of a ternary stand behind its condition, in their order. -/
theorem gives_rowTernary {condition : Expr} (h : Row source c₀ c [.expr condition]) :
    Gives c (ternary g c₀.front condition) (RowExpr source c₀) := by
  refine h.skip reads_skipNewlines fun _ c₁ hrow ↦ ?_
  refine (hg.expr c₁ hrow.moves.stands hrow.draws).bind fun thenExpr c₂
    (hthen : Row source c₁ c₂ [.expr thenExpr]) ↦ ?_
  have hrow := hrow.trans hthen.single
  refine hrow.skip reads_skipNewlines fun _ c₃ hrow ↦ hrow.expect fun c₄ hrow ↦ ?_
  refine hrow.skip reads_skipNewlines fun _ c₅ hrow ↦ ?_
  refine (hg.expr c₅ hrow.moves.stands hrow.draws).bind fun elseExpr c₆
    (helse : Row source c₅ c₆ [.expr elseExpr]) ↦ ?_
  exact (hrow.trans helse.single).finish (.refl _) rfl

theorem lines_assignment : LinesExpr source (assignment g) := by
  refine fun c hc hdraws ↦ .currentStart_bind ?_
  refine (hg.binary _ c hc hdraws).bind fun left c₁ (hleft : Row source c c₁ [.expr left]) ↦
    .get_bind ?_
  split
  · refine .advance_bind (hleft.advance.skip reads_skipNewlines fun _ c₂ hrow ↦ ?_)
    refine (gives_rowTarget hrow).bind fun target c₃ htarget ↦ ?_
    exact htarget.read hg.expr fun value c₄ hrow ↦ hrow.finish (.refl _) rfl
  · exact hleft.eat (fun hquestion ↦ gives_rowTernary hg hquestion) (.pure hleft)

end Operators

/-- At every nesting level the productions read written expressions. -/
theorem lines_grammar (source : String) (levels : Nat) : (grammar levels).Lines source := by
  induction levels with
  | zero =>
    have habandon : LinesExpr source (nested abandon) := lines_abandon.nested
    exact ⟨habandon, habandon, fun _ ↦ habandon, habandon⟩
  | succ levels ih =>
    exact ⟨(lines_notOperand ih).nested, (lines_assignment ih).nested,
      fun least ↦ (lines_chain ih least).nested, (lines_operand ih).nested⟩

end DeclaredMethods.Source
