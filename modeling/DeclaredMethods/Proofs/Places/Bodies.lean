import DeclaredMethods.Proofs.Places.Steps
import DeclaredMethods.Source.Parser.Statement

/-!
# Places of statements and bodies

Every statement starts at the current token and every body covers its statements, which follow each
other. The token that closes a body is left to the caller, so an empty body stands in front of it.
So does the body of the last clause behind a body that may be rescued.
-/

namespace DeclaredMethods.Source

open Cursor (Moves Passed)
open Parse
open Piece (ofExpr? ofBody? ofExprs)

/-- The expressions that the productions of a grammar read start and end where they were read. -/
structure Grammar.ReadsExprs (source : String) (g : Grammar) : Prop where
  notOperand : Parse.ReadsExpr source g.notOperand
  expr : Parse.ReadsExpr source g.expr
  binary : ∀ least, Parse.ReadsExpr source (g.binary least)
  unary : Parse.ReadsExpr source g.unary

variable {source : String} {g : Grammar} {c₀ c : Cursor} (hg : g.ReadsExprs source)

section Statements

include hg

theorem readsExpr_notOperand : ReadsExpr source (notOperand g) := by
  refine fun c hc ↦ .currentStart_bind (.get_bind ?_)
  split
  · refine .currentSpan_bind (.advance_bind ?_)
    refine (AllEndBy.word hc).readExpr hg.notOperand fun operand c' hends ↦ ?_
    exact hends.finish (List.cons_ne_nil _ _) rfl (by grind [Node.pieces])
  · exact hg.expr c hc

theorem readsExpr_notExpr : ReadsExpr source (notExpr g) := by
  refine fun c hc ↦ .currentStart_bind ?_
  refine (readsExpr_notOperand hg c hc).bind fun first c₁ hfirst ↦ ?_
  refine gives_iterate (ExprBetween source c) hfirst fun left c₂ hleft ↦ .currentKind_bind ?_
  split
  · refine .currentSpan_bind (.advance_bind ?_)
    refine hleft.allEndBy.advance.skip reads_skipNewlines fun _ c₃ hends ↦ ?_
    refine hends.readExpr (readsExpr_notOperand hg) fun right c₄ hends ↦ ?_
    exact (hends.finish (List.cons_ne_nil _ _) rfl (by grind [Node.pieces])).bind
      fun _ _ hbetween ↦ .pure hbetween
  · exact .pure hleft

omit hg in
/-- The target of an assignment stands where the expression stood. -/
theorem gives_assignTarget {target : Expr} (h : ExprBetween source c₀ target c) :
    Gives c (assignTarget target) (ExprBetween source c₀) := by
  unfold assignTarget
  split
  · split
    · exact (reads_declare _ c h.allEndBy.moves.stands).bind fun _ c' hdeclared ↦
        .pure ((h.keep hdeclared.moves).of_span_eq rfl rfl)
    · exact .pure h
  · exact .pure h

omit hg in
/-- An expression as a body of its own. -/
theorem EndsBy.single {value : Expr} {c' : Cursor} (h : EndsBy source c (.expr value) c') :
    EndsBy source c (.body (.single value)) c' := by
  refine h.of_span_eq rfl (List.pairwise_singleton _ _) (.inl rfl) fun part hpart ↦ ?_
  rw [List.mem_singleton.1 hpart]
  exact ⟨h, fun _ ↦ .refl _⟩

theorem reads_exprBehindNewlines :
    Reads source (do skipNewlines; g.expr) fun value ↦ [.expr value] :=
  fun _ hc ↦ (AllEndBy.refl hc).skip reads_skipNewlines fun _ _ hends ↦ hends.andThen hg.expr.reads

/-- A multiple assignment starts with its first target. -/
theorem gives_multipleAssignment {first : Expr} (h : ExprBetween source c₀ first c) :
    Gives c (multipleAssignment g c₀.front first) (ExprBetween source c₀) := by
  refine .get_bind ?_
  split
  · refine (gives_assignTarget h).bind fun firstTarget c₁ hfirst ↦ ?_
    have htargets : AllEndBy source c₀ c₁ (ofExprs [firstTarget] ++ [.expr firstTarget]) :=
      hfirst.allEndBy.cons hfirst.endsBy
    have htarget : ReadsExpr source (do assignTarget (← g.unary)) := fun c hc ↦
      (hg.unary c hc).bind fun _ _ ↦ gives_assignTarget
    refine (htargets.whileComma htarget.reads).bind fun targets c₂ htargets ↦ .spanFrom_bind ?_
    have htargets : ExprBetween source c₀ ⟨.array targets, c₂.spanFrom c₀.front⟩ c₂ :=
      .build htargets (by simp) rfl (by grind [Node.pieces])
    refine htargets.allEndBy.orEmpty.expect fun c₃ hends ↦ ?_
    refine hends.skip reads_skipNewlines fun _ c₄ hends ↦ .currentStart_bind ?_
    refine (hg.expr c₄ hends.moves.stands).bind fun firstValue c₅ hfirst ↦ ?_
    have hvalues : AllEndBy source c₄ c₅ (ofExprs [firstValue] ++ [.expr firstValue]) :=
      hfirst.allEndBy.cons hfirst.endsBy
    refine (hvalues.whileComma (reads_exprBehindNewlines hg)).bind fun values c₆ hvalues ↦ ?_
    split
    · rename_i value
      exact (hends.trans hvalues).finish (by simp) rfl (by grind [Node.pieces, ofExprs])
    · refine (hvalues.finish (by simp) rfl (by grind [Node.pieces])).bind fun value c₇ hvalue ↦ ?_
      exact (hends.trans hvalue.allEndBy).finish (List.cons_ne_nil _ _) rfl (by grind [Node.pieces])
  · exact .pure h

/-- A modifier covers the statement in front of it. -/
theorem gives_modifier {value : Expr} (h : ExprBetween source c₀ value c) :
    Gives c (modifier g c₀.front value)
      (Round.Leaves (ExprBetween source c₀) (ExprBetween source c₀)) := by
  have hsingle : AllEndBy source c₀ c [.body (.single value)] :=
    (AllEndBy.nil h.allEndBy.moves).cons h.endsBy.single
  refine .get_bind ?_
  dsimp only
  split
  case h_6 => exact .pure h
  case h_5 =>
    refine .advance_bind ?_
    refine (AllEndBy.word hsingle.moves.stands).readExpr (readsExpr_notExpr hg)
      fun fallback c' hfallback ↦ ?_
    have hhandler : AllEndBy source c c' [.body ⟨[fallback], c'.spanFrom c.front⟩] :=
      hfallback.build (List.cons_ne_nil _ _) rfl (List.pairwise_singleton _ _) rfl
        (by grind [Piece.parts, ofExprs])
    refine .spanFrom_bind ?_
    exact ((hsingle.trans hhandler).finish (List.cons_ne_nil _ _) rfl
      (by grind [Node.pieces, RescueClause.pieces, ofExprs, ofBody?])).bind
        fun _ _ hbetween ↦ .pure hbetween
  -- The two conditionals and the two loops differ in the node they build only.
  all_goals
    refine .advance_bind
      (hsingle.advance.readExpr (readsExpr_notExpr hg) fun condition c' hends ↦ ?_)
    exact (hends.finish (List.cons_ne_nil _ _) rfl (by grind [Node.pieces, ofBody?])).bind
      fun _ _ hbetween ↦ .pure hbetween

/-- A statement with modifiers starts where its expression does. -/
theorem readsExpr_statement : ReadsExpr source (statement g) := by
  refine fun c hc ↦ .currentStart_bind ((readsExpr_notExpr hg c hc).bind fun first c₁ hfirst ↦ ?_)
  refine (gives_multipleAssignment hg hfirst).bind fun value c₂ hvalue ↦ ?_
  exact gives_iterate (ExprBetween source c) hvalue fun _ _ ↦ gives_modifier hg

omit hg in
theorem reads_resume (until_ : BodyEnd) : Reads source (resume until_) fun _ ↦ [] := by
  refine fun c hc ↦ .currentKind_bind ?_
  split
  · exact .pure (.refl hc)
  · exact (AllEndBy.refl hc).skip (reads_unexpected _) fun _ c' hends ↦
      hends.andThen (reads_skipWhile _)

end Statements

section Bodies

/-- Statements that have been read one after another. -/
structure Listed (source : String) (c : Cursor) (statements : List Expr) (c' : Cursor) : Prop where
  allEndBy : AllEndBy source c c' (ofExprs statements)
  ordered : statements.Pairwise fun first second ↦ first.span.stop ≤ second.span.start
  stop_le : ∀ value ∈ statements, value.span.stop ≤ c'.back

/-- What is read behind statements leaves their list as it is. -/
theorem Listed.keep {statements : List Expr} {c₁ c' : Cursor} (h : Listed source c statements c₁)
    (hmoves : Moves source c₁ c') : Listed source c statements c' where
  allEndBy := h.allEndBy.trans (.nil hmoves)
  ordered := h.ordered
  stop_le value hvalue := Nat.le_trans (h.stop_le value hvalue) hmoves.back_le

/-- The next statement stands behind the ones before, and it has been read once its first token
has. -/
theorem Listed.append {statements : List Expr} {value : Expr} {c₁ c₂ c₃ : Cursor}
    (h : Listed source c statements c₁) (hskip : Moves source c₁ c₂)
    (hvalue : ExprBetween source c₂ value c₃) {c' : Cursor} (hresume : Moves source c₃ c')
    (hread : c₂.current.span.stop ≤ c'.back) : Listed source c (statements ++ [value]) c' where
  allEndBy := by
    have hvalue := hvalue.allEndBy.keep hskip hresume
    exact (h.allEndBy.trans hvalue).subset (by grind [ofExprs])
  ordered := by
    refine List.pairwise_append.2 ⟨h.ordered, List.pairwise_singleton _ _, fun earlier hearlier
      later hlater ↦ ?_⟩
    rw [List.mem_singleton.1 hlater, hvalue.start_eq]
    have hback := hskip.stands.back_le_front
    exact Nat.le_trans (h.stop_le earlier hearlier) (Nat.le_trans hskip.back_le hback)
  stop_le earlier hearlier := by
    have hback := hresume.back_le
    rcases List.mem_append.1 hearlier with hearlier | hearlier
    · exact Nat.le_trans (h.stop_le earlier hearlier)
        ((hskip.trans hvalue.allEndBy.moves).trans hresume).back_le
    · rw [List.mem_singleton.1 hearlier]
      exact Nat.le_trans hvalue.stop_le (Nat.max_le.2 ⟨hback, hread⟩)

/-- A body covers its statements. Without any it may stand in front of the current token. -/
theorem Listed.orEmpty {statements : List Expr} {c' : Cursor} (h : Listed source c statements c') :
    AllEndByOrEmpty source c c' [.body ⟨statements, c'.spanFrom c.front⟩] := by
  have hmoves := h.allEndBy.moves
  have hsound : (Piece.body ⟨statements, c'.spanFrom c.front⟩).Everywhere (Piece.Sound source) :=
    Piece.everywhere_iff.2 ⟨⟨Nat.le_max_right _ _, hmoves.stop_spanFrom_le_size, h.ordered⟩,
      fun part hpart ↦ (h.allEndBy.endsBy part hpart).sound⟩
  refine ⟨hmoves, fun piece hpiece ↦ ?_⟩
  rw [List.mem_singleton.1 hpiece]
  refine ⟨⟨Nat.le_refl _, hsound, fun herrors ↦ ?_⟩, fun herrors ↦ ?_⟩
  · exact Piece.wellNested_of_parts rfl fun part hpart ↦
      ⟨(h.allEndBy.endsBy part hpart).encloses herrors,
        (h.allEndBy.endsBy part hpart).wellNested herrors⟩
  · by_cases hpassed : c.Passed c'
    · exact .inl (Nat.max_le.2 ⟨Nat.le_refl _, hpassed⟩)
    · -- Any statement would have been read from the first token on.
      have hempty : statements = [] := by
        refine List.eq_nil_iff_forall_not_mem.2 fun value hvalue ↦ hpassed ?_
        exact (h.allEndBy.endsBy (.expr value) (List.mem_map_of_mem hvalue)).passed herrors
      have hspan : c'.spanFrom c.front = ⟨c'.front, c'.front⟩ := by
        rw [Cursor.spanFrom, Nat.max_eq_right (Nat.le_of_lt (Nat.lt_of_not_le hpassed)),
          Cursor.front, Cursor.front, hmoves.current_eq hpassed]
      rw [hempty, hspan]
      exact .inr rfl

include hg

/-- A body without statements is empty, in front of the token that ends it. -/
theorem readsOrEmpty_body (until_ : BodyEnd) :
    ReadsOrEmpty source (body g until_) fun value ↦ [.body value] := by
  refine fun c hc ↦ .currentStart_bind ?_
  have hnone : Listed source c [] c := ⟨.refl hc, .nil, List.forall_mem_nil _⟩
  refine (gives_iterate (Listed source c) hnone fun statements c₁ hlisted ↦ ?_).bind
    fun statements c' (hlisted : Listed source c statements c') ↦
      .spanFrom_bind (.pure hlisted.orEmpty)
  refine (reads_skipTerminators c₁ hlisted.allEndBy.moves.stands).bind fun _ c₂ hskip ↦ .get_bind ?_
  split
  · exact .pure (hlisted.keep hskip.moves)
  · refine (readsExpr_statement hg c₂ hskip.moves.stands).bind fun value c₃ hvalue ↦ ?_
    refine (reads_resume until_ c₃ hvalue.allEndBy.moves.stands).bind
      fun _ c₄ hresume ↦ .get_bind ?_
    have hround := hvalue.allEndBy.moves.trans hresume.moves
    -- If the first token of the statement has not been read yet, it is read now.
    split
    · have hadvance := Moves.advance hround.stands
      have hread : c₂.current.span.stop ≤ c₄.advance.back :=
        hround.current.elim (fun hsame ↦ Nat.le_of_eq (congrArg (·.span.stop) hsame.2.symm))
          fun hread ↦ Nat.le_trans hread.2 hadvance.back_le
      exact .advance_bind (.pure (hlisted.append hskip.moves hvalue (hresume.moves.trans hadvance)
        hread))
    · rename_i hposition
      have hread := hround.current.resolve_left fun hsame ↦ hposition hsame.1
      exact .pure (hlisted.append hskip.moves hvalue hresume.moves hread.2)

omit hg in
theorem reads_rescueBinding : Reads source rescueBinding fun _ ↦ [] := by
  refine fun c hc ↦ (AllEndBy.refl hc).orEmpty.eat (fun harrow ↦ .currentKind_bind ?_)
    (.pure (.refl hc))
  split
  · refine .advance_bind (harrow.advance.skip (reads_declare _) fun _ c' hends ↦ .pure ?_)
    exact hends.subset (List.nil_subset _)
  · exact harrow.skip (reads_fail _) fun _ c' hends ↦ .pure (hends.subset (List.nil_subset _))

theorem reads_rescueExceptions : Reads source (rescueExceptions g) ofExprs := by
  intro c hc
  refine gives_iterate (fun exceptions c' ↦ AllEndBy source c c' (ofExprs exceptions)) (.refl hc)
    fun exceptions c₁ hends ↦ .get_bind ?_
  split
  · exact .pure hends
  · refine hends.readExpr hg.expr fun value c₂ hends ↦ ?_
    have hmore : AllEndBy source c c₂ (ofExprs (exceptions ++ [value])) :=
      hends.subset (by grind [ofExprs])
    exact hmore.orEmpty.eat (fun hcomma ↦ .pure (hcomma.subset (List.subset_cons_self _ _)))
      (.pure hmore)

/-- A body behind a keyword may stand in front of the current token, but the keyword has been
read. -/
theorem gives_bodyBehind (word : Keyword) (until_ : BodyEnd) (hc : c.Stands source) :
    Gives c (bodyBehind? g word until_) fun value c' ↦ AllEndByOrEmpty source c c' (ofBody? value) ∧
      (c.atWord word = true → c'.errors = [] → c.Passed c') := by
  refine (AllEndBy.refl hc).orEmpty.eatWord (fun _ hword ↦ ?_) fun hword ↦
    .pure ⟨(AllEndBy.refl hc).orEmpty, ?_⟩
  · refine hword.readOrEmpty (readsOrEmpty_body hg until_) fun value c' horEmpty ↦
      .pure ⟨?_, fun _ herrors ↦ ?_⟩
    · exact horEmpty.subset (by grind [ofBody?])
    · exact horEmpty.passed_of_word (List.mem_cons_of_mem _ List.mem_cons_self) herrors
  · rw [hword]
    exact fun h ↦ absurd h Bool.false_ne_true

/-- The clauses end where no further one starts; the handler of the last one may be empty. -/
theorem gives_rescues (hc : c.Stands source) :
    Gives c (iterate (fun rescues ↦ do
      if ← eatWord .rescue_ then
        let exceptions ← rescueExceptions g
        let binding ← rescueBinding
        let _ ← eatWord .then_
        let handler ← body g .rescue_
        return .again (rescues ++ [⟨exceptions, binding, handler⟩])
      else
        return .done rescues) []) fun rescues c' ↦
      AllEndByOrEmpty source c c' (rescues.flatMap RescueClause.pieces) ∧
        c'.atWord .rescue_ = false := by
  refine gives_iterate
    (fun rescues c' ↦ AllEndByOrEmpty source c c' (rescues.flatMap RescueClause.pieces))
    (AllEndBy.refl hc).orEmpty fun rescues c₁ horEmpty ↦
      horEmpty.eatWord (fun _ hends ↦ ?_) fun hword ↦ .pure ⟨horEmpty, hword⟩
  refine hends.read (reads_rescueExceptions hg) fun exceptions c₂ hends ↦ ?_
  refine hends.skip reads_rescueBinding fun binding c₃ hends ↦ ?_
  refine hends.skip (reads_eatWord _) fun _ c₄ hends ↦ ?_
  refine hends.readOrEmpty (readsOrEmpty_body hg _) fun handler c₅ horEmpty ↦
    .pure (horEmpty.subset ?_)
  grind [RescueClause.pieces]

/-- Of the clauses only the last one can have a body in front of the current token, since a keyword
follows the others. -/
theorem gives_rescueClauses {main : Body} (h : AllEndByOrEmpty source c₀ c [.body main]) :
    Gives c (rescueClauses g main) fun node c' ↦
      AllEndByOrEmpty source c₀ c' node.pieces ∧ node.isClausal = true ∧
        ((c.atWord .rescue_ || c.atWord .else_ || c.atWord .ensure_) = true → c'.errors = [] →
          c.Passed c') := by
  refine (gives_rescues hg h.moves.stands).bind fun rescues c₁ hrescues ↦ ?_
  obtain ⟨hrescues, hrescue⟩ := hrescues
  refine (gives_bodyBehind hg _ _ hrescues.moves.stands).bind fun elseBranch c₂ helse ↦ ?_
  refine (gives_bodyBehind hg _ _ helse.1.moves.stands).bind fun ensure c₃ hensure ↦ .pure ?_
  have hclauses := (hrescues.trans helse.1).trans hensure.1
  refine ⟨(h.trans hclauses).subset (by grind [Node.pieces]), rfl, fun hword herrors ↦ ?_⟩
  -- As long as nothing is read the same keyword stands here, so one of the clauses reads it.
  by_contra hpassed
  have hmoves₁ := hrescues.moves
  have hmoves₂ := hmoves₁.trans helse.1.moves
  have hpassed₂ : ¬c.Passed c₂ := fun h' ↦ hpassed (Nat.le_trans h' hensure.1.moves.back_le)
  have hpassed₁ : ¬c.Passed c₁ := fun h' ↦ hpassed₂ (Nat.le_trans h' helse.1.moves.back_le)
  have hnoRescue : c.atWord .rescue_ = false := hmoves₁.atWord_eq hpassed₁ _ ▸ hrescue
  have hnoElse : c.atWord .else_ = false := by
    rw [← hmoves₁.atWord_eq hpassed₁, Bool.eq_false_iff]
    exact fun h' ↦ hpassed₂ (Nat.le_trans hmoves₁.front_le
      (helse.2 h' (hensure.1.moves.errors herrors)))
  have hnoEnsure : c.atWord .ensure_ = false := by
    rw [← hmoves₂.atWord_eq hpassed₂, Bool.eq_false_iff]
    exact fun h' ↦ hpassed (Nat.le_trans hmoves₂.front_le (hensure.2 h' herrors))
  rw [hnoRescue, hnoElse, hnoEnsure] at hword
  cases hword

/-- With clauses behind it, a body that may be rescued has been read, although the body of its last
clause may stand in front of the current token. -/
theorem readsOrEmpty_rescuedBody :
    ReadsOrEmpty source (rescuedBody g) fun value ↦ [.body value] := by
  refine fun c hc ↦ .currentStart_bind ?_
  refine (readsOrEmpty_body hg _ c hc).bind fun main c₁ hmain ↦ .get_bind ?_
  dsimp only
  split
  · rename_i hword
    refine (gives_rescueClauses hg hmain).bind fun node c₂ hnode ↦ .spanFrom_bind (.pure ?_)
    obtain ⟨horEmpty, hclausal, hpassed⟩ := hnode
    refine (horEmpty.single hclausal (List.Subset.refl _) fun herrors ↦ ?_).orEmpty
    exact Nat.le_trans hmain.moves.front_le (hpassed hword herrors)
  · exact .pure hmain

end Bodies

end DeclaredMethods.Source
