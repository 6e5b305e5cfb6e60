import DeclaredMethods.Proofs.Order.Rows
import DeclaredMethods.Proofs.Building.Statements
import DeclaredMethods.Proofs.Places.Bodies

/-!
# The order of statements and bodies

Statements are read in the order in which they are listed, and so are the clauses behind a body that
may be rescued. Only the condition of a modifier is read behind what it is listed in front of.
-/

namespace DeclaredMethods.Source

open Cursor (Moves)
open Parse

/-- The productions of a grammar read written expressions. -/
structure Grammar.Lines (source : String) (g : Grammar) : Prop where
  notOperand : LinesExpr source g.notOperand
  expr : LinesExpr source g.expr
  binary : ∀ least, LinesExpr source (g.binary least)
  unary : LinesExpr source g.unary

variable {source : String} {g : Grammar} {c₀ c : Cursor} (hg : g.Lines source)

section Statements

include hg

theorem lines_notOperand : LinesExpr source (notOperand g) := by
  refine fun c hc hdraws ↦ .currentStart_bind (.get_bind ?_)
  split
  · refine .currentSpan_bind (.advance_bind ?_)
    refine (Row.refl hc hdraws).advance.read hg.notOperand fun operand c' hrow ↦ ?_
    exact hrow.finish (.refl _) rfl
  · exact hg.expr c hc hdraws

theorem lines_notExpr : LinesExpr source (notExpr g) := by
  refine fun c hc hdraws ↦ .currentStart_bind ?_
  refine (lines_notOperand hg c hc hdraws).bind fun first c₁ hfirst ↦ ?_
  refine gives_iterate (RowExpr source c) hfirst fun left c₂ hleft ↦ .currentKind_bind ?_
  split
  · refine .currentSpan_bind (.advance_bind ?_)
    refine hleft.advance.skip reads_skipNewlines fun _ c₃ hrow ↦ ?_
    refine hrow.read (lines_notOperand hg) fun right c₄ hrow ↦ ?_
    exact (hrow.finish (.refl _) rfl).bind fun _ _ hrow ↦ .pure hrow
  · exact .pure hleft

omit hg in
/-- Another expression at the place of one that was read, without children. -/
theorem Row.replace {value : Expr} {node : Node} {c' : Cursor}
    (h : Row source c c' [.expr value]) (hchildren : node.children = [])
    (hnode : node.isOwnCall = false) : Row source c c' [.expr ⟨node, value.span⟩] where
  moves := h.moves
  draws := h.draws
  holds herrors := by
    have hwithin := (h.lined herrors).within _ List.mem_cons_self
    refine Lined.nil.expr ?_ hnode hwithin.start_le hwithin.le_stop
    rw [hchildren]

omit hg in
/-- A target stands where the expression stood that it is made from. -/
theorem gives_rowTarget {target : Expr} (h : Row source c₀ c [.expr target]) :
    Gives c (assignTarget target) (RowExpr source c₀) := by
  unfold assignTarget
  split
  · split
    · exact h.skip (reads_declare _) fun _ c' hrow ↦ .pure (hrow.replace rfl rfl)
    · exact .pure h
  · exact .pure h

theorem lines_exprBehindNewlines : LinesExpr source (do skipNewlines; g.expr) :=
  fun _ hc hdraws ↦ (Row.refl hc hdraws).skip reads_skipNewlines fun _ _ hrow ↦
    hrow.andThen hg.expr

/-- The targets of a multiple assignment are written in front of its values. -/
theorem gives_rowAssignment {first : Expr} (h : Row source c₀ c [.expr first]) :
    Gives c (multipleAssignment g c₀.front first) (RowExpr source c₀) := by
  refine .get_bind ?_
  split
  · refine (gives_rowTarget h).bind fun firstTarget c₁ hfirst ↦ ?_
    have htargets : Row source c₀ c₁ ([] ++ [firstTarget].map .expr) := hfirst
    have htarget : LinesExpr source (do assignTarget (← g.unary)) := fun c hc hdraws ↦
      (hg.unary c hc hdraws).bind fun _ _ ↦ gives_rowTarget
    refine (htargets.whileComma htarget).bind fun targets c₂ htargets ↦ .spanFrom_bind ?_
    have harray : Row source c₀ c₂ [.expr ⟨.array targets, c₂.spanFrom c₀.front⟩] :=
      htargets.expr (.refl _) rfl
    refine harray.expect fun c₃ hrow ↦ ?_
    refine hrow.skip reads_skipNewlines fun _ c₄ hrow ↦ .currentStart_bind ?_
    refine (hg.expr c₄ hrow.moves.stands hrow.draws).bind fun firstValue c₅ hfirst ↦ ?_
    have hvalues : Row source c₄ c₅ ([] ++ [firstValue].map .expr) := hfirst
    refine (hvalues.whileComma (lines_exprBehindNewlines hg)).bind fun values c₆ hvalues ↦ ?_
    split
    · exact (hrow.trans hvalues).finish (.refl _) rfl
    · refine (hvalues.finish (.refl _) rfl).bind fun value c₇ hvalue ↦ ?_
      exact (hrow.trans hvalue).finish (.refl _) rfl
  · exact .pure h

omit hg in
/-- A condition behind the statement that it is about. -/
theorem Row.modifier {value condition : Expr} {node : Node} {c' : Cursor}
    (h : Row source c₀ c [.body (.single value)]) (h' : Row source c c' [.expr condition])
    (hchildren : node.children = [.expr condition, .body (.single value)])
    (hexchanges : node.Exchanges (.expr condition) (.body (.single value)))
    (hnode : node.isOwnCall = false) : Row source c₀ c' [.expr ⟨node, c'.spanFrom c₀.front⟩] where
  moves := h.moves.trans h'.moves
  draws := h'.draws
  holds herrors := by
    have hrow := h.trans h'
    have hlined := hrow.lined herrors
    have hvalue := (h.lined (h'.moves.errors herrors)).within _ List.mem_cons_self
    have hcondition := (h'.lined herrors).within _ List.mem_cons_self
    refine .of_written ⟨?_, fun heq ↦ ?_⟩ (Nat.le_refl _) hrow.stop_le fun child hchild ↦ ?_
    · change node.children.Pairwise node.Lists
      rw [hchildren]
      refine List.pairwise_pair.2 fun part hpart ↦ .inr ⟨hexchanges, ?_⟩
      exact Nat.le_trans hvalue.le_stop (hcondition.opened part hpart).1
    · cases heq
      cases hnode
    · have hmem : child ∈ [.body (.single value)] ++ [.expr condition] := by
        change child ∈ node.children at hchild
        rw [hchildren] at hchild
        grind
      exact ⟨hlined.within child hmem, hlined.written child hmem⟩

/-- A modifier is written behind its statement and lists its condition first: the two are
exchanged. -/
theorem gives_rowModifier {value : Expr} (h : Row source c₀ c [.expr value]) :
    Gives c (modifier g c₀.front value) (Round.Leaves (RowExpr source c₀) (RowExpr source c₀)) := by
  have hword := (Row.refl h.moves.stands h.draws).advance
  refine .get_bind ?_
  dsimp only
  split
  case h_6 => exact .pure h
  case h_5 =>
    refine .advance_bind (hword.read (lines_notExpr hg) fun fallback c' hrow ↦ .spanFrom_bind ?_)
    have hhandler : Row source c c' [.body ⟨[fallback], c'.spanFrom c.front⟩] := hrow.body
    exact ((h.single.trans hhandler).finish (.refl _) rfl).bind fun _ _ hrow ↦ .pure hrow
  -- The two conditionals and the two loops differ in the node they build only.
  all_goals
    refine .advance_bind (hword.read (lines_notExpr hg) fun condition c' hrow ↦ .finish_bind ?_)
    refine .pure (h.single.modifier hrow rfl ?_ rfl)
    constructor

/-- Further modifiers have the statement with those before them as theirs. -/
theorem lines_statement : LinesExpr source (statement g) := by
  refine fun c hc hdraws ↦ .currentStart_bind ?_
  refine (lines_notExpr hg c hc hdraws).bind fun first c₁ hfirst ↦ ?_
  refine (gives_rowAssignment hg hfirst).bind fun value c₂ hvalue ↦ ?_
  exact gives_iterate (RowExpr source c) hvalue fun _ _ ↦ gives_rowModifier hg

end Statements

section Bodies

include hg

/-- Statements are listed as they are read. -/
theorem lines_body (until_ : BodyEnd) : Lines source (body g until_) fun value ↦ [.body value] := by
  refine fun c hc hdraws ↦ .currentStart_bind ?_
  refine (gives_iterate (fun statements c' ↦ Row source c c' (List.map Child.expr statements))
    (.refl hc hdraws) fun statements c₁ hrow ↦ ?_).bind fun statements c'
      (hrow : Row source c c' (statements.map .expr)) ↦ .spanFrom_bind (.pure hrow.body)
  refine hrow.skip reads_skipTerminators fun _ c₂ hrow ↦ .get_bind ?_
  split
  · exact .pure hrow
  · refine hrow.read (lines_statement hg) fun value c₃ hrow ↦ ?_
    rw [← List.map_singleton, ← List.map_append] at hrow
    refine hrow.skip (reads_resume until_) fun _ c₄ hrow ↦ .get_bind ?_
    split
    · exact .advance_bind (.pure hrow.advance)
    · exact .pure hrow

theorem lines_rescueExceptions : Lines source (rescueExceptions g) (·.map .expr) := by
  intro c hc hdraws
  refine gives_iterate (fun exceptions c' ↦ Row source c c' (List.map Child.expr exceptions))
    (.refl hc hdraws) fun exceptions c₁ hrow ↦ .get_bind ?_
  split
  · exact .pure hrow
  · refine hrow.read hg.expr fun value c₂ hrow ↦ ?_
    rw [← List.map_singleton, ← List.map_append] at hrow
    exact hrow.eat (fun hcomma ↦ .pure hcomma) (.pure hrow)

theorem lines_bodyBehind (word : Keyword) (until_ : BodyEnd) :
    Parse.Lines source ( bodyBehind? g word until_) Child.ofBody? := by
  intro c hc hdraws
  have hrow := Row.refl hc hdraws
  exact hrow.eatWord (fun hword ↦ hword.read (lines_body hg until_) fun _ _ hrow ↦ .pure hrow)
    (.pure hrow)

/-- The body is written first, then the clauses that rescue it, the other branch and what is run
last. -/
theorem gives_rowClauses {main : Body} (h : Row source c₀ c [.body main]) :
    Gives c (rescueClauses g main) fun node c' ↦
      Row source c₀ c' node.children ∧ node.isOwnCall = false := by
  refine Triple.bind (gives_iterate (fun rescues c' ↦
    Row source c₀ c' ([.body main] ++ List.flatMap RescueClause.children rescues)) h
    fun rescues c₁ hrow ↦ hrow.eatWord (fun hrow ↦ ?_) (.pure hrow)) fun rescues c₁
      (hrow : Row source c₀ c₁ ([.body main] ++ rescues.flatMap RescueClause.children)) ↦ ?_
  · refine hrow.read (lines_rescueExceptions hg) fun exceptions c₂ hrow ↦ ?_
    refine hrow.skip reads_rescueBinding fun binding c₃ hrow ↦ ?_
    refine hrow.skip (reads_eatWord _) fun _ c₄ hrow ↦ ?_
    refine hrow.read (lines_body hg _) fun handler c₅ hrow ↦ .pure ?_
    simpa [Round.Leaves, RescueClause.children] using hrow
  · refine hrow.read (lines_bodyBehind hg _ _) fun elseBranch c₂ hrow ↦ ?_
    refine hrow.read (lines_bodyBehind hg _ _) fun ensure c₃ hrow ↦ .pure ⟨?_, rfl⟩
    exact hrow

theorem lines_rescuedBody : Lines source (rescuedBody g) fun value ↦ [.body value] := by
  refine fun c hc hdraws ↦ .currentStart_bind ?_
  refine (lines_body hg _ c hc hdraws).bind fun main c₁ hmain ↦ .get_bind ?_
  dsimp only
  split
  · refine (gives_rowClauses hg hmain).bind fun node c₂ hnode ↦ .spanFrom_bind (.pure ?_)
    have hexpr : Row source c c₂ [.expr ⟨node, c₂.spanFrom c.front⟩] :=
      hnode.1.expr (.refl _) hnode.2
    exact hexpr.single
  · exact .pure hmain

end Bodies

end DeclaredMethods.Source
