import DeclaredMethods.Proofs.Building.Steps
import DeclaredMethods.Source.Parser.Arguments
import DeclaredMethods.Source.Parser.Statement

/-!
# Building statements and arguments

Where the expressions that are read one nesting level further in meet a condition, the statements,
bodies and arguments made from them meet it as well.
-/

namespace DeclaredMethods.Source

open Parse
open Piece (ofExpr? ofBody? ofExprs)

variable {source : String} {condition : Condition source} {g : Grammar}

/-- The expressions that a grammar reads meet a condition. -/
structure Grammar.Builds (condition : Condition source) (g : Grammar) : Prop where
  unary : ∀ c : Cursor, c.DrawsFrom source →
    Gives c g.unary fun value c' ↦ condition.OnRead c value ∧ c'.DrawsFrom source
  expr : Yields source g.expr condition.OnExpr
  binary : ∀ least, Yields source (g.binary least) condition.OnExpr
  notExpr : Yields source (notExpr g) condition.OnExpr

/-- An operand meets the condition wherever it stands. -/
theorem Grammar.Builds.yields_unary (hg : g.Builds condition) :
    Yields source g.unary condition.OnExpr :=
  fun c hc ↦ (hg.unary c hc).mono fun _ _ hvalue ↦ ⟨hvalue.1.on, hvalue.2⟩

variable (hg : g.Builds condition)

section Statements

theorem yields_whileComma {item : Parse Expr} {items : List Expr}
    (hitem : Yields source item condition.OnExpr) (hitems : condition.OnAll (ofExprs items)) :
    Yields source (whileComma item items) fun items ↦ condition.OnAll (ofExprs items) := by
  refine .iterate _ hitems fun items hitems ↦ .after fun eaten ↦ .either ?_ (.pure hitems)
  exact hitem.bind fun value hvalue ↦ .pure (by simp_all [ofExprs, Round.value])

include hg

theorem yields_exprBehindNewlines : Yields source (do skipNewlines; g.expr) condition.OnExpr :=
  .after fun _ ↦ hg.expr

omit hg in
/-- What is assigned to becomes a variable if it was a bare name. -/
theorem yields_assignTarget {target : Expr} (h : condition.OnExpr target) :
    Yields source (assignTarget target) condition.OnExpr := by
  unfold assignTarget
  split
  · refine .either (.after fun _ ↦ .pure ?_) (.pure h)
    exact (Condition.OnNode.onOperand ⟨rfl, Condition.onAll_nil⟩ _).on
  · exact .pure h

/-- Several targets make one array on the left, and several values one on the right. -/
theorem yields_multipleAssignment (start : Nat) {first : Expr} (h : condition.OnExpr first) :
    Yields source (multipleAssignment g start first) condition.OnExpr := by
  refine .after fun c ↦ .either ?_ (.pure h)
  refine (yields_assignTarget h).bind fun firstTarget hfirst ↦ ?_
  have htarget : Yields source (do assignTarget (← g.unary)) condition.OnExpr :=
    hg.yields_unary.bind fun _ ↦ yields_assignTarget
  refine (yields_whileComma htarget (by simpa [ofExprs])).bind fun targets htargets ↦ ?_
  refine .after fun targetSpan ↦ .after fun _ ↦ .after fun _ ↦ .after fun valueStart ↦ ?_
  have htargets : condition.OnOperand ⟨.array targets, targetSpan⟩ :=
    Condition.OnNode.onOperand ⟨rfl, htargets⟩ _
  refine hg.expr.bind fun firstValue hfirst ↦ ?_
  refine (yields_whileComma (yields_exprBehindNewlines hg) (by simpa [ofExprs])).bind
    fun values hvalues ↦ ?_
  split
  · rename_i value
    exact (yields_finish ⟨rfl, by simp_all [Node.pieces, ofExprs, htargets.on]⟩ _).mono
      fun _ hvalue ↦ hvalue.on
  · refine (yields_finish ⟨rfl, hvalues⟩ _).bind fun value hvalue ↦ ?_
    exact (yields_finish ⟨rfl, by simp [Node.pieces, htargets.on, hvalue.on]⟩ _).mono
      fun _ hvalue ↦ hvalue.on

theorem yields_modifier (start : Nat) {value : Expr} (h : condition.OnExpr value) :
    Yields source (modifier g start value) fun round ↦ condition.OnExpr round.value := by
  have hsingle : condition.OnBody (.single value) := by simpa [Body.single, ofExprs]
  refine .after fun c ↦ ?_
  dsimp only
  split
  case h_6 => exact .pure h
  case h_5 =>
    refine .after fun _ ↦ hg.notExpr.bind fun fallback hfallback ↦ .after fun rescueSpan ↦ ?_
    refine (yields_again_finish ⟨rfl, ?_⟩ _).mono fun _ hround ↦ hround.on
    simp_all [Node.pieces, RescueClause.pieces, ofExprs, ofBody?]
  -- The two conditionals and the two loops differ in the node they build only.
  all_goals
    refine .after fun _ ↦ hg.notExpr.bind fun test htest ↦ ?_
    refine (yields_again_finish ⟨rfl, ?_⟩ _).mono fun _ hround ↦ hround.on
    simp_all [Node.pieces, ofBody?]

theorem yields_statement : Yields source (statement g) condition.OnExpr := by
  refine .after fun start ↦ hg.notExpr.bind fun first hfirst ↦ ?_
  refine (yields_multipleAssignment hg start hfirst).bind fun value hvalue ↦ ?_
  exact .iterate _ hvalue fun _ ↦ yields_modifier hg start

omit hg in
instance keeps_resume (until_ : BodyEnd) : Keeps source (resume until_) where
  yields := .after fun _ ↦ .either (.pure trivial) (.after fun _ ↦ Keeps.yields)

/-- The statements of a body meet the condition one by one. -/
theorem yields_body (until_ : BodyEnd) : Yields source (body g until_) condition.OnBody := by
  refine .after fun start ↦ ?_
  refine (Preserves.iterate (fun statements ↦ condition.OnAll (ofExprs statements))
    Condition.onAll_nil fun statements hstatements ↦ ?_).bind fun statements hstatements ↦
      .after fun span ↦ .pure (Condition.on_body.2 hstatements)
  refine .after fun _ ↦ .after fun c ↦ .either (.pure hstatements) ?_
  refine (yields_statement hg).bind fun value hvalue ↦ .after fun _ ↦ .after fun c' ↦ ?_
  exact .optional (.pure (by simp_all [ofExprs, Round.value]))

end Statements

section Clauses

instance keeps_rescueBinding : Keeps source rescueBinding where
  yields := by
    refine .after fun eaten ↦ .either (.after fun kind ↦ ?_) (.pure trivial)
    split
    · exact .after fun _ ↦ .after fun _ ↦ .pure trivial
    · exact .after fun _ ↦ .pure trivial

include hg

theorem yields_rescueExceptions :
    Yields source (rescueExceptions g) fun exceptions ↦ condition.OnAll (ofExprs exceptions) := by
  refine .iterate _ Condition.onAll_nil fun exceptions hexceptions ↦ .after fun c ↦
    .either (.pure hexceptions) (hg.expr.bind fun value hvalue ↦ ?_)
  have hmore : condition.OnAll (ofExprs (exceptions ++ [value])) := by simp_all [ofExprs]
  exact .after fun eaten ↦ .either (.pure hmore) (.pure hmore)

theorem yields_bodyBehind (word : Keyword) (until_ : BodyEnd) :
    Yields source (bodyBehind? g word until_) fun body ↦ condition.OnAll (ofBody? body) :=
  .after fun eaten ↦ .either
    ((yields_body hg until_).bind fun body hbody ↦ .pure (by simpa [ofBody?]))
    (.pure Condition.onAll_nil)

/-- A body that may be rescued and its clauses become one expression. -/
theorem yields_rescueClauses {main : Body} (h : condition.OnBody main) :
    Yields source (rescueClauses g main) condition.OnNode := by
  refine (Preserves.iterate
    (fun rescues ↦ condition.OnAll (List.flatMap RescueClause.pieces rescues)) Condition.onAll_nil
    fun rescues hrescues ↦ ?_).bind fun rescues hrescues ↦ ?_
  · refine .after fun eaten ↦ .either ?_ (.pure hrescues)
    refine (yields_rescueExceptions hg).bind fun exceptions hexceptions ↦ ?_
    refine .after fun binding ↦ .after fun _ ↦ (yields_body hg _).bind fun handler hhandler ↦ ?_
    exact .pure (by simp_all [RescueClause.pieces, Round.value])
  refine (yields_bodyBehind hg _ _).bind fun elseBranch helse ↦ ?_
  refine (yields_bodyBehind hg _ _).bind fun ensure hensure ↦ .pure ⟨rfl, ?_⟩
  simp_all [Node.pieces]

theorem yields_rescuedBody : Yields source (rescuedBody g) condition.OnBody := by
  refine .after fun start ↦ (yields_body hg _).bind fun main hmain ↦ .after fun c ↦
    .either ?_ (.pure hmain)
  refine (yields_rescueClauses hg hmain).bind fun node hnode ↦ .after fun span ↦ .pure ?_
  simpa [ofExprs] using (hnode.onOperand span).on

end Clauses

section Arguments

instance keeps_label : Keeps source label? where
  yields := by
    refine .after fun c ↦ ?_
    split
    · exact .after fun _ ↦ .after fun _ ↦ .pure trivial
    · exact .pure trivial

/-- The value of a label without one is read from the label itself. -/
theorem yields_shorthandValue (label : Spanned String) :
    Yields source (shorthandValue label) condition.OnExpr := by
  have hcall : condition.OnNode (.call none label .none none false) :=
    ⟨rfl, by simp [Node.pieces, Arguments.pieces, Arguments.none, ofExpr?, ofExprs]⟩
  exact .after fun c ↦ .either
    (.pure (Condition.OnNode.onOperand ⟨rfl, Condition.onAll_nil⟩ _).on)
    (.pure (hcall.onOperand _).on)

def GivenArguments.pieces (given : GivenArguments) : List Piece :=
  ofExprs given.positional ++ ofExpr? given.blockArg ++
    given.pairs.toList.flatMap fun pairs ↦ pairs.2.2.flatMap HashEntry.pieces

/-- A pair adds its pieces behind those of the arguments in front of it. -/
theorem GivenArguments.pieces_addEntry (given : GivenArguments) (start : Nat) (entry : HashEntry) :
    (given.addEntry start entry).pieces = given.pieces ++ entry.pieces := by
  unfold addEntry
  split
  · rename_i hpairs
    simp [pieces, hpairs]
  · rename_i hpairs
    simp [pieces, hpairs]

/-- Closing the arguments puts the pairs among them into one hash. -/
theorem yields_close {given : GivenArguments} (h : condition.OnAll given.pieces)
    (parenthesized : Bool) :
    Yields source (given.close parenthesized) fun args ↦ condition.OnAll args.pieces := by
  unfold GivenArguments.close
  split
  · rename_i index start entries hpairs
    have hentries : condition.OnAll (entries.flatMap HashEntry.pieces) :=
      h.subset (by simp [GivenArguments.pieces, hpairs])
    refine (yields_finish ⟨rfl, hentries⟩ _).bind fun hash hhash ↦ .pure ?_
    refine Condition.OnAll.subset (Condition.onAll_cons.2 ⟨hhash.on, h⟩) ?_
    have htake := List.take_subset index given.positional
    have hdrop := List.drop_subset index given.positional
    grind [Arguments.pieces, GivenArguments.pieces, ofExprs]
  · exact .pure (h.subset (by simp [Arguments.pieces, GivenArguments.pieces]))

include hg

theorem yields_hashEntry (closer : Option Punct) :
    Yields source ( hashEntry? g closer) fun entry ↦
      condition.OnAll (entry.toList.flatMap HashEntry.pieces) := by
  refine .after fun eaten ↦ .either ?_ (.after fun label ↦ ?_)
  · exact hg.expr.bind fun value hvalue ↦ .pure (by simpa [HashEntry.pieces])
  split
  · exact .pure Condition.onAll_nil
  · rename_i label
    have hkey : condition.OnOperand ⟨.literal (.symbol label.node), label.span⟩ :=
      Condition.OnNode.onOperand ⟨rfl, Condition.onAll_nil⟩ _
    have hpair (value : Expr) (hvalue : condition.OnExpr value) :
        condition.OnAll ((some (HashEntry.pair ⟨.literal (.symbol label.node), label.span⟩
          value)).toList.flatMap HashEntry.pieces) := by
      simp [HashEntry.pieces, hkey.on, hvalue]
    refine .optional (.after fun c ↦ .either ?_ ?_)
    · exact (yields_shorthandValue label).bind fun value hvalue ↦ .pure (hpair value hvalue)
    · exact hg.expr.bind fun value hvalue ↦ .pure (hpair value hvalue)

theorem yields_argument (closer : Option Punct) {given : GivenArguments}
    (h : condition.OnAll given.pieces) :
    Yields source (argument g closer given) fun given ↦ condition.OnAll given.pieces := by
  refine .after fun start ↦ .after fun eaten ↦ .either ?_ ?_
  · exact hg.yields_unary.bind fun value hvalue ↦
      .pure (by simp_all [GivenArguments.pieces, ofExpr?])
  refine (yields_hashEntry hg closer).bind fun entry hentry ↦ ?_
  split
  · refine .pure ?_
    rw [GivenArguments.pieces_addEntry]
    simp_all
  · refine hg.expr.bind fun value hvalue ↦ .after fun eaten ↦ .either (.after fun _ ↦ ?_) (.pure ?_)
    · refine hg.expr.bind fun other hother ↦ .pure ?_
      rw [GivenArguments.pieces_addEntry]
      simp_all [HashEntry.pieces]
    · simp_all [GivenArguments.pieces, GivenArguments.addPositional, ofExprs]

theorem yields_argumentList (closer : Option Punct) :
    Yields source (argumentList g closer) fun args ↦ condition.OnAll args.pieces := by
  refine (Preserves.iterate (fun given ↦ condition.OnAll (GivenArguments.pieces given))
    Condition.onAll_nil fun given hgiven ↦ ?_).bind fun given hgiven ↦ yields_close hgiven _
  refine .optional (.after fun c ↦ .either (.pure hgiven) ?_)
  refine (yields_argument hg closer hgiven).bind fun given hgiven ↦ .after fun eaten ↦ ?_
  exact .either (.after fun _ ↦ .pure hgiven) (.pure hgiven)

theorem yields_enclosedArguments (closer : Punct) (expected : String) :
    Yields source (enclosedArguments g closer expected) fun args ↦ condition.OnAll args.pieces :=
  ((yields_argumentList hg (some closer)).withDo true).bind fun _ hargs ↦
    .after fun _ ↦ .after fun _ ↦ .pure hargs

theorem yields_literalEntry :
    Yields source (literalEntry g) fun entry ↦ condition.OnAll entry.pieces := by
  refine (yields_hashEntry hg _).bind fun entry hentry ↦ ?_
  split
  · exact .pure (by simp_all)
  · refine hg.expr.bind fun key hkey ↦ .after fun _ ↦ .after fun _ ↦ .after fun _ ↦ ?_
    exact hg.expr.bind fun value hvalue ↦ .pure (by simp_all [HashEntry.pieces])

theorem yields_hashLiteral :
    Yields source (hashLiteral g) fun entries ↦
      condition.OnAll (entries.flatMap HashEntry.pieces) := by
  refine (Preserves.withDo true (Preserves.iterate
    (fun entries ↦ condition.OnAll (List.flatMap HashEntry.pieces entries)) Condition.onAll_nil
    fun entries hentries ↦ ?_)).bind fun entries hentries ↦
      .after fun _ ↦ .after fun _ ↦ .pure hentries
  refine .after fun _ ↦ .after fun c ↦ .either (.pure hentries) ?_
  refine (yields_literalEntry hg).bind fun entry hentry ↦ .after fun _ ↦ .after fun eaten ↦ ?_
  have hmore : condition.OnAll (List.flatMap HashEntry.pieces (entries ++ [entry])) := by simp_all
  exact .either (.pure hmore) (.pure hmore)

end Arguments

end DeclaredMethods.Source
