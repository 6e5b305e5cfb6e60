import DeclaredMethods.Proofs.Parsing.Steps
import DeclaredMethods.Source.Parser.Arguments
import DeclaredMethods.Source.Parser.Block

/-!
# Statements, arguments and blocks obey every discipline

The productions for statements and bodies, for arguments and hash literals, and for parameters,
blocks and lambdas obey every discipline that the productions one nesting level further in obey.

A body reads a token in every round: if neither its statement nor the skipping behind it has read
one, it reads the token itself. It ends at a token that closes it or at the end of the source.
-/

namespace DeclaredMethods.Source

open Parse

structure Grammar.Obeys (d : Discipline) (g : Grammar) : Prop where
  notOperand : Parse.Obeys d g.notOperand
  expr : Parse.Obeys d g.expr
  binary : ∀ least, Parse.Obeys d (g.binary least)
  unary : Parse.Obeys d g.unary

variable {d : Discipline} {g : Grammar} (hg : g.Obeys d)

section Statements

include hg

theorem obeys_notOperand : Obeys d (notOperand g) := by
  refine looks_currentStart.obeys.bind fun start c ↦ .get_bind ?_
  split
  · rename_i hword
    refine .bind_of_looks looks_currentSpan fun opSpan ↦ .advance_bind (atEnd_of_atWord hword) ?_
    exact hg.notOperand.bind (fun _ ↦ obeys_finish start _) _
  · exact hg.expr c

theorem obeys_notExpr : Obeys d (notExpr g) := by
  refine looks_currentStart.obeys.bind fun start ↦ (obeys_notOperand hg).bind fun first ↦ ?_
  refine obeys_iterate first fun left c ↦ .currentKind_bind ?_
  split
  · rename_i op hop
    have hc : c.atEnd = false := atEnd_of_ne_eof fun hend ↦ by
      rw [hend] at hop
      cases hop
    refine .bind_of_looks looks_currentSpan fun opSpan ↦ .advance_round hc ?_
    refine obeys_skipNewlines.bind fun _ ↦ (obeys_notOperand hg).bind fun right ↦ ?_
    exact (obeys_finish start _).bind fun _ ↦ .pure _
  · exact .pure trivial

omit hg in
theorem obeys_assignTarget (target : Expr) : Obeys d (assignTarget target) := by
  unfold assignTarget
  split
  · exact .ite ((obeys_declare _).bind fun _ ↦ .pure _) (.pure _)
  · exact .pure _

theorem obeys_multipleAssignment (start : Nat) (first : Expr) :
    Obeys d (multipleAssignment g start first) := by
  refine fun c ↦ .get_bind (Obeys.ite ?_ (.pure first) c)
  refine (obeys_assignTarget first).bind fun firstTarget ↦ ?_
  refine (obeys_whileComma _ (hg.unary.bind obeys_assignTarget)).bind fun targets ↦ ?_
  refine (looks_spanFrom start).obeys.bind fun targetSpan ↦ ?_
  refine (obeys_expect _ _).bind fun _ ↦ obeys_skipNewlines.bind fun _ ↦ ?_
  refine looks_currentStart.obeys.bind fun valueStart ↦ hg.expr.bind fun firstValue ↦ ?_
  refine (obeys_whileComma _ (obeys_skipNewlines.bind fun _ ↦ hg.expr)).bind fun values ↦ ?_
  split
  · exact obeys_finish start _
  · exact (obeys_finish valueStart _).bind fun _ ↦ obeys_finish start _

/-- A modifier begins with a keyword, which is read. -/
theorem obeysRound_modifier (start : Nat) (expr : Expr) : ObeysRound d (modifier g start expr) := by
  refine fun c ↦ .get_bind ?_
  dsimp only
  split
  case h_6 => exact .pure trivial
  case h_5 hkind =>
    refine .advance_round (atEnd_of_kind hkind rfl) ((obeys_notExpr hg).bind fun _ ↦ ?_)
    refine (looks_spanFrom _).obeys.bind fun _ ↦ ?_
    exact (obeys_finish start _).bind fun _ ↦ .pure _
  -- The two conditionals and the two loops differ in the node they build only.
  all_goals
    rename_i hkind
    refine .advance_round (atEnd_of_kind hkind rfl) ((obeys_notExpr hg).bind fun _ ↦ ?_)
    exact (obeys_finish start _).bind fun _ ↦ .pure _

theorem obeys_statement : Obeys d (statement g) := by
  refine looks_currentStart.obeys.bind fun start ↦ (obeys_notExpr hg).bind fun first ↦ ?_
  refine (obeys_multipleAssignment hg start first).bind fun expr ↦ ?_
  exact obeys_iterate expr (obeysRound_modifier hg start)

omit hg in
/-- Skipping to the next statement stops at the end of the source. -/
theorem obeys_resume (until_ : BodyEnd) : Obeys d (resume until_) := by
  refine looks_currentKind.obeys.bind fun kind ↦ .ite (.pure ()) ?_
  exact (obeys_unexpected _).bind fun _ ↦ obeys_skipWhile _ rfl

/-- A body ends at a token that closes it or at the end of the source. -/
theorem obeysAt_body (until_ : BodyEnd) (c : Cursor) :
    ObeysAt d c (body g until_) fun _ c' ↦
      c'.atEnd = true ∨ until_.closes c'.current.kind = true := by
  refine .bind_of_looks looks_currentStart fun start ↦ ?_
  refine .bind (obeysAt_iterate [] c fun statements c₁ _ ↦ ?_) fun statements c' _ hclosed ↦
    .bind_of_looks (looks_spanFrom start) fun _ ↦ .pure hclosed
  refine (obeys_skipTerminators c₁).bind fun _ c₂ hskip _ ↦ .get_bind ?_
  split
  · rename_i hclosed
    exact .pure (Bool.or_eq_true_iff.1 hclosed)
  · rename_i hopen
    have hc₂ : c₂.atEnd = false :=
      Bool.eq_false_iff.2 fun hend ↦ hopen (Bool.or_eq_true_iff.2 (.inl hend))
    refine (obeys_statement hg c₂).bind fun expr c₃ hstatement _ ↦ ?_
    refine (obeys_resume until_ c₃).bind fun _ c₄ hresume _ ↦ .get_bind ?_
    have honward : c₂.Onward c₄ := hstatement.onward.trans hresume.onward
    have hle : c₂.unread.length ≤ c₁.unread.length := hskip.length_le
    -- Either a token has been read, or the one the round began with is still current.
    split
    · rename_i hposition
      have hc₄ : c₄.atEnd = false := by
        rw [Cursor.atEnd, honward.current_eq hposition]
        exact hc₂
      have hless := Cursor.length_advance_lt hc₄
      have hle' := honward.length_le
      exact .advance_bind hc₄ (.pure (show _ < _ by omega))
    · rename_i hposition
      exact .pure (Nat.lt_of_lt_of_le (honward.length_lt hposition) hle)

theorem obeys_body (until_ : BodyEnd) : Obeys d (body g until_) :=
  fun c ↦ (obeysAt_body hg until_ c).mono fun _ _ _ _ ↦ trivial

omit hg in
theorem obeys_rescueBinding : Obeys d rescueBinding := by
  refine (obeys_eat _).bind fun _ ↦ .ite (fun c ↦ .currentKind_bind ?_) (.pure none)
  split
  · rename_i hkind
    refine .advance_bind (atEnd_of_kind hkind rfl) ?_
    exact (obeys_declare _).bind (fun _ ↦ .pure _) _
  · exact (obeys_fail rfl).bind (fun _ ↦ .pure none) c

theorem obeys_rescueExceptions : Obeys d (rescueExceptions g) := by
  refine obeys_iterate [] fun exceptions c ↦ .get_bind (ObeysRound.ite (.done _) ?_ c)
  exact .bind hg.expr fun _ ↦ .eaten (obeysAt_eat .comma) (.pure _) (.done _)

theorem obeys_bodyBehind (word : Keyword) (until_ : BodyEnd) :
    Obeys d (bodyBehind? g word until_) :=
  (obeys_eatWord word).bind fun _ ↦ .ite ((obeys_body hg until_).bind fun _ ↦ .pure _) (.pure none)

theorem obeys_rescueClauses (main : Body) : Obeys d (rescueClauses g main) := by
  refine Obeys.bind (obeys_iterate [] fun rescues ↦ ?_) fun rescues ↦ ?_
  · refine .eaten (obeysAt_eatWord .rescue_) ?_ (.done rescues)
    refine (obeys_rescueExceptions hg).bind fun exceptions ↦ obeys_rescueBinding.bind fun _ ↦ ?_
    exact (obeys_eatWord _).bind fun _ ↦ (obeys_body hg _).bind fun _ ↦ .pure _
  · exact (obeys_bodyBehind hg _ _).bind fun _ ↦ (obeys_bodyBehind hg _ _).bind fun _ ↦ .pure _

theorem obeys_rescuedBody : Obeys d (rescuedBody g) := by
  refine looks_currentStart.obeys.bind fun start ↦ (obeys_body hg _).bind fun main c ↦ ?_
  refine .get_bind (Obeys.ite ?_ (.pure main) c)
  exact (obeys_rescueClauses hg main).bind fun _ ↦ (looks_spanFrom start).obeys.bind fun _ ↦ .pure _

end Statements

section Arguments

/-- A mark that stands next is not the end of the source. -/
theorem atEnd_advance_of_nextIsMark {c : Cursor} {mark : Punct} (h : c.nextIsMark mark = true) :
    c.advance.atEnd = false :=
  atEnd_of_atMark (c := c.advance) h

/-- A label is a token and the colon behind it. -/
theorem atEnd_of_labelName {c : Cursor} {name : String} (h : labelName? c = some name) :
    c.atEnd = false ∧ c.advance.atEnd = false := by
  unfold labelName? at h
  split at h
  · rename_i hcolon
    refine ⟨?_, atEnd_advance_of_nextIsMark (Bool.and_eq_true_iff.1 hcolon).1⟩
    exact atEnd_of_ne_eof fun hend ↦ by
      rw [hend] at h
      cases h
  · cases h

theorem obeys_label : Obeys d label? := by
  refine fun c ↦ .get_bind ?_
  split
  · rename_i name hname
    obtain ⟨hc, hcolon⟩ := atEnd_of_labelName hname
    exact .advance_bind hc (.advance_bind hcolon (.pure trivial))
  · exact .pure trivial

theorem obeys_shorthandValue (label : Spanned String) : Obeys d (shorthandValue label) :=
  fun c ↦ .get_bind (Obeys.ite (.pure _) (.pure _) c)

include hg

theorem obeys_hashEntry (closer : Option Punct) : Obeys d <| hashEntry? g closer := by
  refine (obeys_eat _).bind fun _ ↦ .ite (hg.expr.bind fun _ ↦ .pure _) ?_
  refine obeys_label.bind fun label ↦ ?_
  split
  · exact .pure none
  · rename_i label
    refine .optional obeys_skipNewlines fun c ↦ .get_bind (Obeys.ite ?_ ?_ c)
    · exact (obeys_shorthandValue label).bind fun _ ↦ .pure _
    · exact hg.expr.bind fun _ ↦ .pure _

omit hg in
theorem obeys_close (given : GivenArguments) (parenthesized : Bool) :
    Obeys d (given.close parenthesized) := by
  unfold GivenArguments.close
  split
  · exact (obeys_finish _ _).bind fun _ ↦ .pure _
  · exact .pure _

theorem obeys_argument (closer : Option Punct) (given : GivenArguments) :
    Obeys d (argument g closer given) := by
  refine looks_currentStart.obeys.bind fun start ↦ (obeys_eat _).bind fun _ ↦ ?_
  refine .ite (hg.unary.bind fun _ ↦ .pure _) ((obeys_hashEntry hg closer).bind fun entry ↦ ?_)
  split
  · exact .pure _
  · refine hg.expr.bind fun value ↦ (obeys_eat _).bind fun _ ↦ .ite ?_ (.pure _)
    exact obeys_skipNewlines.bind fun _ ↦ hg.expr.bind fun _ ↦ .pure _

/-- Each further argument stands behind a comma, so the list ends. -/
theorem obeys_argumentList (closer : Option Punct) : Obeys d (argumentList g closer) := by
  refine Obeys.bind (obeys_iterate _ fun given ↦ ?_) fun given ↦ obeys_close given _
  refine .optional obeys_skipNewlines fun c ↦ .get_bind (ObeysRound.ite (.done given) ?_ c)
  refine .bind (obeys_argument hg closer given) fun given' ↦ ?_
  exact .eaten (obeysAt_eat .comma) (obeys_skipNewlines.bind fun _ ↦ .pure _) (.done given')

theorem obeys_commandArguments : Obeys d (commandArguments g) :=
  obeys_withDo false (obeys_argumentList hg none)

theorem obeys_enclosedArguments (closer : Punct) (expected : String) :
    Obeys d (enclosedArguments g closer expected) := by
  refine (obeys_withDo true (obeys_argumentList hg (some closer))).bind fun args ↦ ?_
  exact obeys_skipNewlines.bind fun _ ↦ (obeys_expect _ _).bind fun _ ↦ .pure args

theorem obeys_literalEntry : Obeys d (literalEntry g) := by
  refine (obeys_hashEntry hg _).bind fun entry ↦ ?_
  split
  · exact .pure _
  · refine hg.expr.bind fun key ↦ obeys_skipNewlines.bind fun _ ↦ (obeys_expect _ _).bind fun _ ↦ ?_
    exact obeys_skipNewlines.bind fun _ ↦ hg.expr.bind fun _ ↦ .pure _

theorem obeys_hashLiteral : Obeys d (hashLiteral g) := by
  refine Obeys.bind (obeys_withDo true (obeys_iterate [] fun entries ↦ ?_)) fun entries ↦
    obeys_skipNewlines.bind fun _ ↦ (obeys_expect _ _).bind fun _ ↦ .pure entries
  refine .bind obeys_skipNewlines fun _ c ↦ .get_bind (ObeysRound.ite (.done entries) ?_ c)
  refine .bind (obeys_literalEntry hg) fun _ ↦ .bind obeys_skipNewlines fun _ ↦ ?_
  exact .eaten (obeysAt_eat .comma) (.pure _) (.done _)

end Arguments

section Blocks

theorem obeys_paramName : Obeys d paramName? := by
  refine fun c ↦ .currentKind_bind ?_
  split
  · rename_i hkind
    exact .advance_bind (atEnd_of_kind hkind rfl) (.pure trivial)
  · exact .pure trivial

include hg

theorem obeys_keywordDefault (closer : Option Punct) : Obeys d (keywordDefault g closer) :=
  fun c ↦ .get_bind (Obeys.ite (.pure none) ((hg.binary _).bind fun _ ↦ .pure _) c)

theorem obeysInside_namedParam (closer : Option Punct) : ObeysInside d (namedParam g closer) := by
  refine fun c hc ↦ .get_bind ?_
  split
  · rename_i hlabel
    have hcolon := atEnd_advance_of_nextIsMark (Bool.and_eq_true_iff.1 hlabel).1
    refine .advance_bind hc (.advance_bind hcolon ?_)
    exact (obeys_keywordDefault hg closer).bind (fun _ ↦ .pure _) _
  · refine .advance_bind hc ((obeys_eat _).bind (fun _ ↦ .ite ?_ (.pure _)) _)
    exact (hg.binary _).bind fun _ ↦ .pure _

/-- The inside of a parenthesized parameter starts behind the parenthesis, so it has fewer tokens
to read than the parameter. -/
theorem obeysAt_param (closer : Option Punct) {destructured : Parse (List Param)} (c : Cursor)
    (h : ∀ c', c'.unread.length < c.unread.length → ObeysAt d c' destructured fun _ _ ↦ True) :
    ObeysAt d c (param? g closer destructured) fun _ _ ↦ True := by
  refine .bind_of_looks looks_currentStart fun start ↦ ?_
  refine ObeysAt.bind (.currentKind_bind ?_) fun parts c' _ (_ : True) ↦ ?_
  · split
    case h_4 hkind => exact .advance_bind (atEnd_of_kind hkind rfl) (.pure trivial)
    case h_5 name hkind =>
      refine (obeysInside_namedParam hg closer c (atEnd_of_kind hkind rfl)).bind fun _ _ _ _ ↦ ?_
      exact .pure trivial
    case h_6 hkind =>
      have hc := atEnd_of_kind hkind rfl
      refine .advance_bind hc ((h _ (Cursor.length_advance_lt hc)).bind fun inner c' _ _ ↦ ?_)
      exact (obeys_expect _ _).bind (fun _ ↦ (obeys_declareParams inner).bind fun _ ↦ .pure _) c'
    case h_7 => exact (obeys_unexpected _).bind (fun _ ↦ .pure none) c
    -- A mark and the name behind it.
    all_goals
      rename_i hkind
      exact .advance_bind (atEnd_of_kind hkind rfl) (obeys_paramName.bind (fun _ ↦ .pure _) _)
  · split
    · exact (looks_spanFrom start).obeys.bind (fun _ ↦ .pure _) c'
    · exact .pure trivial

/-- Each parenthesis takes a token, so a list with fewer tokens left than parentheses allowed is
read to its end. -/
theorem obeysAt_paramListUpTo (bound : Nat) (closer : Option Punct) (c : Cursor)
    (hbound : c.unread.length < bound) :
    ObeysAt d c (paramListUpTo g bound closer) fun _ _ ↦ True := by
  induction bound generalizing closer c with
  | zero => exact absurd hbound (Nat.not_lt_zero _)
  | succ bound ih =>
    refine obeysAt_iterate [] c fun params c₁ hle ↦ ?_
    refine .optional obeys_skipNewlines fun c₂ hskip ↦ .get_bind ?_
    have hle' := hskip.length_le
    split
    · exact .pure trivial
    · refine (obeysAt_param hg closer c₂ fun c' hless ↦ ih _ c' (by omega)).bind
        fun param c₃ hparam _ ↦ ?_
      split
      · exact .pure trivial
      · exact (ObeysRound.eaten (obeysAt_eat .comma) (.pure _) (.done _) c₃).round_mono
          (Nat.le_trans hparam.length_le hle')

theorem obeys_paramList (closer : Option Punct) : Obeys d (paramList g closer) :=
  fun c ↦ .get_bind (obeysAt_paramListUpTo hg c.rounds closer c c.length_unread_lt_rounds)

theorem obeys_blockParams : Obeys d (blockParams g) := by
  refine (obeys_eat _).bind fun _ ↦ .ite (.pure []) ((obeys_eat _).bind fun _ ↦ .ite ?_ (.pure []))
  refine (obeys_paramList hg _).bind fun params ↦ (obeys_expect _ _).bind fun _ ↦ ?_
  exact (obeys_declareParams params).bind fun _ ↦ .pure params

/-- A block between an opening token and whatever closes it. -/
theorem obeysInside_block {inner : Parse Body} {close : Parse Unit}
    (hinner : Obeys d inner) (hclose : Obeys d close) :
    ObeysInside d (do
      let start ← currentStart
      advance
      let (params, inner) ← inScope true (do
        let params ← blockParams g
        let inner ← withDo true inner
        close
        return (params, inner))
      return (⟨params, inner, ← spanFrom start⟩ : Block)) := by
  refine .bind_of_looks looks_currentStart fun start ↦ .advance ?_
  refine (obeys_inScope true ?_).bind fun _ ↦ (looks_spanFrom start).obeys.bind fun _ ↦ .pure _
  refine (obeys_blockParams hg).bind fun params ↦ (obeys_withDo true hinner).bind fun inner ↦ ?_
  exact hclose.bind fun _ ↦ .pure _

theorem obeysInside_braceBlock : ObeysInside d (braceBlock g) :=
  obeysInside_block hg (obeys_body hg _) (obeys_expect _ _)

theorem obeysInside_doBlock : ObeysInside d (doBlock g) :=
  obeysInside_block hg (obeys_rescuedBody hg) (obeys_expectWord _ _)

theorem obeys_lambdaParams : Obeys d (lambdaParams g) := by
  refine (obeys_eat _).bind fun _ ↦ .ite ?_ (looks_currentKind.obeys.bind fun kind ↦ ?_)
  · exact (obeys_paramList hg _).bind fun params ↦ (obeys_expect _ _).bind fun _ ↦ .pure params
  · split
    · exact obeys_paramList hg none
    · exact .pure []

theorem obeys_lambdaBody : Obeys d (lambdaBody g) := by
  refine (obeys_eat _).bind fun _ ↦ .ite ?_ ((obeys_eatWord _).bind fun _ ↦ .ite ?_ ?_)
  · exact (obeys_withDo true (obeys_body hg _)).bind fun inner ↦
      (obeys_expect _ _).bind fun _ ↦ .pure inner
  · exact (obeys_withDo true (obeys_rescuedBody hg)).bind fun inner ↦
      (obeys_expectWord _ _).bind fun _ ↦ .pure inner
  · exact (obeys_unexpected _).bind fun _ ↦ looks_currentSpan.obeys.bind fun _ ↦ .pure _

/-- The arrow of a lambda has been read before. -/
theorem obeys_lambda (start : Nat) : Obeys d (lambda g start) := by
  refine (obeys_inScope true ?_).bind fun _ ↦ (looks_spanFrom start).obeys.bind fun _ ↦ .pure _
  refine (obeys_lambdaParams hg).bind fun params ↦ (obeys_declareParams params).bind fun _ ↦ ?_
  exact (obeys_lambdaBody hg).bind fun _ ↦ .pure _

end Blocks

end DeclaredMethods.Source
