import DeclaredMethods.Proofs.Places.Layout
import DeclaredMethods.Proofs.Parsing.Steps

/-!
# Steps that read pieces

What a step gives is described by a property of its value and of the cursor behind it. A step reads
pieces if they start behind the cursor in front of it and end by the cursor behind it, where the
last one may be left empty in front of the current token. An expression that is read starts at the
current token.

Productions read one piece after another. Each rule takes what was read up to a step and adds what
the step reads, so the pieces of a node are collected along the way. A token that is read counts as
a piece as well.
-/

namespace DeclaredMethods

section Tokens

open Source Source.Parse

variable {β : Type} {mayFail : Prop} {c : Cursor} {last : β → Cursor → Prop}

theorem Triple.currentKind_bind {next : TokenKind → Parse β}
    (h : Triple mayFail c (next c.current.kind) last) :
    Triple mayFail c (currentKind >>= next) last :=
  .bind_of_run rfl h

theorem Triple.currentSpan_bind {next : Span → Parse β}
    (h : Triple mayFail c (next c.current.span) last) :
    Triple mayFail c (currentSpan >>= next) last :=
  .bind_of_run rfl h

theorem Triple.currentStart_bind {next : Nat → Parse β}
    (h : Triple mayFail c (next c.front) last) : Triple mayFail c (currentStart >>= next) last :=
  .bind_of_run rfl h

theorem Triple.spanFrom_bind {start : Nat} {next : Span → Parse β}
    (h : Triple mayFail c (next (c.spanFrom start)) last) :
    Triple mayFail c (spanFrom start >>= next) last :=
  .bind_of_run rfl h

theorem Triple.finish_bind {start : Nat} {node : Node} {next : Expr → Parse β}
    (h : Triple mayFail c (next ⟨node, c.spanFrom start⟩) last) :
    Triple mayFail c (finish start node >>= next) last :=
  .bind_of_run rfl h

theorem Triple.advance_bind {next : Unit → Parse β} (h : Triple mayFail c.advance (next ()) last) :
    Triple mayFail c (advance >>= next) last :=
  .bind_of_run rfl h

/-- A token that is read if it passes a test, with a choice behind it. -/
theorem Triple.eatIf {test : Cursor → Bool} {yes no : Parse β}
    (hyes : test c = true → Triple mayFail c.advance yes last)
    (hno : test c = false → Triple mayFail c no last) :
    Triple mayFail c ((do if test (← get) then advance; return true else return false) >>=
      fun eaten ↦ if eaten = true then yes else no) last := by
  rw [bind_assoc]
  refine .get_bind ?_
  cases htest : test c with
  | true =>
    rw [if_pos rfl, bind_assoc]
    exact .advance_bind (hyes htest)
  | false =>
    rw [if_neg Bool.false_ne_true]
    exact .bind_of_run rfl (hno htest)

end Tokens

namespace Source

open Cursor (Moves)

namespace Parse

section Results

variable {α : Type} {c : Cursor} {post : α → Cursor → Prop}

/-- Whatever a step gives from a cursor has the given property. -/
abbrev Gives (c : Cursor) (step : Parse α) (post : α → Cursor → Prop) : Prop :=
  Triple True c step post

/-- A loop gives what its last round gives, as long as every other one keeps its invariant. -/
theorem gives_iterate (inv : α → Cursor → Prop) {step : α → Parse (Round α)} {init : α}
    (hinit : inv init c)
    (hstep : ∀ value c', inv value c' → Gives c' (step value) (Round.Leaves inv post)) :
    Gives c (iterate step init) post :=
  .get_bind (triple_iterateWithin inv hinit hstep)

end Results

section Reading

variable {α : Type} {source : String} {step : Parse α} {pieces : α → List Piece}

/-- The pieces that a step reads end by the cursor behind it. -/
def Reads (source : String) (step : Parse α) (pieces : α → List Piece) : Prop :=
  ∀ c : Cursor, c.Stands source → Gives c step fun value c' ↦ AllEndBy source c c' (pieces value)

/-- The pieces that a step reads end by the cursor behind it or are empty bodies in front of its
current token. -/
def ReadsOrEmpty (source : String) (step : Parse α) (pieces : α → List Piece) : Prop :=
  ∀ c : Cursor, c.Stands source →
    Gives c step fun value c' ↦ AllEndByOrEmpty source c c' (pieces value)

/-- The expression that a step reads starts at the current token and ends by the cursor behind
it. -/
def ReadsExpr (source : String) (step : Parse Expr) : Prop :=
  ∀ c : Cursor, c.Stands source → Gives c step (ExprBetween source c)

theorem ReadsExpr.reads {step : Parse Expr} (h : ReadsExpr source step) :
    Reads source step fun value ↦ [.expr value] :=
  fun c hc ↦ (h c hc).mono fun _ _ hbetween ↦ hbetween.allEndBy

/-- The pieces that are read need not be kept. -/
theorem Reads.forget (h : Reads source step pieces) : Reads source step fun _ ↦ [] :=
  fun c hc ↦ (h c hc).mono fun _ _ hends ↦ hends.subset (List.nil_subset _)

end Reading

end Parse

open Parse

section

variable {α β : Type} {source : String} {c₀ c : Cursor} {pieces : List Piece}
  {last : β → Cursor → Prop}

/-- A step that reads pieces adds them to those read so far. -/
theorem AllEndBy.read {step : Parse α} {later : α → List Piece} {next : α → Parse β}
    (h : AllEndBy source c₀ c pieces) (hstep : Reads source step later)
    (hnext : ∀ value c', AllEndBy source c₀ c' (later value ++ pieces) →
      Gives c' (next value) last) :
    Gives c (step >>= next) last :=
  (hstep c h.moves.stands).bind fun value c' hends ↦ hnext value c' (h.trans hends)

/-- The last step of a production. -/
theorem AllEndBy.andThen {step : Parse α} {later : α → List Piece} (h : AllEndBy source c₀ c pieces)
    (hstep : Reads source step later) :
    Gives c step fun value c' ↦ AllEndBy source c₀ c' (later value ++ pieces) :=
  (hstep c h.moves.stands).mono fun _ _ hends ↦ h.trans hends

theorem AllEndBy.readExpr {step : Parse Expr} {next : Expr → Parse β}
    (h : AllEndBy source c₀ c pieces) (hstep : ReadsExpr source step)
    (hnext : ∀ value c', AllEndBy source c₀ c' (.expr value :: pieces) →
      Gives c' (next value) last) :
    Gives c (step >>= next) last :=
  h.read hstep.reads hnext

/-- Going on behind a step that reads nothing that matters. -/
theorem AllEndBy.skip {step : Parse α} {next : α → Parse β} (h : AllEndBy source c₀ c pieces)
    (hstep : Reads source step fun _ ↦ [])
    (hnext : ∀ value c', AllEndBy source c₀ c' pieces → Gives c' (next value) last) :
    Gives c (step >>= next) last :=
  h.read hstep hnext

theorem AllEndBy.skipIf {condition : Prop} [Decidable condition] {step : Parse Unit}
    {next : Unit → Parse β} (h : AllEndBy source c₀ c pieces) (hstep : Reads source step fun _ ↦ [])
    (hnext : ∀ c', AllEndBy source c₀ c' pieces → Gives c' (next ()) last) :
    Gives c (if condition then step >>= next else next ()) last :=
  .optional (h.andThen hstep) h hnext

/-- Behind a body that may be empty, it is open whether the empty body is in front of the cursor. -/
theorem AllEndBy.readOrEmpty {step : Parse α} {later : α → List Piece} {next : α → Parse β}
    (h : AllEndBy source c₀ c pieces) (hstep : ReadsOrEmpty source step later)
    (hnext : ∀ value c', AllEndByOrEmpty source c₀ c' (later value ++ pieces) →
      Gives c' (next value) last) :
    Gives c (step >>= next) last :=
  (hstep c h.moves.stands).bind fun value c' horEmpty ↦ hnext value c' (h.orEmpty.trans horEmpty)

/-- Reading a token puts an empty body in front of it behind the cursor. -/
theorem AllEndByOrEmpty.advance (h : AllEndByOrEmpty source c₀ c pieces) :
    AllEndBy source c₀ c.advance (.word c.current.span :: pieces) :=
  h.allEndBy (.word h.moves.stands) (List.cons_ne_nil _ _)

theorem AllEndByOrEmpty.eat {mark : Punct} {yes no : Parse β}
    (h : AllEndByOrEmpty source c₀ c pieces)
    (hyes : AllEndBy source c₀ c.advance (.word c.current.span :: pieces) →
      Gives c.advance yes last)
    (hno : Gives c no last) :
    Gives c (eat mark >>= fun eaten ↦ if eaten = true then yes else no) last :=
  .eatIf (fun _ ↦ hyes h.advance) fun _ ↦ hno

theorem AllEndByOrEmpty.eatWord {word : Keyword} {yes no : Parse β}
    (h : AllEndByOrEmpty source c₀ c pieces)
    (hyes : c.atWord word = true → AllEndBy source c₀ c.advance (.word c.current.span :: pieces) →
      Gives c.advance yes last)
    (hno : c.atWord word = false → Gives c no last) :
    Gives c (eatWord word >>= fun eaten ↦ if eaten = true then yes else no) last :=
  .eatIf (fun hword ↦ hyes hword h.advance) hno

/-- Where something is reported, nothing is promised about what was read. -/
theorem EndsBy.of_errors {piece : Piece} {c' : Cursor} (hstart : c.front ≤ piece.span.start)
    (hsound : piece.Everywhere (Piece.Sound source)) (herrors : c'.errors ≠ []) :
    EndsBy source c piece c' :=
  ⟨⟨hstart, hsound, fun h ↦ absurd h herrors⟩, fun h ↦ absurd h herrors⟩

/-- What error recovery leaves at the current token. -/
theorem exprBetween_hole {c' : Cursor} (h : Moves source c c') (herrors : c'.errors ≠ []) :
    ExprBetween source c ⟨.error, c.current.span⟩ c' where
  allEndBy := (AllEndBy.nil h).cons
    (.of_errors (Nat.le_refl _) (h.origin.sound_current rfl trivial rfl) herrors)
  start_eq := rfl
  stop_le := Nat.le_max_right _ _

/-- What error recovery leaves of the tokens it has read. -/
theorem exprBetween_skipped {c' : Cursor} (h : Moves source c c') (herrors : c'.errors ≠ []) :
    ExprBetween source c ⟨.error, c'.spanFrom c.front⟩ c' where
  allEndBy := (AllEndBy.nil h).cons
    ((endsBy_spanFrom h fun h' ↦ absurd h' herrors).of_span_eq rfl trivial
    (.inr herrors) (List.forall_mem_nil _))
  start_eq := rfl
  stop_le := h.stop_spanFrom_le

/-- A step that fails reads nothing and reports something. -/
theorem gives_fail (hc : c.Stands source) (kind : ParseErrorKind) :
    Gives c (fail kind) fun _ c' ↦ Moves source c c' ∧ c'.errors ≠ [] :=
  .inl ⟨(), _, rfl, .report hc kind, (hc.report kind).2⟩

theorem gives_unexpected (hc : c.Stands source) (expected : String) :
    Gives c (unexpected expected) fun _ c' ↦ Moves source c c' ∧ c'.errors ≠ [] :=
  .currentKind_bind (gives_fail hc _)

theorem gives_missing (hc : c.Stands source) (expected : String) :
    Gives c (missing expected) fun _ c' ↦ Moves source c c' ∧ c'.errors ≠ [] := by
  refine .get_bind ?_
  split
  · exact gives_fail hc _
  · exact gives_unexpected hc expected

theorem reads_unexpected (expected : String) : Reads source (unexpected expected) fun _ ↦ [] :=
  fun _ hc ↦ (gives_unexpected hc expected).mono fun _ _ h ↦ .nil h.1

theorem reads_fail (kind : ParseErrorKind) : Reads source (fail kind) fun _ ↦ [] :=
  fun _ hc ↦ (gives_fail hc kind).mono fun _ _ h ↦ .nil h.1

/-- Going on behind a report. -/
theorem AllEndBy.fail {kind : ParseErrorKind} {next : Unit → Parse β}
    (h : AllEndBy source c₀ c pieces)
    (hnext : ∀ c', Moves source c₀ c' → c'.errors ≠ [] → Gives c' (next ()) last) :
    Gives c (Parse.fail kind >>= next) last :=
  (gives_fail h.moves.stands kind).bind fun _ c' hfail ↦
    hnext c' (h.moves.trans hfail.1) hfail.2

/-- A token that is missed if it does not stand here counts as read, since then nothing else is
promised. -/
theorem gives_expectIf {test : Cursor → Bool} (hc : c.Stands source) (expected : String) :
    Gives c (do if test (← get) then advance else missing expected) fun _ c' ↦
      AllEndBy source c c' [.word c.current.span] := by
  refine .get_bind ?_
  split
  · exact .inl ⟨(), c.advance, rfl, .word hc⟩
  · refine (gives_missing hc expected).mono fun _ c' hmissing ↦ ?_
    exact (AllEndBy.nil hmissing.1).cons
      (.of_errors (Nat.le_refl _) (hc.sound_current rfl trivial rfl) hmissing.2)

/-- A mark that is expected is read or its absence is reported; both settle where an empty body
ends. -/
theorem AllEndByOrEmpty.expect {mark : Punct} {expected : String} {next : Unit → Parse β}
    (h : AllEndByOrEmpty source c₀ c pieces)
    (hnext : ∀ c', AllEndBy source c₀ c' (.word c.current.span :: pieces) →
      Gives c' (next ()) last) :
    Gives c (expect mark expected >>= next) last :=
  (gives_expectIf h.moves.stands expected).bind fun _ c' hword ↦
    hnext c' (h.allEndBy hword (List.cons_ne_nil _ _))

theorem AllEndByOrEmpty.expectWord {word : Keyword} {expected : String} {next : Unit → Parse β}
    (h : AllEndByOrEmpty source c₀ c pieces)
    (hnext : ∀ c', AllEndBy source c₀ c' (.word c.current.span :: pieces) →
      Gives c' (next ()) last) :
    Gives c (expectWord word expected >>= next) last :=
  (gives_expectIf h.moves.stands expected).bind fun _ c' hword ↦
    hnext c' (h.allEndBy hword (List.cons_ne_nil _ _))

/-- The expression that was read between two cursors. -/
theorem AllEndBy.finish {node : Node} (h : AllEndBy source c₀ c pieces) (hpieces : pieces ≠ [])
    (hnode : node.isError = false) (hparts : node.pieces ⊆ pieces) :
    Gives c (Parse.finish c₀.front node) (ExprBetween source c₀) :=
  .spanFrom_bind (.pure (.build h hpieces hnode hparts))

theorem reads_advance : Reads source advance fun _ ↦ [] :=
  fun c hc ↦ .inl ⟨(), c.advance, rfl, .nil (.advance hc)⟩

/-- Reading an optional token reads no piece. -/
theorem reads_eatIf {test : Cursor → Bool} :
    Reads source (do if test (← get) then advance; return true else return false) fun _ ↦ [] := by
  refine fun c hc ↦ .get_bind ?_
  split
  · exact .advance_bind (.pure (.nil (.advance hc)))
  · exact .pure (.refl hc)

theorem reads_eat (mark : Punct) : Reads source (eat mark) fun _ ↦ [] :=
  reads_eatIf

theorem reads_eatWord (word : Keyword) : Reads source (eatWord word) fun _ ↦ [] :=
  reads_eatIf

theorem reads_skipWhile (test : TokenKind → Bool) : Reads source (skipWhile test) fun _ ↦ [] := by
  intro c hc
  refine gives_iterate (fun _ c' ↦ Moves source c c') (.refl hc) fun _ c' hmoves ↦
    .currentKind_bind ?_
  split
  · exact .advance_bind (.pure (hmoves.trans (.advance hmoves.stands)))
  · exact .pure (AllEndBy.nil hmoves)

theorem reads_skipNewlines : Reads source skipNewlines fun _ ↦ [] :=
  reads_skipWhile _

theorem reads_skipTerminators : Reads source skipTerminators fun _ ↦ [] :=
  reads_skipWhile _

theorem moves_declare (hc : c.Stands source) (name : String) : Moves source c (c.declare name) := by
  obtain ⟨scopes, h⟩ := c.declare_eq name
  rw [h]
  exact .of_eq hc rfl rfl rfl rfl rfl rfl

theorem reads_declare (name : String) : Reads source (declare name) fun _ ↦ [] :=
  fun c hc ↦ .inl ⟨(), c.declare name, rfl, .nil (moves_declare hc name)⟩

theorem reads_declareParams (params : List Param) :
    Reads source (declareParams params) fun _ ↦ [] := by
  induction params with
  | nil => exact fun c hc ↦ .pure (.refl hc)
  | cons param params ih =>
    unfold declareParams
    intro c hc
    split
    · exact (AllEndBy.refl hc).skip (reads_declare _) fun _ c' hends ↦ hends.andThen ih
    · exact ih c hc

theorem moves_popScope (hc : c.Stands source) : Moves source c c.popScope := by
  obtain ⟨scopes, h⟩ := c.popScope_eq
  rw [h]
  exact .of_eq hc rfl rfl rfl rfl rfl rfl

section Around

variable {step : Parse α} {later : α → List Piece}

/-- Scopes have nothing to do with places. -/
theorem Parse.Reads.inScope (inherits : Bool) (h : Reads source step later) :
    Reads source (inScope inherits step) later := by
  intro c hc
  have hpush : Moves source c (c.pushScope inherits) := .of_eq hc rfl rfl rfl rfl rfl rfl
  exact triple_inScope (h _ hpush.stands) fun _ _ hends ↦
    hends.keep hpush (moves_popScope hends.moves.stands)

theorem Parse.ReadsOrEmpty.inScope (inherits : Bool) (h : ReadsOrEmpty source step later) :
    ReadsOrEmpty source (inScope inherits step) later := by
  intro c hc
  have hpush : Moves source c (c.pushScope inherits) := .of_eq hc rfl rfl rfl rfl rfl rfl
  exact triple_inScope (h _ hpush.stands) fun _ _ horEmpty ↦
    horEmpty.keep hpush (moves_popScope horEmpty.moves.stands)

theorem Parse.Reads.withDo (allowed : Bool) (h : Reads source step later) :
    Reads source (withDo allowed step) later := by
  intro c hc
  have henter : Moves source c { c with allowDo := allowed } :=
    .of_eq hc rfl rfl rfl rfl rfl rfl
  exact triple_withDo (h _ henter.stands) fun _ _ hends ↦
    hends.keep henter (.of_eq hends.moves.stands rfl rfl rfl rfl rfl rfl)

theorem Parse.ReadsOrEmpty.withDo (allowed : Bool) (h : ReadsOrEmpty source step later) :
    ReadsOrEmpty source (withDo allowed step) later := by
  intro c hc
  have henter : Moves source c { c with allowDo := allowed } :=
    .of_eq hc rfl rfl rfl rfl rfl rfl
  exact triple_withDo (h _ henter.stands) fun _ _ horEmpty ↦
    horEmpty.keep henter (.of_eq horEmpty.moves.stands rfl rfl rfl rfl rfl rfl)

end Around

/-- The report that expressions are nested too deeply comes first, so that what is skipped silently
was reported. -/
theorem readsExpr_abandon : ReadsExpr source abandon := by
  refine fun c hc ↦ .currentSpan_bind ((gives_fail hc _).bind fun _ c' hfail ↦ .modify_bind ?_)
  obtain ⟨hmoves, herrors⟩ := hfail
  have hstands := hmoves.stands
  have hdeep : Moves source c { c' with tooDeep := true } :=
    ⟨hc, ⟨hstands.size_eq, hstands.ascending, hstands.covers, hstands.errors, fun _ ↦ herrors⟩,
      hmoves.errors, hmoves.back_le, hmoves.front_le, hmoves.current⟩
  refine (reads_skipWhile _ _ hdeep.stands).bind fun _ c'' hskip ↦ .pure ?_
  exact exprBetween_hole (hdeep.trans hskip.moves) fun h ↦ herrors (hskip.moves.errors h)

/-- An expression that is nested too deep is a hole at the current token. -/
theorem Parse.ReadsExpr.nested {inner : Parse Expr} (h : ReadsExpr source inner) :
    ReadsExpr source (nested inner) := by
  intro c hc
  have henter : Moves source c { c with depth := c.depth + 1 } :=
    .of_eq hc rfl rfl rfl rfl rfl rfl
  refine triple_nested (fun _ ↦ readsExpr_abandon c hc) (fun _ ↦ h _ henter.stands) ?_
  intro _ value c' hbetween
  have hleave : Moves source c' { c' with depth := c'.depth - 1 } :=
    .of_eq hbetween.allEndBy.moves.stands rfl rfl rfl rfl rfl rfl
  exact ⟨hbetween.allEndBy.keep henter hleave, hbetween.start_eq, hbetween.stop_le⟩

open Piece (ofExprs)

/-- Items behind commas join those read so far. -/
theorem AllEndBy.whileComma {item : Parse Expr} {items : List Expr}
    (h : AllEndBy source c₀ c (ofExprs items ++ pieces))
    (hitem : Reads source item fun value ↦ [.expr value]) :
    Gives c (whileComma item items) fun items' c' ↦
      AllEndBy source c₀ c' (ofExprs items' ++ pieces) := by
  refine gives_iterate (fun items' c' ↦ AllEndBy source c₀ c' (ofExprs items' ++ pieces)) h
    fun items' c' hends ↦ hends.orEmpty.eat (fun hcomma ↦ ?_) (.pure hends)
  exact hcomma.read hitem fun value c'' hvalue ↦ .pure (hvalue.subset (by grind [ofExprs]))

end

end Source

end DeclaredMethods
