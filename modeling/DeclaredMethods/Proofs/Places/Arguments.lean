import DeclaredMethods.Proofs.Places.Bodies
import DeclaredMethods.Source.Parser.Arguments
import DeclaredMethods.Source.Parser.Block

/-!
# Places of arguments, parameters and blocks

Labels give their place to several pieces: to the key of their pair, and without a value to the
variable or call they stand for. Pairs written without braces make up a hash that starts with the
first of them and ends with the last argument, also if other arguments stand between them.

Blocks and lambdas read the token that closes them, so their bodies end by the cursor behind them.
-/

namespace DeclaredMethods.Source

open Cursor (Moves Passed)
open Parse
open Piece (ofExpr? ofBody? ofExprs)

variable {source : String} {g : Grammar} {c₀ c : Cursor} (hg : g.ReadsExprs source)

section Pairs

/-- A label covers a token and the colon behind it. -/
theorem reads_label :
    Reads source label? fun label ↦ label.toList.map fun label ↦ .word label.span := by
  refine fun c hc ↦ .get_bind ?_
  split
  · refine .advance_bind (.advance_bind (.pure ?_))
    have hends := (AllEndBy.word hc).advance
    refine hends.build (List.cons_ne_nil _ _) ?_ trivial rfl (List.nil_subset _)
    have hle : c.front ≤ c.next.span.stop :=
      Nat.le_trans hc.front_le_stop (Nat.le_trans hc.stop_le_next hc.next_le)
    exact congrArg (Span.mk c.front) (Nat.max_eq_left hle).symm
  · exact .pure (.refl hc)

/-- An expression at the place of a token, with no part but that token. -/
theorem EndsBy.expr {span : Span} {node : Node} {c' : Cursor} (h : EndsBy source c (.word span) c')
    (hnode : node.isError = false) (hparts : node.pieces ⊆ [.word span]) :
    EndsBy source c (.expr ⟨node, span⟩) c' := by
  refine h.of_span_eq rfl trivial (.inl hnode) fun part hpart ↦ ?_
  rw [List.mem_singleton.1 (hparts hpart)]
  exact ⟨h, fun _ ↦ .refl _⟩

/-- The value of a label without one lies where the label does. -/
theorem gives_shorthandValue {label : Spanned String} {pieces : List Piece}
    (h : AllEndBy source c₀ c pieces) (hlabel : .word label.span ∈ pieces) :
    Gives c (shorthandValue label) fun value c' ↦
      AllEndBy source c₀ c' (.expr value :: pieces) := by
  have hword := h.endsBy _ hlabel
  refine .get_bind ?_
  split
  · exact .pure (h.cons (hword.expr rfl (List.nil_subset _)))
  · exact .pure (h.cons (hword.expr rfl (by
      grind [Node.pieces, Arguments.pieces, Arguments.none, ofExprs, ofExpr?])))

include hg

/-- A pair has no span of its own; its key and value lie in what was read. -/
theorem reads_hashEntry (closer : Option Punct) :
    Parse.Reads source ( hashEntry? g closer) fun entry ↦
      entry.toList.flatMap HashEntry.pieces := by
  intro c hc
  refine (AllEndBy.refl hc).orEmpty.eat (fun hstars ↦ ?_) ?_
  · exact hstars.readExpr hg.expr fun value c' hends ↦ .pure (hends.subset (by
      grind [HashEntry.pieces]))
  · refine (AllEndBy.refl hc).read reads_label fun label c₁ hends ↦ ?_
    split
    · exact .pure hends
    · rename_i label
      refine hends.skipIf reads_skipNewlines fun c₂ hends ↦ .get_bind ?_
      have hkey : AllEndBy source c c₂
          [.expr ⟨.literal (.symbol label.node), label.span⟩, .word label.span] :=
        hends.cons ((hends.endsBy _ List.mem_cons_self).expr rfl (List.nil_subset _))
      split
      · refine (gives_shorthandValue hkey (by simp)).bind fun value c₃ hends ↦ .pure ?_
        exact hends.subset (by grind [HashEntry.pieces])
      · refine hkey.readExpr hg.expr fun value c₃ hends ↦ .pure (hends.subset ?_)
        grind [HashEntry.pieces]

end Pairs

section Arguments

/-- The arguments read so far end by the cursor, and the pairs among them do so from where the first
of them starts. -/
structure GivenArguments.AllEndBy (source : String) (c : Cursor) (given : GivenArguments)
    (c' : Cursor) : Prop where
  values : Source.AllEndBy source c c' (ofExprs given.positional ++ ofExpr? given.blockArg)
  pairs : ∀ index start entries, given.pairs = some (index, start, entries) →
    ∃ c₁, start = c₁.front ∧ Moves source c c₁ ∧
      Source.AllEndBy source c₁ c' (entries.flatMap HashEntry.pieces) ∧ entries ≠ []

namespace GivenArguments.AllEndBy

variable {given : GivenArguments} {c' : Cursor} {pieces : List Piece}

theorem keep (h : given.AllEndBy source c₀ c) (h' : Moves source c c') :
    given.AllEndBy source c₀ c' where
  values := h.values.trans (.nil h')
  pairs index start entries hpairs := by
    obtain ⟨c₁, hstart, hmoves, hends, hentries⟩ := h.pairs index start entries hpairs
    exact ⟨c₁, hstart, hmoves, hends.trans (.nil h'), hentries⟩

theorem addPositional {value : Expr} (h : given.AllEndBy source c₀ c)
    (h' : Source.AllEndBy source c c' pieces) (hvalue : .expr value ∈ pieces) :
    (given.addPositional value).AllEndBy source c₀ c' where
  values := (h.values.trans h').subset (by grind [GivenArguments.addPositional, ofExprs])
  pairs := (h.keep h'.moves).pairs

theorem setBlockArg {value : Expr} (h : given.AllEndBy source c₀ c)
    (h' : Source.AllEndBy source c c' pieces) (hvalue : .expr value ∈ pieces) :
    GivenArguments.AllEndBy source c₀ { given with blockArg := some value } c' where
  values := (h.values.trans h').subset (by grind [ofExpr?])
  pairs := (h.keep h'.moves).pairs

/-- The span of the hash starts where its first pair was read. -/
theorem addEntry {entry : HashEntry} (h : given.AllEndBy source c₀ c)
    (h' : Source.AllEndBy source c c' pieces) (hentry : entry.pieces ⊆ pieces) :
    (given.addEntry c.front entry).AllEndBy source c₀ c' := by
  unfold GivenArguments.addEntry
  split
  · rename_i index first entries hpairs
    refine ⟨(h.keep h'.moves).values, fun index' start entries' hpairs' ↦ ?_⟩
    cases hpairs'
    obtain ⟨c₁, hstart, hmoves, hends, -⟩ := h.pairs _ _ _ hpairs
    exact ⟨c₁, hstart, hmoves, (hends.trans h').subset (by grind), by simp⟩
  · refine ⟨(h.keep h'.moves).values, fun index start entries hpairs ↦ ?_⟩
    cases hpairs
    exact ⟨c, rfl, h.values.moves, h'.subset (by grind), List.cons_ne_nil _ _⟩

end GivenArguments.AllEndBy

theorem HashEntry.pieces_ne_nil (entry : HashEntry) : entry.pieces ≠ [] := by
  cases entry with
  | pair key value => exact List.cons_ne_nil _ _
  | doubleSplat value => exact List.cons_ne_nil _ _

/-- The hash of the pairs stands among the other arguments, where the first pair stands. -/
theorem gives_close {given : GivenArguments} (h : given.AllEndBy source c₀ c)
    (parenthesized : Bool) :
    Gives c (given.close parenthesized) fun args c' ↦ AllEndBy source c₀ c' args.pieces := by
  unfold GivenArguments.close
  split
  · rename_i index start entries hpairs
    obtain ⟨c₁, rfl, hmoves, hends, hentries⟩ := h.pairs _ _ _ hpairs
    have hne : entries.flatMap HashEntry.pieces ≠ [] := by
      obtain ⟨entry, hentry⟩ := List.exists_mem_of_ne_nil _ hentries
      obtain ⟨piece, hpiece⟩ := List.exists_mem_of_ne_nil _ entry.pieces_ne_nil
      exact List.ne_nil_of_mem (List.mem_flatMap.2 ⟨entry, hentry, hpiece⟩)
    have hhash : ExprBetween source c₁ ⟨.hash entries, c.spanFrom c₁.front⟩ c :=
      .build hends hne rfl (List.Subset.refl _)
    have hall := h.values.cons (hhash.endsBy.keep hmoves (.refl h.values.moves.stands))
    refine .finish_bind (.pure (hall.subset ?_))
    grind [Arguments.pieces, ofExprs, List.mem_of_mem_take, List.mem_of_mem_drop]
  · exact .pure h.values

include hg

/-- An argument is added to those read so far, all of which end by the cursor. -/
theorem gives_argument (closer : Option Punct) {given : GivenArguments}
    (h : given.AllEndBy source c₀ c) :
    Gives c (argument g closer given) fun given' c' ↦ given'.AllEndBy source c₀ c' := by
  have hc := h.values.moves.stands
  refine .currentStart_bind ((AllEndBy.refl hc).orEmpty.eat (fun hamp ↦ ?_) ?_)
  · exact hamp.readExpr hg.unary fun value c' hends ↦ .pure (h.setBlockArg hends List.mem_cons_self)
  · refine (AllEndBy.refl hc).read (reads_hashEntry hg closer) fun entry c₁ hends ↦ ?_
    split
    · exact .pure (h.addEntry hends (by grind))
    · refine hends.readExpr hg.expr fun value c₂ hends ↦ hends.orEmpty.eat (fun harrow ↦ ?_) ?_
      · refine harrow.skip reads_skipNewlines fun _ c₃ hends ↦ ?_
        refine hends.readExpr hg.expr fun second c₄ hends ↦ .pure (h.addEntry hends ?_)
        grind [HashEntry.pieces]
      · exact .pure (h.addPositional hends List.mem_cons_self)

/-- By induction over the rounds of the list: every argument ends by the cursor behind it. -/
theorem reads_argumentList (closer : Option Punct) :
    Reads source (argumentList g closer) Arguments.pieces := by
  intro c hc
  have hnone : GivenArguments.AllEndBy source c {} c := ⟨.refl hc, fun _ _ _ h ↦ by cases h⟩
  refine (gives_iterate (fun given c' ↦ given.AllEndBy source c c') hnone
    fun given c₁ hgiven ↦ ?_).bind
    fun given c' (hgiven : given.AllEndBy source c c') ↦ gives_close hgiven _
  refine (AllEndBy.refl hgiven.values.moves.stands).skipIf reads_skipNewlines fun c₂ hskip ↦
    .get_bind ?_
  have hgiven := hgiven.keep hskip.moves
  split
  · exact .pure hgiven
  · refine (gives_argument hg closer hgiven).bind fun given' c₃ hgiven ↦ ?_
    have hstands := hgiven.values.moves.stands
    refine (AllEndBy.refl hstands).orEmpty.eat (fun hcomma ↦ ?_) (.pure hgiven)
    exact hcomma.skip reads_skipNewlines fun _ c₄ hskip ↦ .pure (hgiven.keep hskip.moves)

theorem reads_commandArguments : Reads source (commandArguments g) Arguments.pieces :=
  (reads_argumentList hg none).withDo false

theorem reads_enclosedArguments (closer : Punct) (expected : String) :
    Reads source (enclosedArguments g closer expected) Arguments.pieces := by
  intro c hc
  refine (AllEndBy.refl hc).read ((reads_argumentList hg (some closer)).withDo true)
    fun args c₁ hends ↦ ?_
  refine hends.skip reads_skipNewlines fun _ c₂ hends ↦ hends.orEmpty.expect fun c₃ hends ↦ .pure ?_
  exact hends.subset (by grind)

theorem reads_literalEntry : Reads source (literalEntry g) HashEntry.pieces := by
  intro c hc
  refine (AllEndBy.refl hc).read (reads_hashEntry hg _) fun entry c₁ hends ↦ ?_
  split
  · exact .pure (hends.subset (by grind))
  · refine hends.readExpr hg.expr fun key c₂ hends ↦ ?_
    refine hends.skip reads_skipNewlines fun _ c₃ hends ↦ hends.orEmpty.expect fun c₄ hends ↦ ?_
    refine hends.skip reads_skipNewlines fun _ c₅ hends ↦ ?_
    exact hends.readExpr hg.expr fun value c₆ hends ↦
      .pure (hends.subset (by grind [HashEntry.pieces]))

theorem reads_hashLiteral : Reads source (hashLiteral g) (·.flatMap HashEntry.pieces) := by
  intro c hc
  refine (AllEndBy.refl hc).read (Parse.Reads.withDo true fun c hc ↦ ?_)
    fun entries c₁ (hends : AllEndBy source c c₁ (entries.flatMap HashEntry.pieces ++ [])) ↦ ?_
  · refine gives_iterate (fun entries c' ↦ AllEndBy source c c' (entries.flatMap HashEntry.pieces))
      (.refl hc) fun entries c₁ hends ↦ ?_
    refine hends.skip reads_skipNewlines fun _ c₂ hends ↦ .get_bind ?_
    dsimp only
    split
    · exact .pure hends
    · refine hends.read (reads_literalEntry hg) fun entry c₃ hends ↦ ?_
      refine hends.skip reads_skipNewlines fun _ c₄ hends ↦ ?_
      have hmore : AllEndBy source c c₄ ((entries ++ [entry]).flatMap HashEntry.pieces) :=
        hends.subset (by grind)
      exact hmore.orEmpty.eat (fun hcomma ↦ .pure (hcomma.subset (List.subset_cons_self _ _)))
        (.pure hmore)
  · refine hends.skip reads_skipNewlines fun _ c₂ hends ↦
      hends.orEmpty.expect fun c₃ hends ↦ .pure ?_
    exact hends.subset (by grind)

end Arguments

section Parameters

theorem reads_paramName : Reads source paramName? fun _ ↦ [] := by
  refine fun c hc ↦ .currentKind_bind ?_
  split
  · exact .advance_bind (.pure ((AllEndBy.word hc).subset (List.nil_subset _)))
  · exact .pure (.refl hc)

include hg

theorem reads_keywordDefault (closer : Option Punct) :
    Reads source (keywordDefault g closer) ofExpr? := by
  refine fun c hc ↦ .get_bind ?_
  split
  · exact .pure (.refl hc)
  · exact (AllEndBy.refl hc).readExpr (hg.binary _) fun value c' hends ↦ .pure hends

/-- A parameter with a name reads at least the name. -/
theorem gives_namedParam (closer : Option Punct) (hc : c.Stands source) :
    Gives c (namedParam g closer) fun value c' ↦
      AllEndBy source c c' (ofExpr? value.2 ++ [.word c.current.span]) := by
  have hname := AllEndBy.word hc
  refine .get_bind ?_
  split
  · refine .advance_bind (.advance_bind ?_)
    refine hname.advance.read (reads_keywordDefault hg closer) fun default c' hends ↦ .pure ?_
    exact hends.subset (by grind)
  · refine .advance_bind (hname.orEmpty.eat (fun hassign ↦ ?_) (.pure hname))
    exact hassign.readExpr (hg.binary _) fun value c' hends ↦
      .pure (hends.subset (by grind [ofExpr?]))

/-- A parameter covers its default value. -/
theorem reads_param (closer : Option Punct) {destructured : Parse (List Param)}
    (h : Reads source destructured fun params ↦ params.map .param) :
    Reads source (param? g closer destructured) fun param ↦ param.toList.map .param := by
  refine fun c hc ↦ .currentStart_bind ?_
  have hfirst := AllEndBy.word hc
  refine Triple.bind (.currentKind_bind ?_) fun parts c' (hparts : AllEndBy source c c'
    (parts.elim [] fun parts ↦ ofExpr? parts.2.2 ++ [.word c.current.span])) ↦ ?_
  · split
    case h_4 => exact .advance_bind (.pure hfirst)
    case h_5 name hkind => exact (gives_namedParam hg closer hc).bind fun _ _ hends ↦ .pure hends
    case h_6 =>
      refine .advance_bind (hfirst.skip h.forget fun inner c' hends ↦ ?_)
      refine hends.orEmpty.expect fun c'' hends ↦ ?_
      refine hends.skip (reads_declareParams inner) fun _ c₃ hends ↦ .pure (hends.subset ?_)
      exact List.subset_cons_self _ _
    case h_7 => exact (AllEndBy.refl hc).skip (reads_unexpected _) fun _ _ hends ↦ .pure hends
    -- A mark and the name behind it.
    all_goals
      exact .advance_bind (hfirst.skip reads_paramName fun _ _ hends ↦ .pure hends)
  · split
    · exact .spanFrom_bind (.pure (hparts.build (by simp) rfl trivial rfl
        (List.subset_append_left _ _)))
    · exact .pure hparts

/-- By induction on the bound, which counts down where parameters are taken apart. -/
theorem reads_paramListUpTo (bound : Nat) (closer : Option Punct) :
    Reads source (paramListUpTo g bound closer) fun params ↦ params.map .param := by
  induction bound generalizing closer with
  | zero => exact fun c hc ↦ triple_failure
  | succ bound ih =>
    intro c hc
    refine gives_iterate (fun params c' ↦ AllEndBy source c c' (params.map .param)) (.refl hc)
      fun params c₁ hends ↦ ?_
    refine hends.skipIf reads_skipNewlines fun c₂ hends ↦ .get_bind ?_
    split
    · exact .pure hends
    · refine hends.read (reads_param hg closer (ih _)) fun param c₃ hends ↦ ?_
      split
      · exact .pure hends
      · rename_i param
        have hmore : AllEndBy source c c₃ ((params ++ [param]).map .param) :=
          hends.subset (by grind)
        exact hmore.orEmpty.eat (fun hcomma ↦ .pure (hcomma.subset (List.subset_cons_self _ _)))
          (.pure hmore)

theorem reads_paramList (closer : Option Punct) :
    Reads source (paramList g closer) fun params ↦ params.map .param :=
  fun c hc ↦ .get_bind (reads_paramListUpTo hg _ closer c hc)

/-- Parameters between an opening token, which has been read, and a closing mark. -/
theorem AllEndBy.enclosedParams {mark : Punct} {expected : String}
    {pieces : List Piece} (h : AllEndBy source c₀ c pieces) :
    Gives c (do
      let params ← paramList g (some mark)
      expect mark expected
      return params) fun params c' ↦ AllEndBy source c₀ c' (params.map .param) := by
  refine h.read (reads_paramList hg _) fun params c₁ hends ↦ hends.orEmpty.expect fun c₂ hends ↦ ?_
  exact .pure (hends.subset (by grind))

end Parameters

section Blocks

include hg

theorem reads_blockParams : Reads source (blockParams g) fun params ↦ params.map .param := by
  intro c hc
  refine (AllEndBy.refl hc).orEmpty.eat (fun hbars ↦ .pure (hbars.subset (List.nil_subset _))) ?_
  refine (AllEndBy.refl hc).orEmpty.eat (fun hbar ↦ ?_) (.pure (.refl hc))
  refine hbar.read (reads_paramList hg _) fun params c₁ hends ↦
    hends.orEmpty.expect fun c₂ hends ↦ ?_
  exact hends.skip (reads_declareParams params) fun _ c₃ hends ↦ .pure (hends.subset (by grind))

/-- A block between an opening token and whatever closes it. -/
theorem reads_block {inner : Parse Body} {close : Parse Unit}
    (hinner : ReadsOrEmpty source inner fun value ↦ [.body value])
    (hclose : ∀ c : Cursor, c.Stands source →
      Gives c close fun _ c' ↦ AllEndBy source c c' [.word c.current.span]) :
    Reads source (do
      let start ← currentStart
      advance
      let (params, inner) ← inScope true (do
        let params ← blockParams g
        let inner ← withDo true inner
        close
        return (params, inner))
      return (⟨params, inner, ← spanFrom start⟩ : Block)) fun value ↦ [.block value] := by
  refine fun c hc ↦ .currentStart_bind (.advance_bind ?_)
  refine (AllEndBy.word hc).read (Parse.Reads.inScope true fun c hc ↦ ?_) fun value c₁
    (hends : AllEndBy source c c₁ ((value.1.map .param ++ [.body value.2]) ++ _)) ↦ ?_
  · refine (AllEndBy.refl hc).read (reads_blockParams hg) fun params c₁ hends ↦ ?_
    refine hends.readOrEmpty (hinner.withDo true) fun inner c₂ horEmpty ↦ ?_
    refine (hclose c₂ horEmpty.moves.stands).bind fun _ c₃ hword ↦ .pure ?_
    exact (horEmpty.allEndBy hword (List.cons_ne_nil _ _)).subset (by grind)
  · exact .spanFrom_bind (.pure (hends.build (by simp) rfl trivial rfl
      (List.subset_append_left _ _)))

theorem reads_braceBlock : Reads source (braceBlock g) fun value ↦ [.block value] :=
  reads_block hg (readsOrEmpty_body hg _) fun _ hc ↦ gives_expectIf hc _

theorem reads_doBlock : Reads source (doBlock g) fun value ↦ [.block value] :=
  reads_block hg (readsOrEmpty_rescuedBody hg) fun _ hc ↦ gives_expectIf hc _

theorem reads_lambdaParams : Reads source (lambdaParams g) fun params ↦ params.map .param := by
  intro c hc
  refine (AllEndBy.refl hc).orEmpty.eat (fun hparen ↦ hparen.enclosedParams hg)
    (.currentKind_bind ?_)
  split
  · exact reads_paramList hg none c hc
  · exact .pure (.refl hc)

theorem reads_lambdaBody : Reads source (lambdaBody g) fun value ↦ [.body value] := by
  intro c hc
  refine (AllEndBy.refl hc).orEmpty.eat (fun hbrace ↦ ?_) ?_
  · refine hbrace.readOrEmpty ((readsOrEmpty_body hg _).withDo true) fun inner c₁ horEmpty ↦ ?_
    exact horEmpty.expect fun c₂ hends ↦ .pure (hends.subset (by grind))
  refine (AllEndBy.refl hc).orEmpty.eatWord (fun _ hdo ↦ ?_) fun _ ↦ ?_
  · refine hdo.readOrEmpty ((readsOrEmpty_rescuedBody hg).withDo true) fun inner c₁ horEmpty ↦ ?_
    exact horEmpty.expectWord fun c₂ hends ↦ .pure (hends.subset (by grind))
  · refine (gives_unexpected hc _).bind fun _ c₁ hfail ↦ .currentSpan_bind (.pure ?_)
    obtain ⟨hmoves, herrors⟩ := hfail
    exact (AllEndBy.nil hmoves).cons
      (.of_errors hmoves.front_le (hmoves.stands.sound_current rfl .nil rfl) herrors)

/-- A block spans from the arrow of its lambda to its end. -/
theorem gives_lambda {pieces : List Piece}
    (h : AllEndBy source c₀ c pieces) (hpieces : pieces ≠ []) :
    Gives c (lambda g c₀.front) fun value c' ↦ AllEndBy source c₀ c' [.block value] := by
  refine h.read (Parse.Reads.inScope true fun c hc ↦ ?_) fun value c₁
    (hends : AllEndBy source c₀ c₁ ((value.1.map .param ++ [.body value.2]) ++ pieces)) ↦ ?_
  · refine (AllEndBy.refl hc).read (reads_lambdaParams hg) fun params c₁ hends ↦ ?_
    refine hends.skip (reads_declareParams params) fun _ c₂ hends ↦ ?_
    exact hends.read (reads_lambdaBody hg) fun inner c₃ hends ↦ .pure (hends.subset (by grind))
  · refine .spanFrom_bind (.pure (hends.build ?_ rfl trivial rfl (List.subset_append_left _ _)))
    exact List.append_ne_nil_of_right_ne_nil _ hpieces

end Blocks

end DeclaredMethods.Source
