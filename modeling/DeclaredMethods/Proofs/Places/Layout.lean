import DeclaredMethods.Proofs.Places.Standing
import DeclaredMethods.Proofs.Tree.Pieces

/-!
# How the pieces of a tree lie in a source

A piece is sound if its span is a range of the source and the statements of a body follow each
other. All pieces that are read without an error cover their parts but one kind: the clauses behind
a body that may be rescued and those behind `elsif` share the `end` of the construct around them. If
the last of them is empty, its body dangles behind its node, in front of that `end`.

Between two cursors, pieces end by the second cursor if it has read all of them. The body read last
may instead be empty and stand right in front of the current token; once that token is read it ends
by the cursor too.
-/

namespace DeclaredMethods.Source

/-- Whether an expression has clauses that may share the `end` of the construct around them. -/
def Node.isClausal : Node → Bool
  | begin_ .. | if_ .. => .true
  | _ => .false

/-- Whether an expression is what error recovery skipped. -/
def Node.isError : Node → Bool
  | error => .true
  | _ => .false

theorem isError_of_isClausal {node : Node} (h : node.isClausal = true) :
    node.isError = false := by
  cases node with
  | error => cases h
  | _ => rfl

namespace Piece

def Ordered : Piece → Prop
  | body value => value.statements.Pairwise fun first second ↦ first.span.stop ≤ second.span.start
  | _ => True

/-- Whether a piece is what error recovery skipped. -/
def isHole : Piece → Bool
  | expr value => value.node.isError
  | _ => false

/-- The span of a piece is a range of the source, and the statements of a body are in order. -/
structure Sound (source : String) (piece : Piece) : Prop where
  start_le : piece.span.start ≤ piece.span.stop
  stop_le : piece.span.stop ≤ Text.byteLength source.toList
  ordered : piece.Ordered

/-- The direct parts of a piece lie in its span; nothing is said about the parts of those. -/
def CoversParts (whole : Piece) : Prop :=
  ∀ part ∈ whole.parts, whole.span.Encloses part.span

/-- An empty body of no width. -/
def emptyAt (place : Nat) : Piece :=
  .body ⟨[], ⟨place, place⟩⟩

/-- An empty body stands behind a piece, with no token in between. -/
def Dangles (source : String) (whole part : Piece) : Prop :=
  ∃ place, part = emptyAt place ∧ whole.span.stop ≤ place ∧
    ∀ token ∈ tokens source, token.span.stop ≤ whole.span.stop ∨ place ≤ token.span.start

/-- An expression with clauses is all of a body and covers its parts but for a dangling one. -/
def CoversUpToDangling (source : String) (outer piece : Piece) : Prop :=
  ∃ value : Expr, outer = .body (.single value) ∧ piece = .expr value ∧
    value.node.isClausal = true ∧
    ∀ part ∈ piece.parts, piece.span.Encloses part.span ∨ piece.Dangles source part

/-- A piece is no hole, and its parts cover their own parts, but for a dangling one. -/
structure PartsCover (source : String) (piece : Piece) : Prop where
  not_hole : piece.isHole = false
  parts : ∀ part ∈ piece.parts, part.CoversParts ∨ CoversUpToDangling source piece part

/-- A piece covers its parts, and so does every piece in it, but for dangling ones. -/
structure WellNested (source : String) (piece : Piece) : Prop where
  covers : piece.CoversParts
  everywhere : piece.Everywhere (PartsCover source)

/-- A piece is well nested if it covers its parts and they are well nested. -/
theorem wellNested_of_parts {source : String} {whole : Piece} (hhole : whole.isHole = false)
    (hparts : ∀ part ∈ whole.parts, whole.span.Encloses part.span ∧ part.WellNested source) :
    whole.WellNested source where
  covers part hpart := (hparts part hpart).1
  everywhere := everywhere_iff.2 ⟨⟨hhole, fun part hpart ↦ .inl (hparts part hpart).2.covers⟩,
    fun part hpart ↦ (hparts part hpart).2.everywhere⟩

/-- A body that is nothing but an expression with clauses is well nested, although the expression
may not cover its last clause. -/
theorem wellNested_single {source : String} {value : Expr} (hclausal : value.node.isClausal = true)
    (hparts : ∀ part ∈ (expr value).parts, part.WellNested source ∧
      (value.span.Encloses part.span ∨ (expr value).Dangles source part)) :
    (body (.single value)).WellNested source := by
  have hhole : (expr value).isHole = false := isError_of_isClausal hclausal
  have hdangling : CoversUpToDangling source (body (.single value)) (expr value) :=
    ⟨value, rfl, rfl, hclausal, fun part hpart ↦ (hparts part hpart).2⟩
  have hexpr : (expr value).Everywhere (PartsCover source) :=
    everywhere_iff.2 ⟨⟨hhole, fun part hpart ↦ .inl (hparts part hpart).1.covers⟩,
      fun part hpart ↦ (hparts part hpart).1.everywhere⟩
  have honly : ∀ part ∈ (body (.single value)).parts, part = expr value :=
    fun part hpart ↦ List.mem_singleton.1 hpart
  refine ⟨fun part hpart ↦ ?_, everywhere_iff.2 ⟨⟨rfl, fun part hpart ↦ ?_⟩, fun part hpart ↦ ?_⟩⟩
  · rw [honly part hpart]
    exact .refl _
  · rw [honly part hpart]
    exact .inr hdangling
  · rw [honly part hpart]
    exact hexpr

end Piece

open Cursor (Stands Moves Passed)

/-- A piece without parts at the place of the current token. -/
theorem Cursor.Stands.sound_current {source : String} {c : Cursor} {piece : Piece}
    (h : c.Stands source) (hspan : piece.span = c.current.span) (hordered : piece.Ordered)
    (hparts : piece.parts = []) : piece.Everywhere (Piece.Sound source) := by
  refine Piece.everywhere_iff.2 ⟨⟨?_, ?_, hordered⟩, by simp [hparts]⟩
  · rw [hspan]
    exact h.front_le_stop
  · rw [hspan]
    exact h.stop_le_size

/-- A piece starts behind a cursor, it is sound, and well nested if the cursor behind it has nothing
to report. -/
structure SoundFrom (source : String) (c : Cursor) (piece : Piece) (c' : Cursor) : Prop where
  start_le : c.front ≤ piece.span.start
  sound : piece.Everywhere (Piece.Sound source)
  wellNested : c'.errors = [] → piece.WellNested source

/-- If nothing is reported, a piece behind the first cursor ends by the second one, unless it is an
empty body in front of the current token. -/
structure EndsByOrEmpty (source : String) (c : Cursor) (piece : Piece) (c' : Cursor) : Prop
    extends SoundFrom source c piece c' where
  stop_le : c'.errors = [] → piece.span.stop ≤ c'.back ∨ piece = .emptyAt c'.front

/-- If nothing is reported, a piece behind the first cursor ends by the second one. -/
structure EndsBy (source : String) (c : Cursor) (piece : Piece) (c' : Cursor) : Prop
    extends SoundFrom source c piece c' where
  stop_le : c'.errors = [] → piece.span.stop ≤ c'.back

section

variable {source : String} {b c c' c'' : Cursor} {piece whole : Piece}

theorem EndsBy.orEmpty (h : EndsBy source c piece c') : EndsByOrEmpty source c piece c' :=
  ⟨h.toSoundFrom, fun herrors ↦ .inl (h.stop_le herrors)⟩

theorem SoundFrom.keep (h : SoundFrom source c piece c') (hbefore : Moves source b c)
    (hbehind : Moves source c' c'') : SoundFrom source b piece c'' where
  start_le := Nat.le_trans hbefore.front_le h.start_le
  sound := h.sound
  wellNested herrors := h.wellNested (hbehind.errors herrors)

/-- A piece between two cursors lies between cursors further apart. -/
theorem EndsBy.keep (h : EndsBy source c piece c') (hbefore : Moves source b c)
    (hbehind : Moves source c' c'') : EndsBy source b piece c'' where
  toSoundFrom := h.toSoundFrom.keep hbefore hbehind
  stop_le herrors := Nat.le_trans (h.stop_le (hbehind.errors herrors)) hbehind.back_le

/-- An empty body in front of the current token ends by the cursor that has passed this token. -/
theorem EndsByOrEmpty.endsBy (h : EndsByOrEmpty source c piece c') (hbefore : Moves source b c)
    (hbehind : Moves source c' c'') (hpassed : c''.errors = [] → c'.Passed c'') :
    EndsBy source b piece c'' where
  toSoundFrom := h.toSoundFrom.keep hbefore hbehind
  stop_le herrors := by
    rcases h.stop_le (hbehind.errors herrors) with hstop | rfl
    · exact Nat.le_trans hstop hbehind.back_le
    · exact hpassed herrors

theorem EndsByOrEmpty.keep (h : EndsByOrEmpty source c piece c') (hbefore : Moves source b c)
    (hbehind : Moves source c' c'') : EndsByOrEmpty source b piece c'' := by
  by_cases hpassed : c'.Passed c''
  · exact (h.endsBy hbefore hbehind fun _ ↦ hpassed).orEmpty
  · refine ⟨h.toSoundFrom.keep hbefore hbehind, fun herrors ↦ ?_⟩
    rw [Cursor.front, hbehind.current_eq hpassed]
    exact (h.stop_le (hbehind.errors herrors)).imp_left
      fun hstop ↦ Nat.le_trans hstop hbehind.back_le

/-- A piece at the same place as another one, with parts that it covers. -/
theorem EndsBy.of_span_eq (h : EndsBy source c piece c') (hspan : whole.span = piece.span)
    (hordered : whole.Ordered) (hhole : whole.isHole = false ∨ c'.errors ≠ [])
    (hparts : ∀ part ∈ whole.parts, EndsBy source c part c' ∧
      (c'.errors = [] → whole.span.Encloses part.span)) : EndsBy source c whole c' where
  start_le := hspan ▸ h.start_le
  sound := by
    have hsound := h.sound piece .self
    refine Piece.everywhere_iff.2 ⟨⟨?_, ?_, hordered⟩, fun part hpart ↦ (hparts part hpart).1.sound⟩
    · rw [hspan]
      exact hsound.start_le
    · rw [hspan]
      exact hsound.stop_le
  wellNested herrors := Piece.wellNested_of_parts (hhole.resolve_right (absurd herrors))
    fun part hpart ↦ ⟨(hparts part hpart).2 herrors, (hparts part hpart).1.wellNested herrors⟩
  stop_le herrors := hspan ▸ h.stop_le herrors

/-- Where nothing was reported, the range between two cursors ends by the second one if it has
passed the current token of the first. -/
theorem endsBy_spanFrom (h : Moves source c c') (hpassed : c'.errors = [] → c.Passed c') :
    EndsBy source c (.word (c'.spanFrom c.front)) c' where
  start_le := Nat.le_refl _
  sound := Piece.everywhere_iff.2 ⟨⟨Nat.le_max_right _ _, h.stop_spanFrom_le_size, trivial⟩,
    List.forall_mem_nil _⟩
  wellNested _ := Piece.wellNested_of_parts rfl (List.forall_mem_nil _)
  stop_le herrors := Nat.max_le.2 ⟨Nat.le_refl _, hpassed herrors⟩

/-- What covers everything that was read between two cursors covers every piece that ends by the
second one. -/
theorem EndsBy.encloses (h : EndsBy source c piece c') (herrors : c'.errors = []) :
    (c'.spanFrom c.front).Encloses piece.span :=
  ⟨h.start_le, Nat.le_trans (h.stop_le herrors) (Nat.le_max_left _ _)⟩

/-- A piece that ends by a cursor has been read by it. -/
theorem EndsBy.passed (h : EndsBy source c piece c') (herrors : c'.errors = []) : c.Passed c' :=
  Nat.le_trans h.start_le (Nat.le_trans (h.sound piece .self).start_le (h.stop_le herrors))

end

/-- All pieces behind the first cursor end by the second one. -/
structure AllEndBy (source : String) (c c' : Cursor) (pieces : List Piece) : Prop where
  moves : Moves source c c'
  endsBy : ∀ piece ∈ pieces, EndsBy source c piece c'

/-- All pieces behind the first cursor end by the second one or are empty bodies in front of its
current token. -/
structure AllEndByOrEmpty (source : String) (c c' : Cursor) (pieces : List Piece) : Prop where
  moves : Moves source c c'
  endsByOrEmpty : ∀ piece ∈ pieces, EndsByOrEmpty source c piece c'

section

variable {source : String} {c c' c'' : Cursor} {pieces later : List Piece}

/-- An empty body in front of a token stays there until the token is read. -/
theorem AllEndByOrEmpty.trans (h : AllEndByOrEmpty source c c' pieces)
    (h' : AllEndByOrEmpty source c' c'' later) :
    AllEndByOrEmpty source c c'' (later ++ pieces) where
  moves := h.moves.trans h'.moves
  endsByOrEmpty piece hpiece := by
    rcases List.mem_append.1 hpiece with hpiece | hpiece
    · exact (h'.endsByOrEmpty piece hpiece).keep h.moves (.refl h'.moves.stands)
    · exact (h.endsByOrEmpty piece hpiece).keep (.refl h.moves.origin) h'.moves

theorem AllEndByOrEmpty.keep {b : Cursor} (h : AllEndByOrEmpty source c c' pieces)
    (hbefore : Moves source b c) (hbehind : Moves source c' c'') :
    AllEndByOrEmpty source b c'' pieces :=
  ⟨(hbefore.trans h.moves).trans hbehind, fun piece hpiece ↦
    (h.endsByOrEmpty piece hpiece).keep hbefore hbehind⟩

theorem AllEndByOrEmpty.subset (h : AllEndByOrEmpty source c c' pieces) (hsubset : later ⊆ pieces) :
    AllEndByOrEmpty source c c' later :=
  ⟨h.moves, fun piece hpiece ↦ h.endsByOrEmpty piece (hsubset hpiece)⟩

/-- A token is no empty body, so it has been read. -/
theorem AllEndByOrEmpty.passed_of_word {span : Span} (h : AllEndByOrEmpty source c c' pieces)
    (hword : .word span ∈ pieces) (herrors : c'.errors = []) : c.Passed c' := by
  have horEmpty := h.endsByOrEmpty _ hword
  rcases horEmpty.stop_le herrors with hstop | hempty
  · exact Nat.le_trans horEmpty.start_le (Nat.le_trans (horEmpty.sound _ .self).start_le hstop)
  · cases hempty

namespace AllEndBy

theorem orEmpty (h : AllEndBy source c c' pieces) : AllEndByOrEmpty source c c' pieces :=
  ⟨h.moves, fun piece hpiece ↦ (h.endsBy piece hpiece).orEmpty⟩

theorem nil (h : Moves source c c') : AllEndBy source c c' [] :=
  ⟨h, List.forall_mem_nil _⟩

theorem refl (h : c.Stands source) : AllEndBy source c c [] :=
  .nil (.refl h)

/-- Pieces read one after another end by the last cursor. -/
theorem trans (h : AllEndBy source c c' pieces) (h' : AllEndBy source c' c'' later) :
    AllEndBy source c c'' (later ++ pieces) where
  moves := h.moves.trans h'.moves
  endsBy piece hpiece := by
    rcases List.mem_append.1 hpiece with hpiece | hpiece
    · exact (h'.endsBy piece hpiece).keep h.moves (.refl h'.moves.stands)
    · exact (h.endsBy piece hpiece).keep (.refl h.moves.origin) h'.moves

theorem keep {b : Cursor} (h : AllEndBy source c c' pieces) (hbefore : Moves source b c)
    (hbehind : Moves source c' c'') : AllEndBy source b c'' pieces :=
  ⟨(hbefore.trans h.moves).trans hbehind, fun piece hpiece ↦
    (h.endsBy piece hpiece).keep hbefore hbehind⟩

/-- Pieces that are not kept may be forgotten. -/
theorem subset (h : AllEndBy source c c' pieces) (hsubset : later ⊆ pieces) :
    AllEndBy source c c' later :=
  ⟨h.moves, fun piece hpiece ↦ h.endsBy piece (hsubset hpiece)⟩

/-- A piece made of those read so far joins them. -/
theorem cons {piece : Piece} (h : AllEndBy source c c' pieces) (hpiece : EndsBy source c piece c') :
    AllEndBy source c c' (piece :: pieces) :=
  ⟨h.moves, List.forall_mem_cons.2 ⟨hpiece, h.endsBy⟩⟩

/-- With something read the current token has been passed. -/
theorem passed (h : AllEndBy source c c' pieces) (hpieces : pieces ≠ [])
    (herrors : c'.errors = []) :
    c.Passed c' := by
  obtain ⟨piece, hpiece⟩ := List.exists_mem_of_ne_nil _ hpieces
  exact (h.endsBy piece hpiece).passed herrors

/-- The current token, once it is read. -/
theorem word (h : c.Stands source) : AllEndBy source c c.advance [.word c.current.span] :=
  (nil (.advance h)).cons ⟨⟨Nat.le_refl _, h.sound_current rfl trivial rfl,
    fun _ ↦ Piece.wellNested_of_parts rfl (List.forall_mem_nil _)⟩, fun _ ↦ Nat.le_refl _⟩

/-- A token that is read is a piece of its own. -/
theorem advance (h : AllEndBy source c c' pieces) :
    AllEndBy source c c'.advance (.word c'.current.span :: pieces) :=
  h.trans (word h.moves.stands)

/-- A piece that covers everything that was read between two cursors. -/
theorem build {whole : Piece} (h : AllEndBy source c c' pieces) (hpieces : pieces ≠ [])
    (hspan : whole.span = c'.spanFrom c.front) (hordered : whole.Ordered)
    (hhole : whole.isHole = false) (hparts : whole.parts ⊆ pieces) :
    AllEndBy source c c' [whole] := by
  refine (nil h.moves).cons ((endsBy_spanFrom h.moves (h.passed hpieces)).of_span_eq hspan hordered
    (.inl hhole) fun part hpart ↦ ?_)
  have hendsBy := h.endsBy part (hparts hpart)
  refine ⟨hendsBy, fun herrors ↦ ?_⟩
  rw [hspan]
  exact hendsBy.encloses herrors

/-- A name that is everything that was read between two cursors. -/
theorem name (h : AllEndBy source c c' pieces) (hpieces : pieces ≠ []) :
    AllEndBy source c c' [.word (c'.spanFrom c.front)] :=
  h.build hpieces rfl trivial rfl (List.nil_subset _)

end AllEndBy

/-- Whatever is read next passes the current token, with an empty body in front of it. -/
theorem AllEndByOrEmpty.allEndBy (h : AllEndByOrEmpty source c c' pieces)
    (h' : AllEndBy source c' c'' later) (hlater : later ≠ []) :
    AllEndBy source c c'' (later ++ pieces) where
  moves := h.moves.trans h'.moves
  endsBy piece hpiece := by
    rcases List.mem_append.1 hpiece with hpiece | hpiece
    · exact (h'.endsBy piece hpiece).keep h.moves (.refl h'.moves.stands)
    · exact (h.endsByOrEmpty piece hpiece).endsBy (.refl h.moves.origin) h'.moves (h'.passed hlater)

/-- A node with clauses, the last one possibly in front of the current token, as a body of its
own. -/
theorem AllEndByOrEmpty.single {node : Node} (h : AllEndByOrEmpty source c c' pieces)
    (hclausal : node.isClausal = true) (hparts : node.pieces ⊆ pieces)
    (hpassed : c'.errors = [] → c.Passed c') :
    AllEndBy source c c' [.body (.single ⟨node, c'.spanFrom c.front⟩)] := by
  have hspan := endsBy_spanFrom h.moves hpassed
  have hsound := hspan.sound _ .self
  have hexpr : (Piece.expr ⟨node, c'.spanFrom c.front⟩).Everywhere (Piece.Sound source) :=
    Piece.everywhere_iff.2 ⟨⟨hsound.start_le, hsound.stop_le, trivial⟩,
      fun part hpart ↦ (h.endsByOrEmpty part (hparts hpart)).sound⟩
  refine (AllEndBy.nil h.moves).cons ⟨⟨Nat.le_refl _, Piece.everywhere_iff.2 ⟨⟨hsound.start_le,
    hsound.stop_le, List.pairwise_singleton _ _⟩, fun part hpart ↦ ?_⟩, fun herrors ↦ ?_⟩,
    hspan.stop_le⟩
  · rw [List.mem_singleton.1 hpart]
    exact hexpr
  · refine Piece.wellNested_single hclausal fun part hpart ↦ ?_
    have horEmpty := h.endsByOrEmpty part (hparts hpart)
    refine ⟨horEmpty.wellNested herrors, ?_⟩
    rcases horEmpty.stop_le herrors with hstop | hempty
    · exact .inl ⟨horEmpty.start_le, Nat.le_trans hstop (Nat.le_max_left _ _)⟩
    · -- The span ends at the back of the cursor, and no token stands between that and its front.
      have hstop : max c'.back c.front = c'.back := Nat.max_eq_left (hpassed herrors)
      refine .inr ⟨c'.front, hempty, ?_, fun token htoken ↦ ?_⟩
      · exact Nat.le_trans (Nat.le_of_eq hstop) h.moves.stands.back_le_front
      · exact (h.moves.stands.gap htoken).imp_left fun hle ↦ Nat.le_trans hle (Nat.le_max_left _ _)

end

/-- An expression that a production has read from one cursor to another. It starts at the current
token of the first one and ends before the second one, except that error recovery may not read the
current token. -/
structure ExprBetween (source : String) (c : Cursor) (value : Expr) (c' : Cursor) : Prop where
  allEndBy : AllEndBy source c c' [.expr value]
  start_eq : value.span.start = c.front
  stop_le : value.span.stop ≤ max c'.back c.current.span.stop

namespace ExprBetween

variable {source : String} {c c' c'' : Cursor} {value : Expr} {pieces : List Piece}

theorem endsBy (h : ExprBetween source c value c') : EndsBy source c (.expr value) c' :=
  h.allEndBy.endsBy _ List.mem_cons_self

theorem keep (h : ExprBetween source c value c') (h' : Moves source c' c'') :
    ExprBetween source c value c'' where
  allEndBy := h.allEndBy.trans (.nil h')
  start_eq := h.start_eq
  stop_le := by
    have hle := h.stop_le
    have hback := h'.back_le
    omega

/-- The expression that was read between two cursors. -/
theorem build {node : Node} (h : AllEndBy source c c' pieces) (hpieces : pieces ≠ [])
    (hnode : node.isError = false) (hparts : node.pieces ⊆ pieces) :
    ExprBetween source c ⟨node, c'.spanFrom c.front⟩ c' where
  allEndBy := h.build hpieces rfl trivial hnode hparts
  start_eq := rfl
  stop_le := h.moves.stop_spanFrom_le

/-- An expression without parts at the place of another one. -/
theorem of_span_eq {node : Node} (h : ExprBetween source c value c') (hnode : node.isError = false)
    (hparts : node.pieces = []) : ExprBetween source c ⟨node, value.span⟩ c' where
  allEndBy := by
    refine (AllEndBy.nil h.allEndBy.moves).cons (h.endsBy.of_span_eq rfl trivial (.inl hnode)
      fun part hpart ↦ ?_)
    rw [Piece.parts, hparts] at hpart
    cases hpart
  start_eq := h.start_eq
  stop_le := h.stop_le

end ExprBetween

end DeclaredMethods.Source
