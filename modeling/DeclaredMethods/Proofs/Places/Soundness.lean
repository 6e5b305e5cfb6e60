import DeclaredMethods.Proofs.Places.Expressions
import DeclaredMethods.Proofs.Parsing.Consumption

/-!
# Trees and errors stand where the source says

A parse is the reading of one body from the start to the end of the source. What holds of a body
that is read therefore holds of whole trees.

The tree of a source without errors has no holes. The spans of every tree and of every error are
ranges of the source, and statements follow each other. Without errors pieces cover their parts,
with one exception: the empty body of a last clause may stand behind its node, in front of the `end`
that the node shares with the construct around it.
-/

namespace DeclaredMethods.Source

open Parse

variable {source : String} {file : SourceFile} {cursor : Cursor}

/-- All statements of a file lie between its start and its end. -/
theorem allEndByOrEmpty_run (h : run source = some (file, cursor)) :
    AllEndByOrEmpty source (.start source) cursor [.body file.body] ∧
      file.span = ⟨0, Text.byteLength source.toList⟩ := by
  have hgives : Gives (.start source) (sourceFile fullGrammar) fun file cursor ↦
      AllEndByOrEmpty source (.start source) cursor [.body file.body] ∧
        file.span = ⟨0, Text.byteLength source.toList⟩ := by
    refine (readsOrEmpty_body (readsExpr_grammar source maxDepth) .eof _
      (Cursor.stands_start source)).bind fun body cursor horEmpty ↦ .get_bind (.pure ⟨horEmpty, ?_⟩)
    rw [horEmpty.moves.stands.size_eq]
  exact hgives.of_run h

/-- The pieces of a tree, with what their places promise. -/
structure WellPlaced (source : String) (result : ParseResult) : Prop where
  span_eq : result.file.span = ⟨0, Text.byteLength source.toList⟩
  errors : ∀ error ∈ result.errors, error.LiesIn (Text.byteLength source.toList)
  sound : (Piece.body result.file.body).Everywhere (Piece.Sound source)
  wellNested : result.errors = [] → (Piece.body result.file.body).WellNested source

/-- Every source gives a tree whose places are sound. -/
theorem wellPlaced_parse (source : String) : WellPlaced source (parse source) := by
  obtain ⟨file, cursor, hrun, -, -⟩ := exists_run onward source
  obtain ⟨horEmpty, hspan⟩ := allEndByOrEmpty_run hrun
  have hbody := horEmpty.endsByOrEmpty _ List.mem_cons_self
  have hstands := horEmpty.moves.stands
  rw [parse_of_run hrun]
  exact ⟨hspan, fun error herror ↦ hstands.size_eq ▸ hstands.errors error herror, hbody.sound,
    hbody.wellNested⟩

/-- The piece that is reached by the positions of parts in parts. -/
def Piece.at? : Piece → List Nat → Option Piece
  | piece, [] => some piece
  | piece, index :: path => piece.parts[index]?.bind fun part ↦ part.at? path

theorem Piece.occursIn_of_at {piece whole : Piece} {path : List Nat}
    (h : whole.at? path = some piece) : piece.OccursIn whole := by
  induction path generalizing whole with
  | nil =>
    cases h
    exact .self
  | cons index path ih =>
    obtain ⟨part, hpart, hrest⟩ := Option.bind_eq_some_iff.1 h
    exact .part (List.mem_of_getElem? hpart) (ih hrest)

/-- A path is followed step by step. -/
theorem Piece.at?_append (whole : Piece) (path rest : List Nat) :
    whole.at? (path ++ rest) = (whole.at? path).bind fun piece ↦ piece.at? rest := by
  induction path generalizing whole with
  | nil => rfl
  | cons index path ih =>
    rw [List.cons_append, Piece.at?, Piece.at?]
    cases whole.parts[index]? with
    | none => rfl
    | some part => exact ih part

theorem Piece.mem_parts_of_at {whole part : Piece} {index : Nat}
    (h : whole.at? [index] = some part) : part ∈ whole.parts := by
  obtain ⟨found, hfound, hpart⟩ := Option.bind_eq_some_iff.1 h
  cases hpart
  exact List.mem_of_getElem? hfound

def Piece.expr? : Piece → Option Expr
  | expr value => some value
  | _ => none

theorem Piece.eq_expr_of_expr {piece : Piece} {value : Expr} (h : piece.expr? = some value) :
    piece = .expr value := by
  cases piece with
  | expr found => exact congrArg Piece.expr (Option.some.inj h)
  | _ => cases h

def Piece.block? : Piece → Option Block
  | block value => some value
  | _ => none

theorem Piece.eq_block_of_block {piece : Piece} {value : Block} (h : piece.block? = some value) :
    piece = .block value := by
  cases piece with
  | block found => exact congrArg Piece.block (Option.some.inj h)
  | _ => cases h

/-- Where nothing is reported, no expression of the tree stands for something that was skipped. -/
theorem parse_without_errors_has_no_hole (source : String) (h : (parse source).errors = [])
    (value : Expr) (hvalue : (Piece.expr value).OccursIn (.body (parse source).file.body)) :
    value.node ≠ .error := by
  intro herror
  have hpartsCover := ((wellPlaced_parse source).wellNested h).everywhere _ hvalue
  have hhole : value.node.isError = false := hpartsCover.not_hole
  rw [herror] at hhole
  cases hhole

/-- An item inside the default value of a parameter. -/
theorem parse_without_errors_has_no_hole_in_default :
    ∃ source value, (parse source).errors = [] ∧
      (Piece.expr value).OccursIn (.body (parse source).file.body) ∧ value.node ≠ .error := by
  let source := "def f(a, b: [1, nil]) = a rescue b"
  have herrors : (parse source).errors.isEmpty = true := by decide +kernel
  have hfound : (((Piece.body (parse source).file.body).at? [0, 2, 0, 1]).bind
      Piece.expr?).isSome = true := by decide +kernel
  obtain ⟨value, hvalue⟩ := Option.isSome_iff_exists.1 hfound
  obtain ⟨piece, hpiece, hexpr⟩ := Option.bind_eq_some_iff.1 hvalue
  rw [Piece.eq_expr_of_expr hexpr] at hpiece
  have hoccurs := Piece.occursIn_of_at hpiece
  have herrors := List.isEmpty_iff.1 herrors
  exact ⟨source, value, herrors, hoccurs,
    parse_without_errors_has_no_hole source herrors value hoccurs⟩

/-- In a source whose offsets fit into 32 bits, all spans of a tree and of its errors are ranges of
the source, those of the tree also where only 32 bits of an offset are kept, and the statements of
every body follow each other. Where nothing is reported, pieces cover their parts, but for the empty
bodies that may dangle behind an expression with clauses which is all of a body. -/
theorem parse_places_sound (source : String)
    (hsize : Text.byteLength source.toList < Span.capacity) :
    (parse source).file.span = ⟨0, Text.byteLength source.toList⟩ ∧
      (parse source).file.span.narrow = (parse source).file.span ∧
      (∀ error ∈ (parse source).errors, error.span.start ≤ error.span.stop ∧
        error.span.stop ≤ Text.byteLength source.toList) ∧
      (∀ piece : Piece, piece.OccursIn (.body (parse source).file.body) →
        piece.span.narrow = piece.span ∧ piece.span.start ≤ piece.span.stop ∧
          piece.span.stop ≤ Text.byteLength source.toList) ∧
      (∀ body : Body, (Piece.body body).OccursIn (.body (parse source).file.body) →
        body.statements.Pairwise fun first second ↦ first.span.stop ≤ second.span.start) ∧
      ((parse source).errors = [] →
        (parse source).file.span.Encloses (parse source).file.body.span ∧
        ∀ whole : Piece, whole.OccursIn (.body (parse source).file.body) →
          ∀ part ∈ whole.parts, whole.span.Encloses part.span ∨
            whole.Dangles source part ∧ ∃ value : Expr, whole = .expr value ∧
              value.node.isClausal = true ∧
              (Piece.body (.single value)).OccursIn (.body (parse source).file.body)) := by
  obtain ⟨hspan, herrors, hsound, hnested⟩ := wellPlaced_parse source
  refine ⟨hspan, ?_, herrors, fun piece hpiece ↦ ?_, fun body hbody ↦ (hsound _ hbody).ordered,
    fun hclean ↦ ⟨?_, fun whole hwhole part hpart ↦ ?_⟩⟩
  · rw [hspan]
    exact Span.narrow_eq_self (Nat.zero_le _) (Nat.le_refl _) hsize
  · have hpiece := hsound piece hpiece
    exact ⟨Span.narrow_eq_self hpiece.start_le hpiece.stop_le hsize, hpiece.start_le,
      hpiece.stop_le⟩
  · rw [hspan]
    exact ⟨Nat.zero_le _, (hsound _ .self).stop_le⟩
  · obtain ⟨hcovers, hpartsCover⟩ := hnested hclean
    -- What surrounds a piece says whether it covers its parts.
    rcases hwhole.eq_or_part with rfl | ⟨outer, houter, hinner⟩
    · exact .inl (hcovers part hpart)
    · rcases (hpartsCover outer houter).parts whole hinner with hcovers | hdangling
      · exact .inl (hcovers part hpart)
      · obtain ⟨value, rfl, rfl, hclausal, hdangling⟩ := hdangling
        exact (hdangling part hpart).imp_right fun hdangles ↦
          ⟨hdangles, value, rfl, hclausal, houter⟩

/-- A parameter with a default value, inside a block. -/
theorem parse_places_sound_in_block :
    ∃ source block part, Text.byteLength source.toList < Span.capacity ∧
      (parse source).errors = [] ∧ (Piece.block block).OccursIn (.body (parse source).file.body) ∧
      part ∈ (Piece.block block).parts ∧ part.parts ≠ [] ∧ part.span.narrow = part.span ∧
      block.span.Encloses part.span := by
  let source := "f(1) do |x, y = 2| x end"
  let whole := Piece.body (parse source).file.body
  have hsize : Text.byteLength source.toList < Span.capacity := by decide
  have herrors : (parse source).errors.isEmpty = true := by decide +kernel
  have hrun : ((whole.at? [0, 2]).bind Piece.block?).isSome = true ∧
      ((whole.at? [0, 2, 1]).map fun part ↦ part.parts.isEmpty) = some false := by decide +kernel
  obtain ⟨block, hblock⟩ := Option.isSome_iff_exists.1 hrun.1
  obtain ⟨piece, hpiece, hblock⟩ := Option.bind_eq_some_iff.1 hblock
  obtain rfl := Piece.eq_block_of_block hblock
  obtain ⟨part, hpart, hparts⟩ := Option.map_eq_some_iff.1 hrun.2
  have hmem : part ∈ (Piece.block block).parts := by
    rw [show [0, 2, 1] = [0, 2] ++ [1] from rfl, Piece.at?_append, hpiece] at hpart
    exact Piece.mem_parts_of_at hpart
  have hoccurs := Piece.occursIn_of_at hpiece
  have herrors := List.isEmpty_iff.1 herrors
  obtain ⟨-, -, -, hspans, -, hcovers⟩ := parse_places_sound source hsize
  refine ⟨source, block, part, hsize, herrors, hoccurs, hmem, ?_,
    (hspans part (Piece.occursIn_of_at hpart)).1, ?_⟩
  · rintro hnil
    rw [hnil] at hparts
    cases hparts
  · rcases (hcovers herrors).2 _ hoccurs part hmem with hcovers | ⟨-, _, hexpr, -⟩
    · exact hcovers
    · cases hexpr

/-- The empty `else` of a definition does not lie in the expression it belongs to. -/
theorem parse_empty_else_dangles :
    ∃ source, ∃ whole part : Piece, Text.byteLength source.toList < Span.capacity ∧
      (parse source).errors = [] ∧
      whole.OccursIn (.body (parse source).file.body) ∧ part ∈ whole.parts ∧
      ¬whole.span.Encloses part.span := by
  let source := "def f; else end"
  have herrors : (parse source).errors.isEmpty = true := by decide +kernel
  have hspans : ((Piece.body (parse source).file.body).at? [0, 1, 0]).map (fun whole ↦
      (whole.span, whole.parts[1]?.map Piece.span)) = some (⟨5, 11⟩, some ⟨12, 12⟩) := by
    decide +kernel
  obtain ⟨whole, hwhole, hboth⟩ := Option.map_eq_some_iff.1 hspans
  obtain ⟨hspan, hpart⟩ := Prod.mk.inj hboth
  obtain ⟨part, hpart, hinner⟩ := Option.map_eq_some_iff.1 hpart
  refine ⟨source, whole, part, by decide, List.isEmpty_iff.1 herrors, Piece.occursIn_of_at hwhole,
    List.mem_of_getElem? hpart, fun hencloses ↦ ?_⟩
  rw [hspan, hinner] at hencloses
  exact absurd hencloses.2 (by decide)

end DeclaredMethods.Source
