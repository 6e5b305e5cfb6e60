import DeclaredMethods.Source.Syntax
import Mathlib.Data.List.Basic

/-!
# Pieces of syntax trees

A piece of a syntax tree is whatever has a place of its own: an expression, a body, a block, a
parameter, a name or an operator. The parts of a piece are the pieces directly inside it, among them
default values, the bodies of clauses and the names that expressions and definitions bear.

What holds everywhere in a piece holds of it and everywhere in its parts.
-/

namespace DeclaredMethods

def Span.Encloses (outer inner : Span) : Prop :=
  outer.start ≤ inner.start ∧ inner.stop ≤ outer.stop

theorem Span.Encloses.refl (span : Span) : span.Encloses span :=
  ⟨Nat.le_refl _, Nat.le_refl _⟩

/-- How many offsets 32 bits can tell apart. -/
def Span.capacity : Nat := 4294967296

/-- The offsets of a span as 32 bits hold them. -/
def Span.narrow (span : Span) : Span where
  start := span.start % capacity
  stop := span.stop % capacity

/-- In a source whose offsets fit into 32 bits, nothing of a span is lost. -/
theorem Span.narrow_eq_self {span : Span} {size : Nat} (hstart : span.start ≤ span.stop)
    (hstop : span.stop ≤ size) (hsize : size < capacity) : span.narrow = span := by
  have hstop' : span.stop < capacity := Nat.lt_of_le_of_lt hstop hsize
  rw [narrow, Nat.mod_eq_of_lt (Nat.lt_of_le_of_lt hstart hstop'), Nat.mod_eq_of_lt hstop']

namespace Source

inductive Piece where
  | expr (value : Expr)
  | body (value : Body)
  | block (value : Block)
  | param (value : Param)
  /-- A name or an operator, of which only the place is kept. -/
  | word (span : Span)

namespace Piece

def span : Piece → Span
  | expr value => value.span
  | body value => value.span
  | block value => value.span
  | param value => value.span
  | word span => span

def ofExpr? (value : Option Expr) : List Piece :=
  value.toList.map .expr

def ofBody? (value : Option Body) : List Piece :=
  value.toList.map .body

def ofExprs (values : List Expr) : List Piece :=
  values.map .expr

end Piece

open Piece (ofExpr? ofBody? ofExprs)

def HashEntry.pieces : HashEntry → List Piece
  | pair key value => [.expr key, .expr value]
  | doubleSplat value => [.expr value]

def Arguments.pieces (args : Arguments) : List Piece :=
  ofExprs args.positional ++ ofExpr? args.blockArg

def WhenClause.pieces (clause : WhenClause) : List Piece :=
  ofExprs clause.patterns ++ [.body clause.body]

def RescueClause.pieces (clause : RescueClause) : List Piece :=
  ofExprs clause.exceptions ++ [.body clause.body]

def Node.pieces : Node → List Piece
  | nil | true | false | self | literal _ | const _ | ident _ | var _ _ | error => []
  | array items | yield_ items => ofExprs items
  | hash entries => entries.flatMap HashEntry.pieces
  | call receiver name args block _ =>
    ofExpr? receiver ++ .word name.span :: args.pieces ++ block.toList.map .block
  | classDef name superclass body => .word name.span :: ofExpr? superclass ++ [.body body]
  | moduleDef name body => [.word name.span, .body body]
  | singletonClass target body => [.expr target, .body body]
  | methodDef receiver name params body =>
    ofExpr? receiver ++ .word name.span :: params.map .param ++ [.body body]
  | assign target _ value => [.expr target, .expr value]
  | binary left op right => [.expr left, .word op.span, .expr right]
  | unary op operand => [.word op.span, .expr operand]
  | splat value => [.expr value]
  | if_ condition thenBranch elseBranch _ =>
    .expr condition :: .body thenBranch :: ofBody? elseBranch
  | while_ condition body _ => [.expr condition, .body body]
  | case_ subject whens elseBranch =>
    ofExpr? subject ++ whens.flatMap WhenClause.pieces ++ ofBody? elseBranch
  | begin_ body rescues elseBranch ensure =>
    .body body :: rescues.flatMap RescueClause.pieces ++ ofBody? elseBranch ++ ofBody? ensure
  | return_ value => ofExpr? value
  | lambda block => [.block block]
  | paren body => [.body body]

namespace Piece

def parts : Piece → List Piece
  | expr value => value.node.pieces
  | body value => ofExprs value.statements
  | block value => value.params.map .param ++ [.body value.body]
  | param value => ofExpr? value.default
  | word _ => []

/-- A piece occurs in another one if it is that piece or occurs in one of its parts. -/
inductive OccursIn (piece : Piece) : Piece → Prop where
  | self : OccursIn piece piece
  | part {whole part : Piece} (hpart : part ∈ whole.parts) (h : OccursIn piece part) :
      OccursIn piece whole

/-- What holds of every piece that occurs in a piece. -/
def Everywhere (holds : Piece → Prop) (whole : Piece) : Prop :=
  ∀ piece : Piece, piece.OccursIn whole → holds piece

section Everywhere

variable {holds : Piece → Prop} {whole : Piece}

/-- Everywhere in a piece is at the piece and everywhere in its parts. -/
theorem everywhere_iff :
    whole.Everywhere holds ↔ holds whole ∧ ∀ part ∈ whole.parts, part.Everywhere holds := by
  refine ⟨fun h ↦ ⟨h whole .self, fun part hpart piece hpiece ↦ h piece (.part hpart hpiece)⟩, ?_⟩
  rintro ⟨hhere, hparts⟩ piece hpiece
  cases hpiece with
  | self => exact hhere
  | part hpart h => exact hparts _ hpart piece h

/-- A piece that occurs in another one is that one or a part of a piece that occurs in it. -/
theorem OccursIn.eq_or_part {piece : Piece} (h : piece.OccursIn whole) :
    piece = whole ∨ ∃ outer : Piece, outer.OccursIn whole ∧ piece ∈ outer.parts := by
  induction h with
  | self => exact .inl rfl
  | part hpart h ih =>
    rcases ih with rfl | ⟨outer, houter, hmem⟩
    · exact .inr ⟨_, .self, hpart⟩
    · exact .inr ⟨outer, .part hpart houter, hmem⟩

end Everywhere

end Piece

end Source

end DeclaredMethods
