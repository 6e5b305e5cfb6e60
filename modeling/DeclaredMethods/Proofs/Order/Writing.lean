import DeclaredMethods.Proofs.Tree.Pieces
import DeclaredMethods.Proofs.Tree.Position

/-!
# The order in which trees are written

The children of an expression are listed field by field. This is the order in which they are written
but for three kinds of expressions. A modifier lists its condition in front of the statement it
modifies. Pairs without braces are gathered where the first of them stands, also if other arguments
are written between them. The block argument is listed last, wherever it is written.

An expression is written if its children stand in the order in which they are listed, or in the
opposite order where one of these cases allows it.
-/

namespace DeclaredMethods.Source

namespace Child

def span : Child → Span
  | expr value => value.span
  | body value => value.span

def piece : Child → Piece
  | expr value => .expr value
  | body value => .body value

/-- Whether a child is a literal. Such a child may share its place with the next one: the key of a
pair without a value with that value, and the words of a list with each other. -/
def isLiteral : Child → Bool
  | expr ⟨.literal _, _⟩ => true
  | _ => false

/-- What stands together in a child: the parts of a hash do not, as its pairs may be gathered from
between other arguments. -/
def opened : Child → List Child
  | expr ⟨.hash entries, _⟩ => entries.flatMap HashEntry.children
  | child => [child]

/-- A child is written in front of another one. -/
def InFront (first second : Child) : Prop :=
  first.isLiteral = true ∨ first.span.stop ≤ second.span.start

/-- What holds of every expression inside a child. -/
def Throughout (holds : Expr → Prop) (child : Child) : Prop :=
  ∀ ⦃opening enclosures position target⦄, Leads opening child enclosures position target →
    holds target

section Throughout

variable {holds : Expr → Prop}

/-- Every way into an expression stops there or goes on in a child. -/
theorem throughout_expr {value : Expr} (hvalue : holds value)
    (hchildren : ∀ child ∈ value.node.children, child.Throughout holds) :
    (expr value).Throughout holds := by
  intro opening enclosures position target hleads
  cases hleads with
  | here => exact hvalue
  | part hpart hleads =>
    refine hchildren _ ?_ hleads
    rw [← Node.map_snd_parts]
    exact List.mem_map_of_mem hpart.mem_parts

theorem throughout_body {value : Body}
    (h : ∀ statement ∈ value.statements, (expr statement).Throughout holds) :
    (body value).Throughout holds := by
  intro opening enclosures position target hleads
  cases hleads with
  | statement hget hleads => exact h _ (List.mem_of_getElem? hget) hleads

namespace Throughout

/-- Ways lead to the same expressions whatever a body belongs to. -/
theorem of_leads {child : Child} {opening : Opening}
    (h : ∀ enclosures position target, Leads opening child enclosures position target →
      holds target) : child.Throughout holds := by
  intro opening' enclosures position target hleads
  cases hleads with
  | here => exact h _ _ _ .here
  | part hpart hleads => exact h _ _ _ (.part hpart hleads)
  | statement hget hleads => exact h _ _ _ (.statement hget hleads)

theorem self {value : Expr} (h : (expr value).Throughout holds) : holds value :=
  h (Leads.here : Leads .inner _ _ _ _)

theorem part {value : Expr} {slot : Slot} {child : Child} (h : (expr value).Throughout holds)
    (hpart : value.node.HasPart slot child) : child.Throughout holds :=
  .of_leads fun _ _ _ hleads ↦ h (Leads.part hpart hleads : Leads .inner _ _ _ _)

/-- What holds throughout a body holds throughout each of its statements. -/
theorem statement {value : Body} {index : Nat} {statement : Expr}
    (h : (body value).Throughout holds) (hget : value.statements[index]? = some statement) :
    (expr statement).Throughout holds :=
  .of_leads fun _ _ _ hleads ↦ h (Leads.statement hget hleads : Leads .inner _ _ _ _)

end Throughout

end Throughout

end Child

/-- The arguments among which the pairs of an expression are gathered. -/
def Node.items : Node → List Expr
  | array items | yield_ items => items
  | call _ _ args _ _ => args.positional
  | _ => []

/-- Two children of an expression, the first one listed in front of the second one, that may be
written in the opposite order. -/
inductive Node.Exchanges : Node → Child → Child → Prop where
  | ifModifier {condition value : Expr} {negated : Bool} :
      Exchanges (.if_ condition (.single value) none negated) (.expr condition)
        (.body (.single value))
  | whileModifier {condition value : Expr} {negated : Bool} :
      Exchanges (.while_ condition (.single value) negated) (.expr condition)
        (.body (.single value))
  | pairs {node : Node} {entries : List HashEntry} {span : Span} {item : Expr}
      (h : [⟨.hash entries, span⟩, item].Sublist node.items) :
      Exchanges node (.expr ⟨.hash entries, span⟩) (.expr item)
  | blockArgument {receiver : Option Expr} {name : Spanned String} {args : Arguments}
      {block : Option Block} {safe : Bool} {item value : Expr} (hitem : item ∈ args.positional)
      (hvalue : args.blockArg = some value) :
      Exchanges (.call receiver name args block safe) (.expr item) (.expr value)

/-- Of two children of an expression, the first one is written in front of the second one, or they
are exchanged. -/
def Node.Lists (node : Node) (first second : Child) : Prop :=
  ∀ part ∈ first.opened, part.InFront second ∨
    node.Exchanges first second ∧ second.span.stop ≤ part.span.start

/-- The children of an expression are written in the order in which they are listed, unless they are
exchanged. A call without a receiver starts with its name. -/
structure Expr.Written (value : Expr) : Prop where
  ordered : value.node.children.Pairwise value.node.Lists
  named : ∀ {name args block safe}, value.node = .call none name args block safe →
    value.span.start < name.span.stop ∧
      ∀ child ∈ value.node.children, name.span.stop ≤ child.span.start

/-- An expression without children is written if its name is, in case it is a call. -/
theorem Expr.Written.of_children_eq_nil {value : Expr} (hchildren : value.node.children = [])
    (hnamed : ∀ {name args block safe}, value.node = .call none name args block safe →
      value.span.start < name.span.stop) : value.Written where
  ordered := by
    rw [hchildren]
    exact .nil
  named h := ⟨hnamed h, by simp [hchildren]⟩

theorem Piece.OccursIn.trans {first second third : Piece} (h : first.OccursIn second)
    (h' : second.OccursIn third) : first.OccursIn third := by
  induction h' with
  | self => exact h
  | part hpart _ ih => exact .part hpart ih

theorem Piece.occursIn_of_mem_parts {part whole : Piece} (h : part ∈ whole.parts) :
    part.OccursIn whole :=
  .part h .self

open Piece (ofExpr? ofBody? ofExprs)

theorem occursIn_of_mem_ofParams {params : List Param} {child : Child}
    (h : child ∈ Child.ofParams params) :
    ∃ param ∈ params, child.piece.OccursIn (.param param) := by
  obtain ⟨param, hparam, hchild⟩ := List.mem_flatMap.1 h
  obtain ⟨value, hvalue, rfl⟩ := List.mem_map.1 hchild
  exact ⟨param, hparam, Piece.occursIn_of_mem_parts (List.mem_map_of_mem hvalue)⟩

theorem occursIn_of_mem_ofBlock {block : Block} {child : Child} (h : child ∈ Child.ofBlock block) :
    child.piece.OccursIn (.block block) := by
  rcases List.mem_append.1 h with h | h
  · obtain ⟨param, hparam, hoccurs⟩ := occursIn_of_mem_ofParams h
    exact .part (List.mem_append_left _ (List.mem_map_of_mem hparam)) hoccurs
  · rw [List.mem_singleton.1 h]
    exact Piece.occursIn_of_mem_parts (List.mem_append_right _ List.mem_cons_self)

theorem HashEntry.piece_mem_pieces {entry : HashEntry} {child : Child}
    (h : child ∈ entry.children) : child.piece ∈ entry.pieces := by
  cases entry <;> grind [HashEntry.children, HashEntry.pieces, Child.piece]

theorem WhenClause.piece_mem_pieces {clause : WhenClause} {child : Child}
    (h : child ∈ clause.children) : child.piece ∈ clause.pieces := by
  grind [WhenClause.children, WhenClause.pieces, Child.piece, ofExprs]

theorem RescueClause.piece_mem_pieces {clause : RescueClause} {child : Child}
    (h : child ∈ clause.children) : child.piece ∈ clause.pieces := by
  grind [RescueClause.children, RescueClause.pieces, Child.piece, ofExprs]

/-- A child of an expression is a piece of it. -/
theorem Node.occursIn_of_mem_children {value : Expr} {child : Child}
    (h : child ∈ value.node.children) : child.piece.OccursIn (.expr value) := by
  obtain ⟨node, span⟩ := value
  have hdirect (hpiece : child.piece ∈ node.pieces) : child.piece.OccursIn (.expr ⟨node, span⟩) :=
    Piece.occursIn_of_mem_parts hpiece
  cases node with
  | call receiver name args block safe =>
    rcases List.mem_append.1 h with h | h
    · refine hdirect ?_
      grind [Node.pieces, Child.ofOption, Child.piece, Arguments.pieces, ofExprs, ofExpr?]
    · obtain ⟨block, hblock, hchild⟩ := List.mem_flatMap.1 h
      refine .part ?_ (occursIn_of_mem_ofBlock hchild)
      exact List.mem_append_right _ (List.mem_map_of_mem hblock)
  | methodDef receiver name params body =>
    rcases List.mem_append.1 h with h | h
    · rcases List.mem_append.1 h with h | h
      · exact hdirect (by grind [Node.pieces, Child.ofOption, Child.piece, ofExpr?])
      · obtain ⟨param, hparam, hoccurs⟩ := occursIn_of_mem_ofParams h
        exact .part (by grind [Piece.parts, Node.pieces]) hoccurs
    · exact hdirect (by grind [Node.pieces, Child.piece])
  | lambda block =>
    exact .part List.mem_cons_self (occursIn_of_mem_ofBlock h)
  | _ =>
    refine hdirect ?_
    grind [Node.children, Node.pieces, Child.ofOption, Child.ofBody?, Child.piece, ofExprs, ofExpr?,
      ofBody?, HashEntry.piece_mem_pieces, WhenClause.piece_mem_pieces,
      RescueClause.piece_mem_pieces]

/-- Where a way leads, there is a piece of the tree. -/
theorem Leads.occursIn {opening : Opening} {child : Child} {enclosures : List Enclosure}
    {position : Position} {target : Expr} (h : Leads opening child enclosures position target) :
    (Piece.expr target).OccursIn child.piece := by
  induction h with
  | here => exact .self
  | part hpart _ ih =>
    refine ih.trans (Node.occursIn_of_mem_children ?_)
    rw [← Node.map_snd_parts]
    exact List.mem_map_of_mem hpart.mem_parts
  | statement hget _ ih =>
    exact ih.trans (Piece.occursIn_of_mem_parts (List.mem_map_of_mem (List.mem_of_getElem? hget)))

end DeclaredMethods.Source
