import DeclaredMethods.Source.Outline
import Mathlib.Data.List.Basic
import Mathlib.Data.List.Nodup

/-!
# Positions in syntax trees

A position is a way down a syntax tree: into a field of an expression or to a statement of a body,
step by step. Equal subtrees at different places have different positions.

`Node.HasPart` says field by field what stands directly inside an expression, without reference to
the list of its children. `Node.parts` lists the same with the fields, and the children of an
expression are its parts without them, so none is missing and none is listed twice.
-/

namespace DeclaredMethods.Source

/-- A field of an expression. A field that holds several expressions is taken with an index, and
what stands in a clause with the index of the clause in front. -/
inductive Slot where
  | item (index : Nat)
  | key (entry : Nat)
  | value (entry : Nat)
  | receiver
  | argument (index : Nat)
  | blockArgument
  | default (param : Nat)
  | superclass
  | target
  | left
  | right
  | operand
  | condition
  | subject
  | pattern (clause index : Nat)
  | body
  | clauseBody (clause : Nat)
  | elseBranch
  | ensure
deriving DecidableEq

/-- An expression has an expression or body in a field. -/
inductive Node.HasPart : Node → Slot → Child → Prop where
  | arrayItem {items i e} (h : items[i]? = some e) : HasPart (.array items) (.item i) (.expr e)
  | yieldItem {items i e} (h : items[i]? = some e) : HasPart (.yield_ items) (.item i) (.expr e)
  | hashKey {entries i key value} (h : entries[i]? = some (.pair key value)) :
      HasPart (.hash entries) (.key i) (.expr key)
  | hashValue {entries i key value} (h : entries[i]? = some (.pair key value)) :
      HasPart (.hash entries) (.value i) (.expr value)
  | hashSplat {entries i value} (h : entries[i]? = some (.doubleSplat value)) :
      HasPart (.hash entries) (.value i) (.expr value)
  | callReceiver {e name args block safe} :
      HasPart (.call (some e) name args block safe) .receiver (.expr e)
  | callArgument {receiver name args block safe i e} (h : args.positional[i]? = some e) :
      HasPart (.call receiver name args block safe) (.argument i) (.expr e)
  | callBlockArgument {receiver name args block safe e} (h : args.blockArg = some e) :
      HasPart (.call receiver name args block safe) .blockArgument (.expr e)
  | callDefault {receiver name args block safe i param e} (h : block.params[i]? = some param)
      (hdefault : param.default = some e) :
      HasPart (.call receiver name args (some block) safe) (.default i) (.expr e)
  | callBody {receiver name args block safe} :
      HasPart (.call receiver name args (some block) safe) .body (.body block.body)
  | classSuperclass {name e body} :
      HasPart (.classDef name (some e) body) .superclass (.expr e)
  | classBody {name superclass body} :
      HasPart (.classDef name superclass body) .body (.body body)
  | moduleBody {name body} : HasPart (.moduleDef name body) .body (.body body)
  | singletonTarget {target body} :
      HasPart (.singletonClass target body) .target (.expr target)
  | singletonBody {target body} : HasPart (.singletonClass target body) .body (.body body)
  | methodReceiver {e name params body} :
      HasPart (.methodDef (some e) name params body) .receiver (.expr e)
  | methodDefault {receiver name params body i param e} (h : params[i]? = some param)
      (hdefault : param.default = some e) :
      HasPart (.methodDef receiver name params body) (.default i) (.expr e)
  | methodBody {receiver name params body} :
      HasPart (.methodDef receiver name params body) .body (.body body)
  | assignTarget {target op value} : HasPart (.assign target op value) .target (.expr target)
  | assignValue {target op value} : HasPart (.assign target op value) .operand (.expr value)
  | binaryLeft {left op right} : HasPart (.binary left op right) .left (.expr left)
  | binaryRight {left op right} : HasPart (.binary left op right) .right (.expr right)
  | unaryOperand {op e} : HasPart (.unary op e) .operand (.expr e)
  | splatOperand {e} : HasPart (.splat e) .operand (.expr e)
  | ifCondition {condition thenBranch elseBranch negated} :
      HasPart (.if_ condition thenBranch elseBranch negated) .condition (.expr condition)
  | ifBody {condition thenBranch elseBranch negated} :
      HasPart (.if_ condition thenBranch elseBranch negated) .body (.body thenBranch)
  | ifElse {condition thenBranch b negated} :
      HasPart (.if_ condition thenBranch (some b) negated) .elseBranch (.body b)
  | whileCondition {condition body negated} :
      HasPart (.while_ condition body negated) .condition (.expr condition)
  | whileBody {condition body negated} :
      HasPart (.while_ condition body negated) .body (.body body)
  | caseSubject {e whens elseBranch} :
      HasPart (.case_ (some e) whens elseBranch) .subject (.expr e)
  | whenPattern {subject whens elseBranch i j clause e} (h : whens[i]? = some clause)
      (hpattern : clause.patterns[j]? = some e) :
      HasPart (.case_ subject whens elseBranch) (.pattern i j) (.expr e)
  | whenBody {subject whens elseBranch i clause} (h : whens[i]? = some clause) :
      HasPart (.case_ subject whens elseBranch) (.clauseBody i) (.body clause.body)
  | caseElse {subject whens b} : HasPart (.case_ subject whens (some b)) .elseBranch (.body b)
  | beginBody {body rescues elseBranch ensure} :
      HasPart (.begin_ body rescues elseBranch ensure) .body (.body body)
  | rescueException {body rescues elseBranch ensure i j clause e}
      (h : rescues[i]? = some clause) (hexception : clause.exceptions[j]? = some e) :
      HasPart (.begin_ body rescues elseBranch ensure) (.pattern i j) (.expr e)
  | rescueBody {body rescues elseBranch ensure i clause} (h : rescues[i]? = some clause) :
      HasPart (.begin_ body rescues elseBranch ensure) (.clauseBody i) (.body clause.body)
  | beginElse {body rescues b ensure} :
      HasPart (.begin_ body rescues (some b) ensure) .elseBranch (.body b)
  | beginEnsure {body rescues elseBranch b} :
      HasPart (.begin_ body rescues elseBranch (some b)) .ensure (.body b)
  | returnOperand {e} : HasPart (.return_ (some e)) .operand (.expr e)
  | lambdaDefault {block i param e} (h : block.params[i]? = some param)
      (hdefault : param.default = some e) :
      HasPart (.lambda block) (.default i) (.expr e)
  | lambdaBody {block} : HasPart (.lambda block) .body (.body block.body)
  | parenBody {body} : HasPart (.paren body) .body (.body body)

/-! ## Listing the parts -/

def indexed {α : Type} (items : List α) (parts : α → Nat → List (Slot × Child)) :
    List (Slot × Child) :=
  items.zipIdx.flatMap fun item ↦ parts item.1 item.2

def exprPart (slot : Slot) (value : Option Expr) : List (Slot × Child) :=
  value.toList.map fun e ↦ (slot, .expr e)

def bodyPart (slot : Slot) (value : Option Body) : List (Slot × Child) :=
  value.toList.map fun b ↦ (slot, .body b)

def exprParts (slot : Nat → Slot) (exprs : List Expr) : List (Slot × Child) :=
  indexed exprs fun e i ↦ [(slot i, .expr e)]

def defaultParts (params : List Param) : List (Slot × Child) :=
  indexed params fun param i ↦ exprPart (.default i) param.default

def blockParts (block : Block) : List (Slot × Child) :=
  defaultParts block.params ++ [(.body, .body block.body)]

def entryParts (entry : HashEntry) (i : Nat) : List (Slot × Child) :=
  match entry with
  | .pair key value => [(.key i, .expr key), (.value i, .expr value)]
  | .doubleSplat value => [(.value i, .expr value)]

def clauseParts (exprs : List Expr) (body : Body) (i : Nat) : List (Slot × Child) :=
  exprParts (.pattern i) exprs ++ [(.clauseBody i, .body body)]

/-- The parts of an expression with their fields, in the order they are written. -/
def Node.parts : Node → List (Slot × Child)
  | nil | true | false | self | literal _ | const _ | ident _ | var _ _ | error => []
  | array items | yield_ items => exprParts .item items
  | hash entries => indexed entries entryParts
  | call receiver _ args block _ =>
    exprPart .receiver receiver ++ exprParts .argument args.positional ++
      exprPart .blockArgument args.blockArg ++ block.toList.flatMap blockParts
  | classDef _ superclass body => exprPart .superclass superclass ++ [(.body, .body body)]
  | moduleDef _ body => [(.body, .body body)]
  | singletonClass target body => [(.target, .expr target), (.body, .body body)]
  | methodDef receiver _ params body =>
    exprPart .receiver receiver ++ defaultParts params ++ [(.body, .body body)]
  | assign target _ value => [(.target, .expr target), (.operand, .expr value)]
  | binary left _ right => [(.left, .expr left), (.right, .expr right)]
  | unary _ operand => [(.operand, .expr operand)]
  | splat value => [(.operand, .expr value)]
  | if_ condition thenBranch elseBranch _ =>
    (.condition, .expr condition) :: (.body, .body thenBranch) :: bodyPart .elseBranch elseBranch
  | while_ condition body _ => [(.condition, .expr condition), (.body, .body body)]
  | case_ subject whens elseBranch =>
    exprPart .subject subject ++
      indexed whens (fun clause i ↦ clauseParts clause.patterns clause.body i) ++
      bodyPart .elseBranch elseBranch
  | begin_ body rescues elseBranch ensure =>
    (.body, .body body) ::
      indexed rescues (fun clause i ↦ clauseParts clause.exceptions clause.body i) ++
      bodyPart .elseBranch elseBranch ++ bodyPart .ensure ensure
  | return_ value => exprPart .operand value
  | lambda block => blockParts block
  | paren body => [(.body, .body body)]

section Indexed

variable {α : Type} {items : List α} {parts : α → Nat → List (Slot × Child)}

@[simp] theorem mem_indexed {part : Slot × Child} :
    part ∈ indexed items parts ↔ ∃ i item, items[i]? = some item ∧ part ∈ parts item i := by
  simp only [indexed, List.mem_flatMap, Prod.exists, List.mk_mem_zipIdx_iff_getElem?]
  exact exists_comm

theorem map_snd_indexed (children : α → List Child)
    (h : ∀ item i, (parts item i).map Prod.snd = children item) :
    (indexed items parts).map Prod.snd = items.flatMap children := by
  have hfst : items = items.zipIdx.map Prod.fst := by simp
  rw [indexed, List.map_flatMap]
  conv_rhs => rw [hfst, List.flatMap_map]
  simp only [h]

/-- The place of a field among those of an expression, in the order they are written. -/
def Slot.field : Slot → Nat
  | receiver | superclass | target | left | condition | subject => 0
  | item _ | argument _ | key _ | value _ => 1
  | right | operand | blockArgument => 2
  | default _ => 3
  | body => 4
  | pattern _ _ | clauseBody _ => 5
  | elseBranch => 6
  | ensure => 7

/-- The place inside a field that holds several expressions. The body of a clause stands behind its
patterns, and the value of an entry behind its key. -/
def Slot.offsets : Slot → List Nat
  | item i | argument i | default i => [i]
  | key i => [i, 0]
  | value i => [i, 1]
  | pattern i j => [i, 0, j]
  | clauseBody i => [i, 1]
  | _ => []

/-- The place of a part inside an expression. Ranks are compared number by number. -/
def Slot.rank (slot : Slot) : List Nat :=
  slot.field :: slot.offsets

/-- The parts stand in the order of their fields. -/
def Ranked (parts : List (Slot × Child)) : Prop :=
  parts.Pairwise fun left right ↦ left.1.rank < right.1.rank

/-- The parts of different items are in order if each of them shows the index of its item. -/
theorem ranked_indexed (first : Nat) (hranked : ∀ item i, Ranked (parts item i))
    (hrank : ∀ item i, ∀ part ∈ parts item i, ∃ rest, part.1.rank = first :: i :: rest) :
    Ranked (indexed items parts) := by
  rw [Ranked, indexed, List.pairwise_flatMap]
  refine ⟨fun item _ ↦ hranked item.1 item.2, ?_⟩
  have hpairwise : items.zipIdx.Pairwise fun left right ↦ left.2 < right.2 := by
    rw [← List.pairwise_map (f := Prod.snd) (R := (· < ·)), List.zipIdx_map_snd]
    exact List.pairwise_lt_range'
  refine hpairwise.imp fun {left right} hlt part hpart part' hpart' ↦ ?_
  obtain ⟨rest, hrest⟩ := hrank _ _ part hpart
  obtain ⟨rest', hrest'⟩ := hrank _ _ part' hpart'
  rw [hrest, hrest', List.cons_lt_cons_iff, List.cons_lt_cons_iff]
  exact .inr ⟨rfl, .inl hlt⟩

end Indexed

section Mem

variable {part : Slot × Child}

@[simp] theorem mem_exprPart {slot : Slot} {value : Option Expr} :
    part ∈ exprPart slot value ↔ ∃ e, value = some e ∧ part = (slot, .expr e) := by
  simp [exprPart, eq_comm]

@[simp] theorem mem_bodyPart {slot : Slot} {value : Option Body} :
    part ∈ bodyPart slot value ↔ ∃ b, value = some b ∧ part = (slot, .body b) := by
  simp [bodyPart, eq_comm]

@[simp] theorem mem_exprParts {slot : Nat → Slot} {exprs : List Expr} :
    part ∈ exprParts slot exprs ↔ ∃ i e, exprs[i]? = some e ∧ part = (slot i, .expr e) := by
  simp [exprParts]

@[simp] theorem mem_defaultParts {params : List Param} :
    part ∈ defaultParts params ↔ ∃ i param, params[i]? = some param ∧
      ∃ e, param.default = some e ∧ part = (.default i, .expr e) := by
  simp [defaultParts]

@[simp] theorem mem_blockParts {block : Block} :
    part ∈ blockParts block ↔
      part ∈ defaultParts block.params ∨ part = (.body, .body block.body) := by
  simp [blockParts]

@[simp] theorem mem_clauseParts {exprs : List Expr} {body : Body} {i : Nat} :
    part ∈ clauseParts exprs body i ↔
      (∃ j e, exprs[j]? = some e ∧ part = (.pattern i j, .expr e)) ∨
        part = (.clauseBody i, .body body) := by
  simp [clauseParts]

end Mem

/-- Every part is in the list. -/
theorem Node.HasPart.mem_parts {node : Node} {slot : Slot} {child : Child}
    (h : node.HasPart slot child) : (slot, child) ∈ node.parts := by
  cases h with
  | hashKey h => exact mem_indexed.2 ⟨_, _, h, by simp [entryParts]⟩
  | hashValue h => exact mem_indexed.2 ⟨_, _, h, by simp [entryParts]⟩
  | hashSplat h => exact mem_indexed.2 ⟨_, _, h, by simp [entryParts]⟩
  | _ => simp_all [Node.parts]

/-- Everything in the list is a part. -/
theorem Node.HasPart.of_mem_parts {node : Node} {slot : Slot} {child : Child}
    (h : (slot, child) ∈ node.parts) : node.HasPart slot child := by
  cases node with
  | hash entries =>
    obtain ⟨i, entry, hentry, hpart⟩ := mem_indexed.1 h
    cases entry with
    | pair key value =>
      simp only [entryParts, List.mem_cons, Prod.mk.injEq, List.not_mem_nil, or_false] at hpart
      rcases hpart with ⟨rfl, rfl⟩ | ⟨rfl, rfl⟩
      · exact .hashKey hentry
      · exact .hashValue hentry
    | doubleSplat value =>
      simp only [entryParts, List.mem_singleton, Prod.mk.injEq] at hpart
      obtain ⟨rfl, rfl⟩ := hpart
      exact .hashSplat hentry
  | call receiver name args block safe =>
    simp only [parts, List.mem_append, mem_exprPart, mem_exprParts, List.mem_flatMap,
      Option.mem_toList, mem_blockParts, mem_defaultParts, Prod.mk.injEq] at h
    rcases h with ((⟨e, rfl, rfl, rfl⟩ | ⟨i, e, he, rfl, rfl⟩) | ⟨e, he, rfl, rfl⟩) |
      ⟨b, rfl, ⟨i, param, hparam, e, he, rfl, rfl⟩ | ⟨rfl, rfl⟩⟩
    · exact .callReceiver
    · exact .callArgument he
    · exact .callBlockArgument he
    · exact .callDefault hparam he
    · exact .callBody
  | case_ subject whens elseBranch =>
    simp only [parts, List.mem_append, mem_exprPart, mem_bodyPart, mem_indexed, mem_clauseParts,
      Prod.mk.injEq] at h
    rcases h with (⟨e, rfl, rfl, rfl⟩ | ⟨i, clause, hclause, ⟨j, e, he, rfl, rfl⟩ | ⟨rfl, rfl⟩⟩) |
      ⟨b, rfl, rfl, rfl⟩
    · exact .caseSubject
    · exact .whenPattern hclause he
    · exact .whenBody hclause
    · exact .caseElse
  | begin_ body rescues elseBranch ensure =>
    simp only [parts, List.mem_append, List.mem_cons, mem_bodyPart, mem_indexed, mem_clauseParts,
      Prod.mk.injEq] at h
    rcases h with ((⟨rfl, rfl⟩ | ⟨i, clause, hclause, ⟨j, e, he, rfl, rfl⟩ | ⟨rfl, rfl⟩⟩) |
      ⟨b, rfl, rfl, rfl⟩) | ⟨b, rfl, rfl, rfl⟩
    · exact .beginBody
    · exact .rescueException hclause he
    · exact .rescueBody hclause
    · exact .beginElse
    · exact .beginEnsure
  | methodDef receiver name params body =>
    simp only [parts, List.mem_append, mem_exprPart, mem_defaultParts, List.mem_singleton,
      Prod.mk.injEq] at h
    rcases h with (⟨e, rfl, rfl, rfl⟩ | ⟨i, param, hparam, e, he, rfl, rfl⟩) | ⟨rfl, rfl⟩
    · exact .methodReceiver
    · exact .methodDefault hparam he
    · exact .methodBody
  | lambda block =>
    simp only [parts, mem_blockParts, mem_defaultParts, Prod.mk.injEq] at h
    rcases h with ⟨i, param, hparam, e, he, rfl, rfl⟩ | ⟨rfl, rfl⟩
    · exact .lambdaDefault hparam he
    · exact .lambdaBody
  | array items =>
    obtain ⟨i, e, he, heq⟩ := mem_exprParts.1 h
    cases heq
    exact .arrayItem he
  | yield_ items =>
    obtain ⟨i, e, he, heq⟩ := mem_exprParts.1 h
    cases heq
    exact .yieldItem he
  | classDef name superclass body =>
    simp only [parts, List.mem_append, mem_exprPart, List.mem_singleton, Prod.mk.injEq] at h
    rcases h with ⟨e, rfl, rfl, rfl⟩ | ⟨rfl, rfl⟩
    · exact .classSuperclass
    · exact .classBody
  | if_ condition thenBranch elseBranch negated =>
    simp only [parts, List.mem_cons, mem_bodyPart, Prod.mk.injEq] at h
    rcases h with ⟨rfl, rfl⟩ | ⟨rfl, rfl⟩ | ⟨b, rfl, rfl, rfl⟩
    · exact .ifCondition
    · exact .ifBody
    · exact .ifElse
  | return_ value =>
    obtain ⟨e, rfl, heq⟩ := mem_exprPart.1 h
    cases heq
    exact .returnOperand
  | nil | true | false | self | literal _ | const _ | ident _ | var _ _ | error => cases h
  | singletonClass _ _ | assign _ _ _ | binary _ _ _ | while_ _ _ _ =>
    simp only [parts, List.mem_cons, Prod.mk.injEq, List.not_mem_nil, or_false] at h
    rcases h with ⟨rfl, rfl⟩ | ⟨rfl, rfl⟩ <;> constructor
  | moduleDef _ _ | unary _ _ | splat _ | paren _ =>
    simp only [parts, List.mem_singleton, Prod.mk.injEq] at h
    obtain ⟨rfl, rfl⟩ := h
    constructor

/-- The relation and the list of parts are the same. -/
theorem Node.hasPart_iff_mem_parts {node : Node} {slot : Slot} {child : Child} :
    node.HasPart slot child ↔ (slot, child) ∈ node.parts :=
  ⟨HasPart.mem_parts, HasPart.of_mem_parts⟩

theorem map_snd_exprPart (slot : Slot) (value : Option Expr) :
    (exprPart slot value).map Prod.snd = Child.ofOption value := by
  simp [exprPart, Child.ofOption]

theorem map_snd_bodyPart (slot : Slot) (value : Option Body) :
    (bodyPart slot value).map Prod.snd = Child.ofBody? value := by
  simp [bodyPart, Child.ofBody?]

theorem map_snd_exprParts (slot : Nat → Slot) (exprs : List Expr) :
    (exprParts slot exprs).map Prod.snd = exprs.map .expr := by
  rw [exprParts, map_snd_indexed (fun e ↦ [.expr e]) fun _ _ ↦ rfl, List.map_eq_flatMap]

theorem map_snd_defaultParts (params : List Param) :
    (defaultParts params).map Prod.snd = Child.ofParams params :=
  map_snd_indexed _ fun param i ↦ map_snd_exprPart (.default i) param.default

theorem map_snd_blockParts (block : Block) :
    (blockParts block).map Prod.snd = Child.ofBlock block := by
  simp [blockParts, map_snd_defaultParts, Child.ofBlock]

theorem map_snd_clauseParts (exprs : List Expr) (body : Body) (i : Nat) :
    (clauseParts exprs body i).map Prod.snd = exprs.map .expr ++ [.body body] := by
  simp [clauseParts, map_snd_exprParts]

/-- The children of an expression are its parts. -/
theorem Node.map_snd_parts (node : Node) : node.parts.map Prod.snd = node.children := by
  cases node with
  | hash entries =>
    refine map_snd_indexed HashEntry.children fun entry i ↦ ?_
    cases entry <;> rfl
  | call receiver name args block safe =>
    cases block <;>
      simp [parts, children, map_snd_exprPart, map_snd_exprParts, map_snd_blockParts]
  | case_ subject whens elseBranch =>
    simp only [parts, children, List.map_append, map_snd_exprPart, map_snd_bodyPart]
    rw [map_snd_indexed WhenClause.children fun clause i ↦ map_snd_clauseParts _ _ i]
  | begin_ body rescues elseBranch ensure =>
    simp only [parts, children, List.map_append, List.map_cons, map_snd_bodyPart]
    rw [map_snd_indexed RescueClause.children fun clause i ↦ map_snd_clauseParts _ _ i]
  | _ =>
    simp [parts, children, map_snd_exprPart, map_snd_exprParts, map_snd_bodyPart,
      map_snd_defaultParts, map_snd_blockParts]

/-! ## The order of the parts -/

theorem ranked_exprPart (slot : Slot) (value : Option Expr) : Ranked (exprPart slot value) := by
  cases value <;> simp [Ranked, exprPart]

theorem ranked_bodyPart (slot : Slot) (value : Option Body) : Ranked (bodyPart slot value) := by
  cases value <;> simp [Ranked, bodyPart]

theorem pair_lt_pair (first : Nat) {i j : Nat} (h : i < j) : [first, i] < [first, j] := by
  simp [List.cons_lt_cons_iff, h]

/-- Slots with an index come in the order of their indices. -/
theorem ranked_exprParts {slot : Nat → Slot} (hslot : ∀ i j, i < j → (slot i).rank < (slot j).rank)
    (exprs : List Expr) : Ranked (exprParts slot exprs) := by
  have hparts : exprParts slot exprs = exprs.zipIdx.map fun e ↦ (slot e.2, .expr e.1) := by
    rw [exprParts, indexed, List.map_eq_flatMap]
  have hpairwise : exprs.zipIdx.Pairwise fun left right ↦ left.2 < right.2 := by
    rw [← List.pairwise_map (f := Prod.snd) (R := (· < ·)), List.zipIdx_map_snd]
    exact List.pairwise_lt_range'
  rw [Ranked, hparts, List.pairwise_map]
  exact hpairwise.imp fun hlt ↦ hslot _ _ hlt

theorem ranked_defaultParts (params : List Param) : Ranked (defaultParts params) := by
  refine ranked_indexed 3 (fun param i ↦ ranked_exprPart _ _) fun param i part hpart ↦ ?_
  obtain ⟨e, -, rfl⟩ := mem_exprPart.1 hpart
  exact ⟨[], rfl⟩

/-- Parts can be put behind parts of earlier fields. -/
theorem Ranked.append {left right : List (Slot × Child)} (hleft : Ranked left)
    (hright : Ranked right)
    (hlt : ∀ part ∈ left, ∀ part' ∈ right, part.1.field < part'.1.field) :
    Ranked (left ++ right) :=
  List.pairwise_append.2 ⟨hleft, hright, fun part hpart part' hpart' ↦
    List.cons_lt_cons_iff.2 (.inl (hlt part hpart part' hpart'))⟩

theorem ranked_blockParts (block : Block) : Ranked (blockParts block) := by
  refine (ranked_defaultParts _).append (List.pairwise_singleton _ _) ?_
  grind [mem_defaultParts, Slot.field]

/-- The patterns of a clause come in front of its body, and clauses in their order. -/
theorem ranked_clauses {α : Type} (clauses : List α) (exprs : α → List Expr) (body : α → Body) :
    Ranked (indexed clauses fun clause i ↦ clauseParts (exprs clause) (body clause) i) := by
  refine ranked_indexed 5 (fun clause i ↦ ?_) fun clause i part hpart ↦ ?_
  · refine List.pairwise_append.2 ⟨ranked_exprParts (fun j k hlt ↦ ?_) _,
      List.pairwise_singleton _ _, ?_⟩
    · simpa [Slot.rank, Slot.field, Slot.offsets, List.cons_lt_cons_iff] using hlt
    · intro part hpart part' hpart'
      obtain ⟨j, e, -, rfl⟩ := mem_exprParts.1 hpart
      rw [List.mem_singleton.1 hpart']
      simp [Slot.rank, Slot.field, Slot.offsets, List.cons_lt_cons_iff]
  · rcases mem_clauseParts.1 hpart with ⟨j, e, -, rfl⟩ | rfl
    · exact ⟨[0, j], rfl⟩
    · exact ⟨[1], rfl⟩

/-- The parts of an expression are listed in the order of their fields, each field once. -/
theorem Node.ranked_parts (node : Node) : Ranked node.parts := by
  cases node with
  | array items => exact ranked_exprParts (fun _ _ ↦ pair_lt_pair 1) _
  | yield_ items => exact ranked_exprParts (fun _ _ ↦ pair_lt_pair 1) _
  | hash entries =>
    refine ranked_indexed 1 (fun entry i ↦ ?_) fun entry i part hpart ↦ ?_
    · cases entry <;> simp [Ranked, entryParts, Slot.rank, Slot.offsets, Slot.field,
        List.cons_lt_cons_iff]
    · cases entry <;> simp only [entryParts, List.mem_cons, List.not_mem_nil, or_false] at hpart
      · rcases hpart with rfl | rfl
        · exact ⟨[0], rfl⟩
        · exact ⟨[1], rfl⟩
      · exact ⟨[1], by rw [hpart]; rfl⟩
  | call receiver name args block safe =>
    have hblock : Ranked (block.toList.flatMap blockParts) := by
      cases block with
      | none => exact List.Pairwise.nil
      | some block => simpa using ranked_blockParts block
    have harguments : Ranked (exprParts .argument args.positional) :=
      ranked_exprParts (fun _ _ ↦ pair_lt_pair 1) _
    refine (((ranked_exprPart _ _).append harguments ?_).append (ranked_exprPart _ _) ?_).append
      hblock ?_
    all_goals grind [mem_exprPart, mem_exprParts, mem_blockParts, mem_defaultParts, Slot.field]
  | methodDef receiver name params body =>
    refine ((ranked_exprPart _ _).append (ranked_defaultParts _) ?_).append
      (List.pairwise_singleton _ _) ?_
    all_goals grind [mem_exprPart, mem_defaultParts, Slot.field]
  | case_ subject whens elseBranch =>
    refine ((ranked_exprPart _ _).append (ranked_clauses _ _ _) ?_).append
      (ranked_bodyPart _ _) ?_
    all_goals grind [mem_exprPart, mem_bodyPart, mem_indexed, mem_clauseParts, Slot.field]
  | begin_ body rescues elseBranch ensure =>
    have hbody : Ranked [(.body, .body body)] := List.pairwise_singleton _ _
    refine ((hbody.append (ranked_clauses _ _ _) ?_).append (ranked_bodyPart _ _) ?_).append
      (ranked_bodyPart _ _) ?_
    all_goals grind [mem_bodyPart, mem_indexed, mem_clauseParts, Slot.field]
  | lambda block => exact ranked_blockParts block
  | classDef name superclass body =>
    cases superclass <;>
      simp [Ranked, parts, exprPart, Slot.rank, Slot.field, List.cons_lt_cons_iff]
  | if_ condition thenBranch elseBranch negated =>
    cases elseBranch <;> simp [Ranked, parts, bodyPart, Slot.rank, Slot.field,
      List.cons_lt_cons_iff]
  | return_ value => exact ranked_exprPart _ _
  | _ => simp [Ranked, parts, Slot.rank, Slot.field, List.cons_lt_cons_iff]

mutual

private theorem inductionOutline {motive : Child → Prop}
    (expr : ∀ e : Expr, (∀ child ∈ e.node.children, motive child) → motive (.expr e))
    (body : ∀ b : Body, (∀ statement ∈ b.statements, motive (.expr statement)) →
      motive (.body b)) :
    ∀ (outline : Outline) (child : Child), Outline.ofChild child = outline → motive child
  | .expression value children, .expr e, h => by
    rw [Outline.ofChild_expr, Outline.ofExpr_eq] at h
    injection h with _ hchildren
    exact expr e fun child hchild ↦
      inductionOutlines expr body children child (hchildren ▸ List.mem_map_of_mem hchild)
  | .sequence value statements, .body b, h => by
    rw [Outline.ofChild_body, Outline.ofBody_eq] at h
    injection h with _ hstatements
    exact body b fun statement hstatement ↦
      inductionOutlines expr body statements (.expr statement)
        (hstatements ▸ List.mem_map_of_mem hstatement)
  | .expression _ _, .body b, h => by
    rw [Outline.ofChild_body, Outline.ofBody_eq] at h
    cases h
  | .sequence _ _, .expr e, h => by
    rw [Outline.ofChild_expr, Outline.ofExpr_eq] at h
    cases h

private theorem inductionOutlines {motive : Child → Prop}
    (expr : ∀ e : Expr, (∀ child ∈ e.node.children, motive child) → motive (.expr e))
    (body : ∀ b : Body, (∀ statement ∈ b.statements, motive (.expr statement)) →
      motive (.body b)) :
    ∀ (outlines : List Outline) (child : Child), Outline.ofChild child ∈ outlines → motive child
  | [], _, h => by cases h
  | outline :: outlines, child, h => by
    rcases List.mem_cons.1 h with h | h
    · exact inductionOutline expr body outline child h
    · exact inductionOutlines expr body outlines child h

end

/-- What holds of an expression if it holds of its children, and of a body if it holds of its
statements, holds of every expression and body. -/
theorem Child.induction {motive : Child → Prop}
    (expr : ∀ e : Expr, (∀ child ∈ e.node.children, motive child) → motive (.expr e))
    (body : ∀ b : Body, (∀ statement ∈ b.statements, motive (.expr statement)) →
      motive (.body b))
    (child : Child) : motive child :=
  inductionOutline expr body (.ofChild child) child rfl

inductive Step where
  | part (slot : Slot)
  | statement (index : Nat)
deriving DecidableEq

/-- The place of a step among those that can be taken. -/
def Step.rank : Step → List Nat
  | part slot => slot.rank
  | statement index => [index]

/-- A way down a syntax tree. -/
abbrev Position := List Step

/-- Positions are compared step by step, in the order in which the tree is written. An expression
stands in front of what is inside it. -/
def Position.Before (left right : Position) : Prop :=
  left.map Step.rank < right.map Step.rank

/-- No position comes before itself. -/
theorem Position.Before.ne {left right : Position} (h : Before left right) : left ≠ right := by
  rintro rfl
  exact List.lt_irrefl _ h

/-- What a body belongs to. -/
inductive Opening where
  /-- It is that of the source. -/
  | file
  /-- It is that of a class or module of the given name. -/
  | named (name : ConstPath)
  /-- It is that of a singleton class. -/
  | singleton
  /-- It is that of any other expression. -/
  | inner

/-- What the bodies directly inside an expression belong to. -/
def Node.opening : Node → Opening
  | classDef name _ _ => .named name.node
  | moduleDef name _ => .named name.node
  | singletonClass _ _ => .singleton
  | _ => .inner

/-- A body around a place. -/
structure Enclosure where
  opening : Opening
  /-- The statements in front of the one that leads to the place. -/
  before : List Expr

/-- A position leads from an expression or body to an expression, through the given bodies, the
outermost first. -/
inductive Leads : Opening → Child → List Enclosure → Position → Expr → Prop where
  | here {opening : Opening} {e : Expr} : Leads opening (.expr e) [] [] e
  | part {opening : Opening} {e target : Expr} {slot : Slot} {child : Child}
      {enclosures : List Enclosure} {position : Position} (h : e.node.HasPart slot child)
      (hleads : Leads e.node.opening child enclosures position target) :
      Leads opening (.expr e) enclosures (.part slot :: position) target
  | statement {opening : Opening} {b : Body} {index : Nat} {e target : Expr}
      {enclosures : List Enclosure} {position : Position} (h : b.statements[index]? = some e)
      (hleads : Leads .inner (.expr e) enclosures position target) :
      Leads opening (.body b) (⟨opening, b.statements.take index⟩ :: enclosures)
        (.statement index :: position) target

end DeclaredMethods.Source
