import DeclaredMethods.Source.Syntax

/-!
# Outlines of syntax trees

The children of an expression are the expressions and bodies directly inside it, in the order
they are written. An `Outline` is the tree of all of them: each of its nodes holds an expression
or a body and the outlines of its children, so a walk over a syntax tree is a recursion on one
kind of node.
-/

namespace DeclaredMethods.Source

/-- A direct part of an expression. -/
inductive Child where
  | expr (value : Expr)
  | body (value : Body)

namespace Child

def ofOption (value : Option Expr) : List Child :=
  value.toList.map .expr

def ofParams (params : List Param) : List Child :=
  params.flatMap fun param => ofOption param.default

def ofBody? (value : Option Body) : List Child :=
  value.toList.map .body

def ofBlock (block : Block) : List Child :=
  ofParams block.params ++ [.body block.body]

end Child

def HashEntry.children : HashEntry → List Child
  | pair key value => [.expr key, .expr value]
  | doubleSplat value => [.expr value]

def WhenClause.children (clause : WhenClause) : List Child :=
  clause.patterns.map .expr ++ [.body clause.body]

def RescueClause.children (clause : RescueClause) : List Child :=
  clause.exceptions.map .expr ++ [.body clause.body]

/-- The direct parts of an expression in the order they are written. -/
def Node.children : Node → List Child
  | nil | true | false | self | literal _ | const _ | ident _ | var _ _ | error => []
  | array items | yield_ items => items.map .expr
  | hash entries => entries.flatMap HashEntry.children
  | call receiver _ args block _ =>
    Child.ofOption receiver ++ args.positional.map .expr ++ Child.ofOption args.blockArg ++
      block.toList.flatMap Child.ofBlock
  | classDef _ superclass body => Child.ofOption superclass ++ [.body body]
  | moduleDef _ body => [.body body]
  | singletonClass target body => [.expr target, .body body]
  | methodDef receiver _ params body =>
    Child.ofOption receiver ++ Child.ofParams params ++ [.body body]
  | assign target _ value => [.expr target, .expr value]
  | binary left _ right => [.expr left, .expr right]
  | unary _ operand => [.expr operand]
  | splat value => [.expr value]
  | if_ condition thenBranch elseBranch _ =>
    .expr condition :: .body thenBranch :: Child.ofBody? elseBranch
  | while_ condition body _ => [.expr condition, .body body]
  | case_ subject whens elseBranch =>
    Child.ofOption subject ++ whens.flatMap WhenClause.children ++ Child.ofBody? elseBranch
  | begin_ body rescues elseBranch ensure =>
    .body body :: rescues.flatMap RescueClause.children ++ Child.ofBody? elseBranch ++
      Child.ofBody? ensure
  | return_ value => Child.ofOption value
  | lambda block => Child.ofBlock block
  | paren body => [.body body]

/-- The tree of an expression or body and everything inside it. -/
inductive Outline where
  | expression (value : Expr) (children : List Outline)
  | sequence (value : Body) (statements : List Outline)

namespace Outline

mutual

def ofExpr : Expr → Outline
  | ⟨node, span⟩ => .expression ⟨node, span⟩ (ofNode node)

def ofNode : Node → List Outline
  | .nil | .true | .false | .self | .literal _ | .const _ | .ident _ | .var _ _
  | .error => []
  | .array items => ofExprs items
  | .yield_ items => ofExprs items
  | .hash entries => ofEntries entries
  | .call receiver _ args block _ => ofExpr? receiver ++ ofArguments args ++ ofBlock? block
  | .classDef _ superclass body => ofExpr? superclass ++ [ofBody body]
  | .moduleDef _ body => [ofBody body]
  | .singletonClass target body => [ofExpr target, ofBody body]
  | .methodDef receiver _ params body => ofExpr? receiver ++ ofParams params ++ [ofBody body]
  | .assign target _ value => [ofExpr target, ofExpr value]
  | .binary left _ right => [ofExpr left, ofExpr right]
  | .unary _ operand => [ofExpr operand]
  | .splat value => [ofExpr value]
  | .if_ condition thenBranch elseBranch _ =>
    ofExpr condition :: ofBody thenBranch :: ofBody? elseBranch
  | .while_ condition body _ => [ofExpr condition, ofBody body]
  | .case_ subject whens elseBranch =>
    ofExpr? subject ++ ofWhens whens ++ ofBody? elseBranch
  | .begin_ body rescues elseBranch ensure =>
    ofBody body :: ofRescues rescues ++ ofBody? elseBranch ++ ofBody? ensure
  | .return_ value => ofExpr? value
  | .lambda block => ofBlock block
  | .paren body => [ofBody body]

def ofExprs : List Expr → List Outline
  | [] => []
  | expr :: exprs => ofExpr expr :: ofExprs exprs

def ofExpr? : Option Expr → List Outline
  | none => []
  | some expr => [ofExpr expr]

def ofBody : Body → Outline
  | ⟨statements, span⟩ => .sequence ⟨statements, span⟩ (ofExprs statements)

def ofBody? : Option Body → List Outline
  | none => []
  | some body => [ofBody body]

def ofEntries : List HashEntry → List Outline
  | [] => []
  | entry :: entries => ofEntry entry ++ ofEntries entries

def ofEntry : HashEntry → List Outline
  | .pair key value => [ofExpr key, ofExpr value]
  | .doubleSplat value => [ofExpr value]

def ofArguments : Arguments → List Outline
  | ⟨positional, blockArg, _⟩ => ofExprs positional ++ ofExpr? blockArg

def ofBlock : Block → List Outline
  | ⟨params, body, _⟩ => ofParams params ++ [ofBody body]

def ofBlock? : Option Block → List Outline
  | none => []
  | some block => ofBlock block

def ofParams : List Param → List Outline
  | [] => []
  | param :: params => ofParam param ++ ofParams params

def ofParam : Param → List Outline
  | ⟨_, _, default, _⟩ => ofExpr? default

def ofWhens : List WhenClause → List Outline
  | [] => []
  | clause :: clauses => ofWhen clause ++ ofWhens clauses

def ofWhen : WhenClause → List Outline
  | ⟨patterns, body⟩ => ofExprs patterns ++ [ofBody body]

def ofRescues : List RescueClause → List Outline
  | [] => []
  | clause :: clauses => ofRescue clause ++ ofRescues clauses

def ofRescue : RescueClause → List Outline
  | ⟨exceptions, _, body⟩ => ofExprs exceptions ++ [ofBody body]

end

def ofChild : Child → Outline
  | .expr value => ofExpr value
  | .body value => ofBody value

@[simp] theorem ofChild_expr (value : Expr) : ofChild (.expr value) = ofExpr value := rfl

@[simp] theorem ofChild_body (value : Body) : ofChild (.body value) = ofBody value := rfl

theorem ofExprs_eq_map (exprs : List Expr) : ofExprs exprs = exprs.map ofExpr := by
  induction exprs with
  | nil => simp [ofExprs]
  | cons expr exprs ih => simp [ofExprs, ih]

theorem map_ofChild_expr (exprs : List Expr) :
    (exprs.map Child.expr).map ofChild = ofExprs exprs := by
  simp [ofExprs_eq_map, Function.comp_def]

theorem ofExpr?_eq_map (value : Option Expr) :
    ofExpr? value = (Child.ofOption value).map ofChild := by
  cases value <;> simp [ofExpr?, Child.ofOption]

theorem ofBody?_eq_map (value : Option Body) :
    ofBody? value = (Child.ofBody? value).map ofChild := by
  cases value <;> simp [ofBody?, Child.ofBody?]

theorem ofParams_eq_map (params : List Param) :
    ofParams params = (Child.ofParams params).map ofChild := by
  induction params with
  | nil => simp [ofParams, Child.ofParams]
  | cons param params ih =>
    have head : ofParam param = (Child.ofOption param.default).map ofChild := by
      cases param
      simp [ofParam, ofExpr?_eq_map]
    simp [ofParams, ih, head, Child.ofParams]

theorem ofBlock_eq_map (block : Block) :
    ofBlock block = (Child.ofBlock block).map ofChild := by
  cases block
  simp [ofBlock, Child.ofBlock, ofParams_eq_map]

theorem ofEntries_eq_map (entries : List HashEntry) :
    ofEntries entries = (entries.flatMap HashEntry.children).map ofChild := by
  induction entries with
  | nil => simp [ofEntries]
  | cons entry entries ih => cases entry <;> simp [ofEntries, ofEntry, HashEntry.children, ih]

theorem ofWhens_eq_map (whens : List WhenClause) :
    ofWhens whens = (whens.flatMap WhenClause.children).map ofChild := by
  induction whens with
  | nil => simp [ofWhens]
  | cons clause clauses ih =>
    have head : ofWhen clause = clause.children.map ofChild := by
      cases clause
      simp only [ofWhen, WhenClause.children, List.map_append, map_ofChild_expr, List.map_cons,
        List.map_nil, ofChild_body]
    rw [ofWhens, ih, head, List.flatMap_cons, List.map_append]

theorem ofRescues_eq_map (rescues : List RescueClause) :
    ofRescues rescues = (rescues.flatMap RescueClause.children).map ofChild := by
  induction rescues with
  | nil => simp [ofRescues]
  | cons clause clauses ih =>
    have head : ofRescue clause = clause.children.map ofChild := by
      cases clause
      simp only [ofRescue, RescueClause.children, List.map_append, map_ofChild_expr, List.map_cons,
        List.map_nil, ofChild_body]
    rw [ofRescues, ih, head, List.flatMap_cons, List.map_append]

/-- The children in an outline are the outlines of the children. -/
theorem ofNode_eq_map (node : Node) : ofNode node = node.children.map ofChild := by
  cases node with
  | call receiver name args block safe =>
    have given : ofArguments args =
        (args.positional.map Child.expr ++ Child.ofOption args.blockArg).map ofChild := by
      cases args
      simp only [ofArguments, List.map_append, map_ofChild_expr, ofExpr?_eq_map]
    cases block <;>
      simp [ofNode, Node.children, given, ofExpr?_eq_map, ofBlock?, ofBlock_eq_map]
  | array items => simp only [ofNode, Node.children, map_ofChild_expr]
  | yield_ args => simp only [ofNode, Node.children, map_ofChild_expr]
  | case_ subject whens elseBranch =>
    simp only [ofNode, Node.children, ofExpr?_eq_map, ofWhens_eq_map, ofBody?_eq_map,
      List.map_append]
  | begin_ body rescues elseBranch ensure =>
    simp only [ofNode, Node.children, ofRescues_eq_map, ofBody?_eq_map, List.map_append,
      List.map_cons, ofChild_body]
  | _ =>
    simp [ofNode, Node.children, ofExpr?_eq_map, ofBody?_eq_map, ofEntries_eq_map,
      ofParams_eq_map, ofBlock_eq_map]

theorem ofExpr_eq (value : Expr) :
    ofExpr value = .expression value (value.node.children.map ofChild) := by
  cases value
  simp [ofExpr, ofNode_eq_map]

theorem ofBody_eq (value : Body) :
    ofBody value = .sequence value (value.statements.map ofExpr) := by
  cases value
  simp [ofBody, ofExprs_eq_map]

end Outline

end DeclaredMethods.Source
