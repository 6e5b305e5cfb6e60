import DeclaredMethods.Namespace
import DeclaredMethods.Span

/-!
# Syntax trees of class bodies

Every statement is an expression, and every expression knows its place in the source. Statement
sequences are bodies with a place of their own, since the visibility of methods is a matter of
the body they stand in.
-/

namespace DeclaredMethods.Source

inductive Literal where
  | int (value : Int)
  | float (value : Float)
  | str (value : String) (interpolated : Bool)
  | symbol (name : String)

inductive VariableKind where
  | instance_
  | class_
  | global
deriving DecidableEq

inductive ParamKind where
  | required
  | optional
  | rest
  | keyword
  | keywordRest
  | block
deriving DecidableEq

inductive AssignOp where
  | assign
  | add
  | sub
  | or
  | and
deriving DecidableEq

/-- Binary operators. The words `and` and `or` are the same operators as their signs. -/
inductive BinaryOp where
  | add
  | sub
  | mul
  | div
  | mod
  | pow
  | eq
  | caseEq
  | ne
  | lt
  | gt
  | le
  | ge
  | cmp
  | matches_
  | shiftLeft
  | and
  | or
  | range
  | exclusiveRange
deriving DecidableEq

inductive UnaryOp where
  | neg
  | not
deriving DecidableEq

mutual

/-- An expression and its place. -/
structure Expr where
  node : Node
  span : Span

/-- The forms of expressions. -/
inductive Node where
  | nil
  | true
  | false
  | self
  | literal (value : Literal)
  | array (items : List Expr)
  /-- A hash literal, or the pairs at the end of an argument list. -/
  | hash (entries : List HashEntry)
  | const (path : ConstPath)
  /-- A name that stands for a local variable. -/
  | ident (name : String)
  | var (kind : VariableKind) (name : String)
  | call (receiver : Option Expr) (name : Spanned String) (args : Arguments)
      (block : Option Block) (safeNavigation : Bool)
  | classDef (name : Spanned ConstPath) (superclass : Option Expr) (body : Body)
  | moduleDef (name : Spanned ConstPath) (body : Body)
  | singletonClass (target : Expr) (body : Body)
  | methodDef (receiver : Option Expr) (name : Spanned String) (params : List Param)
      (body : Body)
  | assign (target : Expr) (op : AssignOp) (value : Expr)
  | binary (left : Expr) (op : Spanned BinaryOp) (right : Expr)
  | unary (op : Spanned UnaryOp) (operand : Expr)
  | splat (value : Expr)
  /-- A conditional; `negated` marks `unless`. -/
  | if_ (condition : Expr) (thenBranch : Body) (elseBranch : Option Body) (negated : Bool)
  /-- A loop; `negated` marks `until`. -/
  | while_ (condition : Expr) (body : Body) (negated : Bool)
  | case_ (subject : Option Expr) (whens : List WhenClause) (elseBranch : Option Body)
  | begin_ (body : Body) (rescues : List RescueClause) (elseBranch ensure : Option Body)
  | return_ (value : Option Expr)
  | yield_ (args : List Expr)
  | lambda (block : Block)
  | paren (body : Body)
  /-- What error recovery skipped. -/
  | error

/-- A sequence of statements. -/
structure Body where
  statements : List Expr
  span : Span

inductive HashEntry where
  | pair (key value : Expr)
  | doubleSplat (value : Expr)

/-- The arguments of a call. Pairs written without braces are one hash among the positional
arguments. -/
structure Arguments where
  positional : List Expr
  /-- The argument behind `&`. -/
  blockArg : Option Expr
  parenthesized : Bool

structure Block where
  params : List Param
  body : Body
  span : Span

structure Param where
  /-- Anonymous `*`, `**` and `&` have no name. -/
  name : Option String
  kind : ParamKind
  default : Option Expr
  span : Span

structure WhenClause where
  patterns : List Expr
  body : Body

structure RescueClause where
  exceptions : List Expr
  binding : Option String
  body : Body

end

structure SourceFile where
  body : Body
  span : Span

namespace Arguments

def none : Arguments := ⟨[], .none, false⟩

def isEmpty (args : Arguments) : Bool :=
  args.positional.isEmpty && args.blockArg.isNone

/-- Every argument slot in order; the last one is the block argument, which may be missing. -/
def slots (args : Arguments) : List (Option Expr) :=
  args.positional.map some ++ [args.blockArg]

end Arguments

/-- The body with the single statement `expr`, at the same place. -/
def Body.single (expr : Expr) : Body :=
  ⟨[expr], expr.span⟩

/-- Whether an expression may stand on the left of an assignment. -/
def Node.isAssignable : Node → Bool
  | ident _ | var _ _ | const _ | splat _ => .true
  | call _ name args block _ =>
    block.isNone && ((args.isEmpty && !args.parenthesized) || name.node == "[]")
  | _ => .false

end DeclaredMethods.Source
