import DeclaredMethods.Source.Syntax
import DeclaredMethods.Text.Decimal
import DeclaredMethods.Text.Json

/-!
# Syntax trees as data

A syntax tree is dumped as JSON. A form without parts is its name; any other form is an object
with its name as the one field. How places and numbers are written is left to a `DumpStyle`.
-/

namespace DeclaredMethods.Source

open Text (Json)

/-- How the leaves of a dump are written. -/
structure DumpStyle where
  span : Span → Json
  int : Int → Json
  float : Float → Json

/-- Places as objects, and numbers as numbers. A number that is not finite is left out. -/
def DumpStyle.plain : DumpStyle where
  span place := .object [("start", .int place.start), ("end", .int place.stop)]
  int value := .int value
  float value :=
    if value.isFinite then .decimal (Text.floatText .dumped value) else .null

def VariableKind.label : VariableKind → String
  | instance_ => "Instance"
  | class_ => "Class"
  | global => "Global"

def ParamKind.label : ParamKind → String
  | required => "Required"
  | optional => "Optional"
  | rest => "Rest"
  | keyword => "Keyword"
  | keywordRest => "KeywordRest"
  | block => "Block"

def AssignOp.label : AssignOp → String
  | assign => "Assign"
  | add => "AddAssign"
  | sub => "SubAssign"
  | or => "OrAssign"
  | and => "AndAssign"

def BinaryOp.label : BinaryOp → String
  | add => "Add"
  | sub => "Sub"
  | mul => "Mul"
  | div => "Div"
  | mod => "Mod"
  | pow => "Pow"
  | eq => "Eq"
  | caseEq => "CaseEq"
  | ne => "Ne"
  | lt => "Lt"
  | gt => "Gt"
  | le => "Le"
  | ge => "Ge"
  | cmp => "Cmp"
  | matches_ => "Match"
  | shiftLeft => "Shl"
  | and => "And"
  | or => "Or"
  | range => "Range"
  | exclusiveRange => "ExclusiveRange"

def UnaryOp.label : UnaryOp → String
  | neg => "Neg"
  | not => "Not"

def Node.label : Node → String
  | nil => "Nil"
  | true => "True"
  | false => "False"
  | self => "SelfRef"
  | literal _ => "Literal"
  | array _ => "Array"
  | hash _ => "Hash"
  | const _ => "Const"
  | ident _ => "Ident"
  | var _ _ => "Variable"
  | call .. => "Call"
  | classDef .. => "Class"
  | moduleDef .. => "Module"
  | singletonClass .. => "SingletonClass"
  | methodDef .. => "Def"
  | assign .. => "Assign"
  | binary .. => "Binary"
  | unary .. => "Unary"
  | splat _ => "Splat"
  | if_ .. => "If"
  | while_ .. => "While"
  | case_ .. => "Case"
  | begin_ .. => "Begin"
  | return_ _ => "Return"
  | yield_ _ => "Yield"
  | lambda _ => "Lambda"
  | paren _ => "Paren"
  | error => "Error"

namespace DumpStyle

def spanned (style : DumpStyle) (node : Json) (place : Span) : Json :=
  .object [("node", node), ("span", style.span place)]

def tagged (label : String) (content : Json) : Json :=
  .object [(label, content)]

def literal (style : DumpStyle) : Literal → Json
  | .int value => tagged "Int" (style.int value)
  | .float value => tagged "Float" (style.float value)
  | .str value interpolated =>
    tagged "Str" (.object [("value", .str value), ("interpolated", .bool interpolated)])
  | .symbol name => tagged "Symbol" (.str name)

def constPath (path : ConstPath) : Json :=
  .object [("absolute", .bool path.absolute), ("segments", .strings path.segments)]

mutual

def expr (style : DumpStyle) : Expr → Json
  | ⟨node, span⟩ => style.spanned (style.node node) span

def exprs (style : DumpStyle) : List Expr → List Json
  | [] => []
  | value :: values => style.expr value :: style.exprs values

def expr? (style : DumpStyle) : Option Expr → Json
  | none => .null
  | some value => style.expr value

def body (style : DumpStyle) : Body → Json
  | ⟨statements, span⟩ =>
    .object [("statements", .array (style.exprs statements)), ("span", style.span span)]

def body? (style : DumpStyle) : Option Body → Json
  | none => .null
  | some value => style.body value

def entry (style : DumpStyle) : HashEntry → Json
  | .pair key value =>
    tagged "Pair" (.object [("key", style.expr key), ("value", style.expr value)])
  | .doubleSplat value => tagged "DoubleSplat" (style.expr value)

def entries (style : DumpStyle) : List HashEntry → List Json
  | [] => []
  | value :: values => style.entry value :: style.entries values

def arguments (style : DumpStyle) : Arguments → Json
  | ⟨positional, blockArg, parenthesized⟩ =>
    .object [("positional", .array (style.exprs positional)),
      ("block_arg", style.expr? blockArg), ("parenthesized", .bool parenthesized)]

def param (style : DumpStyle) : Param → Json
  | ⟨name, kind, default, span⟩ =>
    .object [("name", .ofOption .str name), ("kind", .str kind.label),
      ("default", style.expr? default), ("span", style.span span)]

def params (style : DumpStyle) : List Param → List Json
  | [] => []
  | value :: values => style.param value :: style.params values

def block (style : DumpStyle) : Block → Json
  | ⟨params, body, span⟩ =>
    .object [("params", .array (style.params params)), ("body", style.body body),
      ("span", style.span span)]

def block? (style : DumpStyle) : Option Block → Json
  | none => .null
  | some value => style.block value

def whenClause (style : DumpStyle) : WhenClause → Json
  | ⟨patterns, body⟩ =>
    .object [("patterns", .array (style.exprs patterns)), ("body", style.body body)]

def whenClauses (style : DumpStyle) : List WhenClause → List Json
  | [] => []
  | value :: values => style.whenClause value :: style.whenClauses values

def rescueClause (style : DumpStyle) : RescueClause → Json
  | ⟨exceptions, binding, body⟩ =>
    .object [("exceptions", .array (style.exprs exceptions)),
      ("binding", .ofOption .str binding), ("body", style.body body)]

def rescueClauses (style : DumpStyle) : List RescueClause → List Json
  | [] => []
  | value :: values => style.rescueClause value :: style.rescueClauses values

def node (style : DumpStyle) : Node → Json
  | .nil => .str "Nil"
  | .true => .str "True"
  | .false => .str "False"
  | .self => .str "SelfRef"
  | .error => .str "Error"
  | .literal value => tagged "Literal" (style.literal value)
  | .array items => tagged "Array" (.array (style.exprs items))
  | .hash pairs => tagged "Hash" (.array (style.entries pairs))
  | .const path => tagged "Const" (constPath path)
  | .ident name => tagged "Ident" (.str name)
  | .var kind name =>
    tagged "Variable" (.object [("kind", .str kind.label), ("name", .str name)])
  | .call receiver name args block safeNavigation =>
    tagged "Call" (.object [("receiver", style.expr? receiver),
      ("name", style.spanned (.str name.node) name.span), ("args", style.arguments args),
      ("block", style.block? block), ("safe_navigation", .bool safeNavigation)])
  | .classDef name superclass body =>
    tagged "Class" (.object [("name", style.spanned (constPath name.node) name.span),
      ("superclass", style.expr? superclass), ("body", style.body body)])
  | .moduleDef name body =>
    tagged "Module" (.object [("name", style.spanned (constPath name.node) name.span),
      ("body", style.body body)])
  | .singletonClass target body =>
    tagged "SingletonClass" (.object [("target", style.expr target), ("body", style.body body)])
  | .methodDef receiver name params body =>
    tagged "Def" (.object [("receiver", style.expr? receiver),
      ("name", style.spanned (.str name.node) name.span),
      ("params", .array (style.params params)), ("body", style.body body)])
  | .assign target op value =>
    tagged "Assign" (.object [("target", style.expr target), ("op", .str op.label),
      ("value", style.expr value)])
  | .binary left op right =>
    tagged "Binary" (.object [("left", style.expr left),
      ("op", style.spanned (.str op.node.label) op.span), ("right", style.expr right)])
  | .unary op operand =>
    tagged "Unary" (.object [("op", style.spanned (.str op.node.label) op.span),
      ("operand", style.expr operand)])
  | .splat value => tagged "Splat" (style.expr value)
  | .if_ condition thenBranch elseBranch negated =>
    tagged "If" (.object [("condition", style.expr condition),
      ("then_branch", style.body thenBranch), ("else_branch", style.body? elseBranch),
      ("negated", .bool negated)])
  | .while_ condition body negated =>
    tagged "While" (.object [("condition", style.expr condition), ("body", style.body body),
      ("negated", .bool negated)])
  | .case_ subject whens elseBranch =>
    tagged "Case" (.object [("subject", style.expr? subject),
      ("whens", .array (style.whenClauses whens)), ("else_branch", style.body? elseBranch)])
  | .begin_ body rescues elseBranch ensure =>
    tagged "Begin" (.object [("body", style.body body),
      ("rescues", .array (style.rescueClauses rescues)),
      ("else_branch", style.body? elseBranch), ("ensure", style.body? ensure)])
  | .return_ value => tagged "Return" (style.expr? value)
  | .yield_ args => tagged "Yield" (.array (style.exprs args))
  | .lambda block => tagged "Lambda" (style.block block)
  | .paren body => tagged "Paren" (style.body body)

end

end DumpStyle

end DeclaredMethods.Source
