import DeclaredMethods.Signature.Type
import DeclaredMethods.Text.Quoted

/-!
# Writing types

Types and method types are written in one form each. Parentheses stand only where the type would
otherwise be read differently: unions, intersections and procs in front of a question mark and as
what a method returns, and unions inside intersections.
-/

namespace DeclaredMethods.Signature

def LiteralType.text : LiteralType → String
  | int value => toString value
  | str value => Text.quote value
  | symbol name => ":" ++ name
  | bool value => if value then "true" else "false"

def parenthesizedIf (needed : Bool) (text : String) : String :=
  if needed then "(" ++ text ++ ")" else text

/-- The arguments of a named type in brackets, if there are any. -/
def bracketed (args : List String) : String :=
  if args.isEmpty then "" else "[" ++ ", ".intercalate args ++ "]"

mutual

def TypeExpr.text : TypeExpr → String
  | .any => "untyped"
  | .base base => base.keyword
  | .instance_ name args => name.text ++ bracketed (TypeExpr.texts args)
  | .singleton name => "singleton(" ++ name.text ++ ")"
  | .interface name args => name.text ++ bracketed (TypeExpr.texts args)
  | .alias_ name args => name.text ++ bracketed (TypeExpr.texts args)
  | .optional inner => parenthesizedIf inner.isCompound inner.text ++ "?"
  | .union members => " | ".intercalate (TypeExpr.texts members)
  | .intersection members => " & ".intercalate (TypeExpr.memberTexts members)
  | .tuple items =>
    if items.isEmpty then "[ ]" else "[" ++ ", ".intercalate (TypeExpr.texts items) ++ "]"
  | .record fields =>
    if fields.isEmpty then "\x7b \x7d"
    else "\x7b " ++ ", ".intercalate (TypeExpr.fieldTexts fields) ++ " \x7d"
  | .literal value => value.text
  | .variable_ name => name
  | .proc method => "^" ++ method.text

def TypeExpr.texts : List TypeExpr → List String
  | [] => []
  | type :: types => type.text :: TypeExpr.texts types

def TypeExpr.memberTexts : List TypeExpr → List String
  | [] => []
  | type :: types => parenthesizedIf type.isUnion type.text :: TypeExpr.memberTexts types

def TypeExpr.fieldTexts : List (String × TypeExpr) → List String
  | [] => []
  | field :: fields => TypeExpr.fieldText field :: TypeExpr.fieldTexts fields

def TypeExpr.fieldText : String × TypeExpr → String
  | (key, type) => key ++ ": " ++ type.text

def Param.text : Param → String
  | ⟨type, none⟩ => type.text
  | ⟨type, some name⟩ => type.text ++ " " ++ name

def Param.texts (mark : String) : List Param → List String
  | [] => []
  | param :: params => (mark ++ param.text) :: Param.texts mark params

def Param.text? (mark : String) : Option Param → List String
  | none => []
  | some param => [mark ++ param.text]

def Param.keywordTexts (mark : String) : List (String × Param) → List String
  | [] => []
  | entry :: entries => (mark ++ Param.keywordText entry) :: Param.keywordTexts mark entries

def Param.keywordText : String × Param → String
  | (key, param) => key ++ ": " ++ param.text

/-- The text of a parameter list without its parentheses. -/
def Params.text : Params → String
  | ⟨required, optional, rest, trailing, requiredKeywords, optionalKeywords, restKeywords⟩ =>
    ", ".intercalate
      (Param.texts "" required ++ Param.texts "?" optional ++ Param.text? "*" rest ++
        Param.texts "" trailing ++ Param.keywordTexts "" requiredKeywords ++
        Param.keywordTexts "?" optionalKeywords ++ Param.text? "**" restKeywords)

def BlockType.text : BlockType → String
  | ⟨params, returnType, required⟩ =>
    (if required then "" else "?") ++ "\x7b (" ++ params.text ++ ") -> " ++
      parenthesizedIf returnType.isCompound returnType.text ++ " \x7d"

def BlockType.text? : Option BlockType → String
  | none => ""
  | some block => " " ++ block.text

def MethodType.text : MethodType → String
  | ⟨typeParams, params, block, returnType⟩ =>
    (if typeParams.isEmpty then "" else "[" ++ ", ".intercalate typeParams ++ "] ") ++
      "(" ++ params.text ++ ")" ++ BlockType.text? block ++ " -> " ++
      parenthesizedIf returnType.isCompound returnType.text

end

end DeclaredMethods.Signature
