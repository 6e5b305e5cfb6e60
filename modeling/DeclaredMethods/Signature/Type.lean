import DeclaredMethods.Signature.TypeName

/-!
# Types

The types that signatures are made of, and the types of methods: parameters, a block and what is
returned.
-/

namespace DeclaredMethods.Signature

inductive BaseType where
  | bool
  | void
  | nil
  | top
  | bottom
  | self
  | instance_
  | class_
  | boolish
deriving DecidableEq

namespace BaseType

def keyword : BaseType → String
  | bool => "bool"
  | void => "void"
  | nil => "nil"
  | top => "top"
  | bottom => "bot"
  | self => "self"
  | instance_ => "instance"
  | class_ => "class"
  | boolish => "boolish"

def all : List BaseType :=
  [bool, void, nil, top, bottom, self, instance_, class_, boolish]

def ofKeyword? (word : String) : Option BaseType :=
  all.find? fun base => base.keyword == word

end BaseType

inductive LiteralType where
  | int (value : Int)
  | str (value : String)
  | symbol (name : String)
  | bool (value : Bool)
deriving DecidableEq

mutual

inductive TypeExpr where
  /-- The type `untyped`. -/
  | any
  | base (base : BaseType)
  | instance_ (name : TypeName) (args : List TypeExpr)
  | singleton (name : TypeName)
  | interface (name : TypeName) (args : List TypeExpr)
  | alias_ (name : TypeName) (args : List TypeExpr)
  | optional (inner : TypeExpr)
  | union (members : List TypeExpr)
  | intersection (members : List TypeExpr)
  | tuple (items : List TypeExpr)
  | record (fields : List (String × TypeExpr))
  | literal (value : LiteralType)
  /-- A type parameter in scope. -/
  | variable_ (name : String)
  | proc (method : MethodType)

structure Param where
  type : TypeExpr
  name : Option String

structure Params where
  required : List Param
  optional : List Param
  rest : Option Param
  /-- Required parameters behind an optional or rest parameter. -/
  trailing : List Param
  requiredKeywords : List (String × Param)
  optionalKeywords : List (String × Param)
  restKeywords : Option Param

structure BlockType where
  params : Params
  returnType : TypeExpr
  required : Bool

structure MethodType where
  typeParams : List String
  params : Params
  block : Option BlockType
  returnType : TypeExpr

end

namespace TypeExpr

def isAny : TypeExpr → Bool
  | any => true
  | _ => false

def typeName? : TypeExpr → Option TypeName
  | instance_ name _ | singleton name | interface name _ | alias_ name _ => some name
  | _ => none

/-- Whether a type is written in parentheses in front of a question mark and as what a method
returns. -/
def isCompound : TypeExpr → Bool
  | union _ | intersection _ | proc _ => true
  | _ => false

def isUnion : TypeExpr → Bool
  | union _ => true
  | _ => false

def ofName (name : TypeName) (args : List TypeExpr) : TypeExpr :=
  match name.kind with
  | .class_ => .instance_ name args
  | .interface => .interface name args
  | .alias_ => .alias_ name args

end TypeExpr

namespace Params

def none : Params := ⟨[], [], .none, [], [], [], .none⟩

def single (param : Param) : Params :=
  { none with required := [param] }

def isEmpty (params : Params) : Bool :=
  params.required.isEmpty && params.optional.isEmpty && params.rest.isNone &&
    params.trailing.isEmpty && params.requiredKeywords.isEmpty &&
    params.optionalKeywords.isEmpty && params.restKeywords.isNone

end Params

namespace MethodType

def returning (type : TypeExpr) : MethodType :=
  ⟨[], .none, .none, type⟩

/-- A method that takes a value and returns one of the same type, such as a writer. -/
def writing (param : Param) (type : TypeExpr) : MethodType :=
  ⟨[], .single param, .none, type⟩

end MethodType

end DeclaredMethods.Signature
