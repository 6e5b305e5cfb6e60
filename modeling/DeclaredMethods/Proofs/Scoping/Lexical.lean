import DeclaredMethods.Proofs.Scoping.Closure

/-!
# Lexical scoping of type variables

Type parameters are in scope in the declaration or method type that declares them and nowhere else.
Each declaration is walked through with the type parameters of the declarations around it, which
gives every type that is written in it together with what is in scope there. In a declaration that
was read, every variable inside such a type is in scope at its place, and no bare name that is in
scope there was read as the name of a class, an interface or an alias.
-/

namespace DeclaredMethods.Signature

/-- A type that is written in a declaration, and the type parameters in scope there. -/
structure WrittenType where
  scope : List String
  type : TypeExpr

/-- The bounds of type parameters. Behind a parameter it is in scope, and so it is in its own
bound. -/
def TypeParam.writtenTypes (scope : List String) : List TypeParam → List WrittenType
  | [] => []
  | param :: params =>
    let scope := scope ++ [param.name]
    param.upperBound.toList.map (⟨scope, ·⟩) ++ TypeParam.writtenTypes scope params

/-- The arguments of a superclass, mixin or self type. -/
def Parent.writtenTypes (scope : List String) (parent : Parent) : List WrittenType :=
  parent.args.map (⟨scope, ·⟩)

/-- The types of a method, in which its own type parameters are in scope. -/
def MethodType.writtenTypes (scope : List String) (method : MethodType) : List WrittenType :=
  method.types.map (⟨scope ++ method.typeParams, ·⟩)

mutual

/-- The types that are written in a declaration, where the given type parameters are in scope. -/
def Declaration.writtenTypes (scope : List String) : Declaration → List WrittenType
  | .class_ _ typeParams superclass members =>
    let inner := scope ++ typeParams.map TypeParam.name
    TypeParam.writtenTypes scope typeParams ++
      superclass.toList.flatMap (Parent.writtenTypes inner) ++ Member.writtenTypesAll inner members
  | .module_ _ typeParams selfTypes members =>
    let inner := scope ++ typeParams.map TypeParam.name
    TypeParam.writtenTypes scope typeParams ++ selfTypes.flatMap (Parent.writtenTypes inner) ++
      Member.writtenTypesAll inner members
  | .interface _ typeParams members =>
    TypeParam.writtenTypes scope typeParams ++
      Member.writtenTypesAll (scope ++ typeParams.map TypeParam.name) members
  | .typeAlias _ typeParams type =>
    TypeParam.writtenTypes scope typeParams ++ [⟨scope ++ typeParams.map TypeParam.name, type⟩]
  | .classAlias .. => []

def Member.writtenTypesAll (scope : List String) : List Member → List WrittenType
  | [] => []
  | member :: members => Member.writtenTypes scope member ++ Member.writtenTypesAll scope members

def Member.writtenTypes (scope : List String) : Member → List WrittenType
  | .method _ _ overloads _ => overloads.flatMap (MethodType.writtenTypes scope)
  | .attribute _ _ type _ => [⟨scope, type⟩]
  | .alias_ .. => []
  | .include_ parent | .prepend parent | .extend parent => parent.writtenTypes scope
  | .declaration declaration => declaration.writtenTypes scope

end

/-- A name without a path that is not written from the root and has no arguments. -/
def TypeName.IsBare (name : TypeName) (args : List TypeExpr) : Prop :=
  name.path = [] ∧ name.absolute = false ∧ args = []

/-- A variable is in scope, and a bare name that is in scope is a variable. A proc declares no type
parameters, so the same ones are in scope inside it. -/
def TypeExpr.RespectsScope (scope : List String) : TypeExpr → Prop
  | .variable_ name => name ∈ scope
  | .instance_ name args | .interface name args | .alias_ name args =>
    name.IsBare args → name.name ∉ scope
  | .proc method => method.typeParams = []
  | .any | .base _ | .singleton _ | .optional _ | .union _ | .intersection _ | .tuple _ | .record _
  | .literal _ => True

/-- Every type inside a written one respects what is in scope there. -/
def WrittenType.Scoped (written : WrittenType) : Prop :=
  written.type.Every (TypeExpr.RespectsScope written.scope)

section Spelled

variable {tokens : TokenKind → Prop} {scope : List String}

/-- A bare name that is no variable is no parameter in scope. -/
theorem TypeName.not_mem_scope_of_isBare {name : TypeName} {args : List TypeExpr}
    (h : name.isVariable scope args = false) (hbare : name.IsBare args) : name.name ∉ scope := by
  obtain ⟨hpath, habsolute, hargs⟩ := hbare
  simpa [TypeName.isVariable, hpath, habsolute, hargs] using h

theorem TypeExpr.Spelled.scoped {type : TypeExpr} (h : type.Spelled tokens scope) :
    WrittenType.Scoped ⟨scope, type⟩ := by
  refine h.mono fun part hpart ↦ ?_
  cases part with
  | variable_ name => exact hpart.2
  | instance_ name args | interface name args | alias_ name args =>
    exact TypeName.not_mem_scope_of_isBare hpart.2
  | proc method => exact hpart.1
  | any | base | singleton | optional | union | intersection | tuple | record | literal => trivial

/-- The bound of a parameter sees those in front of it. -/
theorem TypeParam.SpelledAll.scoped {params : List TypeParam}
    (h : TypeParam.SpelledAll tokens scope params) :
    ∀ written ∈ TypeParam.writtenTypes scope params, written.Scoped := by
  induction params generalizing scope with
  | nil => exact List.forall_mem_nil _
  | cons param params ih =>
    rw [TypeParam.writtenTypes, List.forall_mem_append, List.forall_mem_map]
    exact ⟨fun bound hbound ↦ (h.1.2 bound (Option.mem_toList.1 hbound)).scoped, ih h.2⟩

theorem Parent.Spelled.scoped {parent : Parent} (h : parent.Spelled tokens scope) :
    ∀ written ∈ parent.writtenTypes scope, written.Scoped :=
  List.forall_mem_map.2 fun arg harg ↦ (h.args arg harg).scoped

theorem MethodType.Spelled.scoped {method : MethodType} (h : method.Spelled tokens scope) :
    ∀ written ∈ method.writtenTypes scope, written.Scoped :=
  List.forall_mem_map.2 fun type htype ↦ (h.types type htype).scoped

mutual

/-- One case for each kind of declaration: what was read with some type parameters in scope respects
them. -/
theorem Declaration.Spelled.scoped {scope : List String} :
    ∀ declaration : Declaration, declaration.Spelled tokens scope →
      ∀ written ∈ declaration.writtenTypes scope, written.Scoped
  | .class_ name typeParams superclass members, .class_ _ hparams hsuperclass hmembers => by
    rw [Declaration.writtenTypes, List.forall_mem_append, List.forall_mem_append,
      List.forall_mem_flatMap]
    refine ⟨⟨hparams.scoped, fun parent hparent ↦ ?_⟩, Member.Spelled.scopedAll members hmembers⟩
    exact (hsuperclass parent (Option.mem_toList.1 hparent)).scoped
  | .module_ name typeParams selfTypes members, .module_ _ hparams hselfTypes hmembers => by
    rw [Declaration.writtenTypes, List.forall_mem_append, List.forall_mem_append,
      List.forall_mem_flatMap]
    refine ⟨⟨hparams.scoped, fun parent hparent ↦ ?_⟩, Member.Spelled.scopedAll members hmembers⟩
    exact (hselfTypes parent hparent).scoped
  | .interface name typeParams members, .interface _ hparams hmembers => by
    rw [Declaration.writtenTypes, List.forall_mem_append]
    exact ⟨hparams.scoped, Member.Spelled.scopedAll members hmembers⟩
  | .typeAlias name typeParams type, .typeAlias _ hparams htype => by
    rw [Declaration.writtenTypes, List.forall_mem_append, List.forall_mem_singleton]
    exact ⟨hparams.scoped, htype.scoped⟩
  | .classAlias newName oldName isModule, _ => by
    rw [Declaration.writtenTypes]
    exact List.forall_mem_nil _

theorem Member.Spelled.scopedAll {scope : List String} :
    ∀ members : List Member, (∀ member ∈ members, member.Spelled tokens scope) →
      ∀ written ∈ Member.writtenTypesAll scope members, written.Scoped
  | [], _ => by
    rw [Member.writtenTypesAll]
    exact List.forall_mem_nil _
  | member :: members, hmembers => by
    obtain ⟨hmember, hmembers⟩ := List.forall_mem_cons.1 hmembers
    rw [Member.writtenTypesAll, List.forall_mem_append]
    exact ⟨Member.Spelled.scoped member hmember, Member.Spelled.scopedAll members hmembers⟩

/-- By recursion into nested declarations, each of which adds its own parameters. -/
theorem Member.Spelled.scoped {scope : List String} :
    ∀ member : Member, member.Spelled tokens scope →
      ∀ written ∈ member.writtenTypes scope, written.Scoped
  | .method name belonging overloads overloading, .method hoverloads => by
    rw [Member.writtenTypes, List.forall_mem_flatMap]
    exact fun overload hoverload ↦ (hoverloads overload hoverload).scoped
  | .attribute kind name type belonging, .attribute _ htype => by
    rw [Member.writtenTypes, List.forall_mem_singleton]
    exact htype.scoped
  | .alias_ newName oldName belonging, _ => by
    rw [Member.writtenTypes]
    exact List.forall_mem_nil _
  | .include_ parent, .include_ hparent => by
    rw [Member.writtenTypes]
    exact hparent.scoped
  | .prepend parent, .prepend hparent => by
    rw [Member.writtenTypes]
    exact hparent.scoped
  | .extend parent, .extend hparent => by
    rw [Member.writtenTypes]
    exact hparent.scoped
  | .declaration declaration, .declaration hdeclaration => by
    rw [Member.writtenTypes]
    exact Declaration.Spelled.scoped declaration hdeclaration

end

end Spelled

/-- In every signature text that is accepted, each type variable stands inside a declaration or
method type that declares it as a type parameter, and no bare name of a type parameter in scope was
read as the name of a type. -/
theorem parseSignature_lexically_scoped (source : String) (declarations : List Declaration)
    (h : parseSignature source = .ok declarations) :
    ∀ declaration ∈ declarations, ∀ written ∈ declaration.writtenTypes [], written.Scoped := by
  have hspelled : ∀ declaration ∈ declarations, declaration.Spelled AnyToken [] :=
    spelled_of_parseSignature trivial (fun _ _ ↦ trivial) h
  intro declaration hdeclaration
  exact Declaration.Spelled.scoped declaration (hspelled declaration hdeclaration)

/-- A generic class with a bound on its own parameter, a class inside it with a generic method, and
behind it a type with the name of the parameter, which is no variable there. -/
theorem parseSignature_lexically_scoped_of_nested :
    ∃ source declarations,
      source = "class Box[T < _Order[T]] class Lid[V] def top: [W] (T, W) -> V end " ++
        "include Each[T] end type pair[A] = A | T" ∧
      parseSignature source = .ok declarations ∧
      ((declarations.flatMap (Declaration.writtenTypes [])).map fun written ↦
        (written.scope, written.type.text, written.type.variable?)) =
        [(["T"], "_Order[T]", none), (["T", "V", "W"], "T", some "T"),
          (["T", "V", "W"], "W", some "W"), (["T", "V", "W"], "V", some "V"),
          (["T"], "T", some "T"), (["A"], "A | T", none)] ∧
      ∀ declaration ∈ declarations, ∀ written ∈ declaration.writtenTypes [], written.Scoped := by
  let source : String :=
    "class Box[T < _Order[T]] class Lid[V] def top: [W] (T, W) -> V end " ++
      "include Each[T] end type pair[A] = A | T"
  have hrun : (parseSignature source).toOption.map (fun declarations ↦
      (declarations.flatMap (Declaration.writtenTypes [])).map fun written ↦
        (written.scope, written.type.text, written.type.variable?)) =
      some [(["T"], "_Order[T]", none), (["T", "V", "W"], "T", some "T"),
        (["T", "V", "W"], "W", some "W"), (["T", "V", "W"], "V", some "V"),
        (["T"], "T", some "T"), (["A"], "A | T", none)] := by
    decide +kernel
  obtain ⟨declarations, hparse, htypes⟩ := exists_ok_of_map_toOption hrun
  exact ⟨source, declarations, rfl, hparse, htypes,
    parseSignature_lexically_scoped source declarations hparse⟩

end DeclaredMethods.Signature
