import DeclaredMethods.Proofs.Spelling.Declarations
import DeclaredMethods.Proofs.Validity.Plain

/-!
# Plain files declare plain members

A signature file is plain if its words are words of letters, digits and underscores, its symbols are
written without quotes, its strings are printable, and its records have labels as keys.

What a plain file declares is plain: the classes and modules are named by words, and the types of
their methods and attributes and the arguments of their parents are plain. Nothing is asked of names
for types and classes, whose types never become part of a method.
-/

namespace DeclaredMethods.Signature

def TokenKind.isPlain : TokenKind → Bool
  | .ident word => Signature.isWord word.toList
  | .symbol name => isSymbolName name.toList
  | .str value => value.toList.all isPrintable
  | .int value => integerLimits.1 ≤ value && value ≤ integerLimits.2
  | .mark found => found != .fatArrow
  | _ => true

def TokenKind.Plain (kind : TokenKind) : Prop :=
  kind.isPlain = true

/-- A name spelled with plain tokens consists of words. -/
theorem TypeName.Spelled.hasWords {name : TypeName} (h : name.Spelled TokenKind.Plain) :
    name.hasWords = true :=
  List.all_eq_true.2 h

theorem LiteralType.Spelled.fits {value : LiteralType} (h : value.Spelled TokenKind.Plain) :
    value.fits = true := by
  cases value with
  | bool value => rfl
  | _ => exact h

theorem Role.Spelled.fits {role : Role} (h : role.Spelled TokenKind.Plain) : role.fits = true := by
  cases role with
  | keyword key | optionalKeyword key => exact h
  | _ => rfl

theorem Params.Spelled.fits {params : Params} (h : params.Spelled TokenKind.Plain) :
    params.fits = true := by
  rw [Params.fits, Bool.and_eq_true, List.all_eq_true]
  refine ⟨fun entry hentry ↦ ?_, h.trailing⟩
  rw [Bool.and_eq_true, Option.all_eq_true]
  exact ⟨(h.entries entry hentry).1.fits, (h.entries entry hentry).2⟩

theorem MethodType.ParamsSpelled.fit {method : MethodType}
    (h : method.ParamsSpelled TokenKind.Plain) : method.paramsFit = true := by
  rw [MethodType.paramsFit, Bool.and_eq_true, Option.all_eq_true]
  exact ⟨h.1.fits, fun block hblock ↦ (h.2 block hblock).fits⟩

/-- Names and literals are plain if the tokens they were read from are. -/
theorem TypeExpr.SpelledHere.isPlain {scope : List String} {type : TypeExpr}
    (h : type.SpelledHere TokenKind.Plain scope) : type.isPlain = true := by
  cases type with
  | any | base | tuple | optional => rfl
  | instance_ name | interface name | alias_ name => exact h.1.hasWords
  | singleton name => exact TypeName.Spelled.hasWords h
  | union members | intersection members => exact decide_eq_true h
  | record fields =>
    -- No plain token is an arrow, so every key is a label.
    exact List.all_eq_true.2 fun field hfield ↦ (h field hfield).resolve_right Bool.false_ne_true
  | literal value => exact LiteralType.Spelled.fits h
  | variable_ name => exact h.1
  | proc method =>
    rw [TypeExpr.isPlain, h.1, h.2.fit]
    rfl

/-- Types that are spelled with plain tokens are plain. -/
theorem TypeExpr.Spelled.plain {scope : List String} {type : TypeExpr}
    (h : type.Spelled TokenKind.Plain scope) : type.Plain :=
  h.mono fun _ ↦ TypeExpr.SpelledHere.isPlain

theorem MethodType.Spelled.plain {scope : List String} {method : MethodType}
    (h : method.Spelled TokenKind.Plain scope) : method.Plain :=
  ⟨h.typeParams, h.params.fit, fun type htype ↦ (h.types type htype).plain⟩

def Parent.Plain (parent : Parent) : Prop :=
  ∀ arg ∈ parent.args, arg.Plain

mutual

/-- A declaration whose name is made of words and whose parts are plain. -/
inductive Declaration.Plain : Declaration → Prop
  | class_ {name : TypeName} {typeParams : List TypeParam} {superclass : Option Parent}
      {members : List Member} (hname : name.hasWords = true)
      (hsuperclass : ∀ parent ∈ superclass, parent.Plain)
      (hmembers : ∀ member ∈ members, Member.Plain member) :
      Declaration.Plain (.class_ name typeParams superclass members)
  | module_ {name : TypeName} {typeParams : List TypeParam} {selfTypes : List Parent}
      {members : List Member} (hname : name.hasWords = true)
      (hmembers : ∀ member ∈ members, Member.Plain member) :
      Declaration.Plain (.module_ name typeParams selfTypes members)
  | interface {name : TypeName} {typeParams : List TypeParam} {members : List Member}
      (hmembers : ∀ member ∈ members, Member.Plain member) :
      Declaration.Plain (.interface name typeParams members)
  | typeAlias {name : TypeName} {typeParams : List TypeParam} {type : TypeExpr} :
      Declaration.Plain (.typeAlias name typeParams type)
  | classAlias {newName oldName : TypeName} {isModule : Bool} :
      Declaration.Plain (.classAlias newName oldName isModule)

inductive Member.Plain : Member → Prop
  | method {name : String} {scope : MemberScope} {overloads : List MethodType}
      {overloading : Bool} (hoverloads : ∀ overload ∈ overloads, overload.Plain) :
      Member.Plain (.method name scope overloads overloading)
  | attribute {kind : AttributeKind} {name : String} {type : TypeExpr} {scope : MemberScope}
      (hname : isWord name.toList = true) (htype : type.Plain) :
      Member.Plain (.attribute kind name type scope)
  | alias_ {newName oldName : String} {scope : MemberScope} :
      Member.Plain (.alias_ newName oldName scope)
  | include_ {parent : Parent} (hparent : parent.Plain) : Member.Plain (.include_ parent)
  | prepend {parent : Parent} (hparent : parent.Plain) : Member.Plain (.prepend parent)
  | extend {parent : Parent} : Member.Plain (.extend parent)
  | declaration {declaration : Declaration} (hdeclaration : declaration.Plain) :
      Member.Plain (.declaration declaration)

end

theorem Parent.Spelled.plain {scope : List String} {parent : Parent}
    (h : parent.Spelled TokenKind.Plain scope) : parent.Plain :=
  fun arg harg ↦ (h.args arg harg).plain

mutual

/-- Declarations that are spelled with plain tokens are plain. -/
theorem Declaration.Spelled.plain {scope : List String} :
    ∀ {declaration : Declaration}, declaration.Spelled TokenKind.Plain scope → declaration.Plain
  | .class_ .., .class_ hname _ hsuperclass hmembers =>
    .class_ hname.hasWords (fun parent hparent ↦ (hsuperclass parent hparent).plain)
      fun member hmember ↦ (hmembers member hmember).plain
  | .module_ .., .module_ hname _ _ hmembers =>
    .module_ hname.hasWords fun member hmember ↦ (hmembers member hmember).plain
  | .interface .., .interface _ _ hmembers =>
    .interface fun member hmember ↦ (hmembers member hmember).plain
  | .typeAlias .., _ => .typeAlias
  | .classAlias .., _ => .classAlias

/-- By recursion into nested declarations. -/
theorem Member.Spelled.plain {scope : List String} :
    ∀ {member : Member}, member.Spelled TokenKind.Plain scope → member.Plain
  | .method .., .method hoverloads =>
    .method fun overload hoverload ↦ (hoverloads overload hoverload).plain
  | .attribute .., .attribute hname htype => .attribute hname htype.plain
  | .alias_ .., _ => .alias_
  | .include_ _, .include_ hparent => .include_ hparent.plain
  | .prepend _, .prepend hparent => .prepend hparent.plain
  | .extend _, _ => .extend
  | .declaration _, .declaration hdeclaration => .declaration hdeclaration.plain

end

/-- Whether all tokens of a text are written in plain form. -/
def isPlainSource (source : String) : Bool :=
  (validTokens (scan source)).all fun token ↦ token.kind.isPlain

/-- What a plain text declares is plain. -/
theorem plain_of_parseSignature {source : String} {declarations : List Declaration}
    (hplain : isPlainSource source = true) (h : parseSignature source = .ok declarations) :
    ∀ declaration ∈ declarations, declaration.Plain := by
  have hspelled : ∀ declaration ∈ declarations, declaration.Spelled TokenKind.Plain [] :=
    spelled_of_parseSignature rfl (List.all_eq_true.1 hplain) h
  exact fun declaration hdeclaration ↦ (hspelled declaration hdeclaration).plain

end DeclaredMethods.Signature
