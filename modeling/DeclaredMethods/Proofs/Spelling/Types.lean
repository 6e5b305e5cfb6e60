import DeclaredMethods.Proofs.Document.Following
import DeclaredMethods.Proofs.Steps.Triples
import DeclaredMethods.Proofs.Validity.Rebuilding
import DeclaredMethods.Signature.Parser

/-!
# How types that were read are spelled

Everything in a type that was read comes from a token: its words from identifiers and its literals
from literals. A bare name became a variable exactly if it was among the type parameters in scope.
So a condition on all tokens of a text is a condition on all types that are read from it.

A reading `Yields` a condition on values if, from a cursor whose tokens meet a condition, all values
it can return meet the other one and such a cursor is left.
-/

namespace DeclaredMethods.Signature

/-- A cursor in front of tokens that meet a condition, which the end meets as well. -/
structure Cursor.Meets (tokens : TokenKind → Prop) (cursor : Cursor) : Prop where
  eof : tokens .eof
  upcoming : ∀ token ∈ cursor.upcoming, tokens token.kind

namespace Cursor.Meets

variable {tokens : TokenKind → Prop} {cursor : Cursor}

theorem current (h : cursor.Meets tokens) : tokens cursor.current.kind := by
  unfold Cursor.current
  cases hupcoming : cursor.upcoming with
  | nil => exact h.eof
  | cons token rest => exact h.upcoming token (hupcoming ▸ List.mem_cons_self)

theorem advance (h : cursor.Meets tokens) : cursor.advance.Meets tokens :=
  ⟨h.eof, fun token htoken ↦ h.upcoming token (List.mem_of_mem_tail htoken)⟩

end Cursor.Meets

theorem forall_mem_snoc {α : Type} {P : α → Prop} {items : List α} {item : α}
    (h : ∀ other ∈ items, P other) (hitem : P item) : ∀ other ∈ items ++ [item], P other :=
  List.forall_mem_append.2 ⟨h, List.forall_mem_singleton.2 hitem⟩

theorem forall_mem_none {α : Type} (P : α → Prop) : ∀ other ∈ (none : Option α), P other :=
  fun _ h ↦ absurd h (Option.not_mem_none _)

theorem forall_mem_some {α : Type} {P : α → Prop} {item : α} (h : P item) :
    ∀ other ∈ some item, P other := by
  rintro _ ⟨⟩
  exact h

/-- From a cursor whose tokens meet a condition, all values that a reading can return meet another
one, and a cursor of the same sort is left. -/
abbrev Yields {α : Type} (tokens : TokenKind → Prop) (reading : Parse α) (post : α → Prop) : Prop :=
  Preserves (Cursor.Meets tokens) reading post

variable {tokens : TokenKind → Prop}

/-- A step that fails promises anything. -/
theorem yields_fail {α : Type} {post : α → Prop} (expected : String) :
    Yields tokens (Parse.fail expected) post :=
  fun _ _ ↦ .inr ⟨trivial, fun _ ↦ nofun⟩

theorem yields_advance : Yields tokens Parse.advance fun _ ↦ True :=
  .of_modify fun _ hcursor ↦ hcursor.advance

theorem yields_currentKind : Yields tokens Parse.currentKind tokens :=
  Preserves.get.bind fun _ hcursor ↦ .pure hcursor.current

theorem yields_eat (mark : Mark) : Yields tokens (Parse.eat mark) fun _ ↦ True :=
  Preserves.get.bind fun _ _ ↦ .ite (fun _ ↦ yields_advance.bind fun _ _ ↦ .pure trivial)
    fun _ ↦ .pure trivial

theorem yields_eatWord (word : String) : Yields tokens (Parse.eatWord word) fun _ ↦ True :=
  Preserves.get.bind fun _ _ ↦ .ite (fun _ ↦ yields_advance.bind fun _ _ ↦ .pure trivial)
    fun _ ↦ .pure trivial

/-- A mark that is expected is one of the tokens. -/
theorem yields_expect (mark : Mark) (expected : String) :
    Yields tokens (Parse.expect mark expected) fun _ ↦ tokens (.mark mark) := by
  refine Preserves.get.bind fun cursor hcursor ↦ .ite (fun hmark ↦ ?_) fun _ ↦ yields_fail expected
  have hfound := hcursor.current
  rw [Cursor.atMark] at hmark
  rw [eq_of_isMark hmark] at hfound
  exact yields_advance.mono fun _ _ ↦ hfound

/-- A name is the text of the token it was read from. -/
theorem yields_ident (expected : String) :
    Yields tokens (Parse.ident expected) fun name ↦ tokens (.ident name) := by
  refine yields_currentKind.bind fun kind hkind ↦ ?_
  cases kind with
  | ident name => exact yields_advance.bind fun _ _ ↦ .pure hkind
  | _ => exact yields_fail expected

section Loops

variable {α : Type}

/-- A loop keeps what each round keeps. -/
theorem yields_iterate (invariant : α → Prop) {step : α → Parse (Round α)} {init : α}
    (hinit : invariant init)
    (hstep : ∀ value, invariant value →
      Yields tokens (step value) fun round ↦ invariant round.value) :
    Yields tokens (Parse.iterate step init) invariant :=
  Preserves.get.bind fun _ _ ↦ .iterateUpTo hinit hstep _

/-- Items behind a mark are added to a list of items. -/
theorem yields_whileMark {item : Parse α} {post : α → Prop} (mark : Mark)
    (hitem : Yields tokens item post) {items : List α} (hitems : ∀ value ∈ items, post value) :
    Yields tokens (Parse.whileMark mark item items) fun values ↦
      items.length ≤ values.length ∧ ∀ value ∈ values, post value := by
  refine yields_iterate _ ⟨Nat.le_refl _, hitems⟩ ?_
  intro before hbefore
  refine (yields_eat mark).bind fun found _ ↦ .ite (fun _ ↦ ?_) fun _ ↦ .pure hbefore
  refine hitem.bind fun value hvalue ↦ .pure ⟨?_, forall_mem_snoc hbefore.2 hvalue⟩
  exact Nat.le_trans hbefore.1 (List.prefix_append _ _).length_le

theorem yields_commaSeparated {item : Parse α} {post : α → Prop}
    (hitem : Yields tokens item post) :
    Yields tokens (Parse.commaSeparated item) fun values ↦ ∀ value ∈ values, post value :=
  hitem.bind fun _ hvalue ↦
    (yields_whileMark .comma hitem (List.forall_mem_singleton.2 hvalue)).mono fun _ h ↦ h.2

theorem yields_itemsUntil (invariant : α → Prop) {add : α → Parse α} {init : α} (close : Mark)
    (hinit : invariant init)
    (hadd : ∀ value, invariant value → Yields tokens (add value) invariant) :
    Yields tokens (Parse.itemsUntil close add init) invariant := by
  apply yields_iterate invariant hinit
  intro before hbefore
  refine Preserves.get.bind fun _ _ ↦ .ite (fun _ ↦ .pure hbefore) fun _ ↦ ?_
  refine (hadd before hbefore).bind fun value hvalue ↦ ?_
  exact (yields_eat .comma).bind fun _ _ ↦ .ite (fun _ ↦ .pure hvalue) fun _ ↦ .pure hvalue

end Loops

/-! ## Spelled types -/

/-- A type name whose segments are identifiers. -/
def TypeName.Spelled (tokens : TokenKind → Prop) (name : TypeName) : Prop :=
  ∀ segment ∈ name.segments, tokens (.ident segment)

def TypeName.isVariable (name : TypeName) (scope : List String) (args : List TypeExpr) : Bool :=
  !name.absolute && name.path.isEmpty && args.isEmpty && scope.contains name.name

def LiteralType.Spelled (tokens : TokenKind → Prop) : LiteralType → Prop
  | int value => tokens (.int value)
  | str value => tokens (.str value)
  | symbol name => tokens (.symbol name)
  | bool _ => True

def Role.Spelled (tokens : TokenKind → Prop) : Role → Prop
  | keyword key | optionalKeyword key => tokens (.ident key)
  | _ => True

/-- Parameters whose keywords and names are identifiers, with required ones behind others only where
they can be told. -/
structure Params.Spelled (tokens : TokenKind → Prop) (params : Params) : Prop where
  entries : ∀ entry ∈ params.entries,
    entry.1.Spelled tokens ∧ ∀ name ∈ entry.2.name, tokens (.ident name)
  trailing : (params.trailing.isEmpty || params.rest.isSome || !params.optional.isEmpty) = true

def MethodType.ParamsSpelled (tokens : TokenKind → Prop) (method : MethodType) : Prop :=
  method.params.Spelled tokens ∧ ∀ block ∈ method.block, block.params.Spelled tokens

/-- What a type has besides its parts is spelled with tokens, where the given type parameters are in
scope. -/
def TypeExpr.SpelledHere (tokens : TokenKind → Prop) (scope : List String) : TypeExpr → Prop
  | .any | .base _ | .tuple _ | .optional _ => True
  | .instance_ name args | .interface name args | .alias_ name args =>
    name.Spelled tokens ∧ name.isVariable scope args = false
  | .singleton name => name.Spelled tokens
  | .union members | .intersection members => 2 ≤ members.length
  -- A key that is no label stands in front of an arrow.
  | .record fields => ∀ field ∈ fields, tokens (.ident field.1) ∨ tokens (.mark .fatArrow)
  | .literal value => value.Spelled tokens
  | .variable_ name => tokens (.ident name) ∧ name ∈ scope
  | .proc method => method.typeParams = [] ∧ method.ParamsSpelled tokens

def TypeExpr.Spelled (tokens : TokenKind → Prop) (scope : List String) (type : TypeExpr) : Prop :=
  type.Every (TypeExpr.SpelledHere tokens scope)

def Param.Spelled (tokens : TokenKind → Prop) (scope : List String) (param : Param) : Prop :=
  (∀ name ∈ param.name, tokens (.ident name)) ∧ param.type.Spelled tokens scope

structure Params.SpelledIn (tokens : TokenKind → Prop) (scope : List String) (params : Params) :
    Prop where
  entries : ∀ entry ∈ params.entries, entry.1.Spelled tokens ∧ entry.2.Spelled tokens scope
  trailing : (params.trailing.isEmpty || params.rest.isSome || !params.optional.isEmpty) = true

def BlockType.Spelled (tokens : TokenKind → Prop) (scope : List String) (block : BlockType) :
    Prop :=
  block.params.SpelledIn tokens scope ∧ block.returnType.Spelled tokens scope

/-- A method type that is spelled with tokens. Its own type parameters are in scope in it. -/
structure MethodType.Spelled (tokens : TokenKind → Prop) (scope : List String)
    (method : MethodType) : Prop where
  typeParams : ∀ name ∈ method.typeParams, tokens (.ident name)
  params : method.ParamsSpelled tokens
  types : ∀ type ∈ method.types, type.Spelled tokens (scope ++ method.typeParams)

theorem Params.SpelledIn.spelled {scope : List String} {params : Params}
    (h : params.SpelledIn tokens scope) : params.Spelled tokens :=
  ⟨fun entry hentry ↦ ⟨(h.entries entry hentry).1, (h.entries entry hentry).2.1⟩, h.trailing⟩

theorem Params.SpelledIn.types {scope : List String} {params : Params}
    (h : params.SpelledIn tokens scope) : ∀ type ∈ params.types, type.Spelled tokens scope :=
  List.forall_mem_map.2 fun entry hentry ↦ (h.entries entry hentry).2.2

/-- A condition on all parameters, role by role. -/
theorem Params.forall_mem_entries {params : Params} {P : Role × Param → Prop} :
    (∀ entry ∈ params.entries, P entry) ↔
      (∀ param ∈ params.required, P (.required, param)) ∧
      (∀ param ∈ params.optional, P (.optional, param)) ∧
      (∀ param ∈ params.rest.toList, P (.rest, param)) ∧
      (∀ param ∈ params.trailing, P (.trailing, param)) ∧
      (∀ entry ∈ params.requiredKeywords, P (.keyword entry.1, entry.2)) ∧
      (∀ entry ∈ params.optionalKeywords, P (.optionalKeyword entry.1, entry.2)) ∧
      ∀ param ∈ params.restKeywords.toList, P (.restKeywords, param) := by
  simp only [Params.entries, List.forall_mem_append, List.forall_mem_map, and_assoc]

/-- The types of a method are those of its parameters, of its block and what it returns. -/
theorem MethodType.forall_mem_types {method : MethodType} {P : TypeExpr → Prop}
    (hparams : ∀ type ∈ method.params.types, P type)
    (hblock : ∀ block ∈ method.block, (∀ type ∈ block.params.types, P type) ∧ P block.returnType)
    (hreturn : P method.returnType) : ∀ type ∈ method.types, P type := by
  rw [MethodType.types, List.forall_mem_append, List.forall_mem_append, List.forall_mem_singleton]
  refine ⟨⟨hparams, List.forall_mem_flatMap.2 fun block hmem ↦ ?_⟩, hreturn⟩
  obtain ⟨hblockParams, hblockReturn⟩ := hblock block (Option.mem_toList.1 hmem)
  exact List.forall_mem_append.2 ⟨hblockParams, List.forall_mem_singleton.2 hblockReturn⟩

theorem yields_typeName : Yields tokens Parse.typeName (TypeName.Spelled tokens) := by
  refine (yields_eat .doubleColon).bind fun absolute _ ↦
    (yields_ident "type name").bind fun first hfirst ↦ ?_
  refine (yields_iterate (fun found : List String × String ↦
    ∀ segment ∈ found.1 ++ [found.2], tokens (.ident segment)) ?_ ?_).bind
      fun found hfound ↦ .pure hfound
  · exact List.forall_mem_singleton.2 hfirst
  · rintro ⟨path, name⟩ hfound
    refine Preserves.get.bind fun _ _ ↦ .ite (fun _ ↦ ?_) fun _ ↦ .pure hfound
    exact yields_advance.bind fun _ _ ↦ (yields_ident "type name").bind fun inner hinner ↦
      .pure (forall_mem_snoc hfound hinner)

/-- A label is an identifier. -/
theorem yields_label? : Yields tokens Parse.label? fun label ↦
    ∀ name ∈ label, tokens (.ident name) := by
  refine Preserves.get.bind fun cursor hcursor ↦ ?_
  have hkind := hcursor.current
  cases hcurrent : cursor.current.kind with
  | ident name =>
    rw [hcurrent] at hkind
    refine .ite (fun _ ↦ ?_) fun _ ↦ .pure (forall_mem_none _)
    exact yields_advance.bind fun _ _ ↦ yields_advance.bind fun _ _ ↦ .pure (forall_mem_some hkind)
  | _ => exact .pure (forall_mem_none _)

section Types

variable {scope : List String} {primary : Parse TypeExpr}
  (hprimary : Yields tokens primary (TypeExpr.Spelled tokens scope))
include hprimary

theorem yields_optionalType :
    Yields tokens (Parse.optionalType primary) (TypeExpr.Spelled tokens scope) := by
  refine hprimary.bind fun type htype ↦ Preserves.get.bind fun _ _ ↦ .ite (fun _ ↦ ?_) fun _ ↦
    .pure htype
  exact yields_advance.bind fun _ _ ↦ .pure (.intro trivial (List.forall_mem_singleton.2 htype))

omit hprimary in
/-- A chain of one part is that part. -/
theorem yields_chain {part : Parse TypeExpr}
    (hpart : Yields tokens part (TypeExpr.Spelled tokens scope)) (mark : Mark)
    {make : List TypeExpr → TypeExpr}
    (hmake : ∀ types : List TypeExpr, 2 ≤ types.length →
      (∀ type ∈ types, type.Spelled tokens scope) → (make types).Spelled tokens scope) :
    Yields tokens (Parse.chain mark make part) (TypeExpr.Spelled tokens scope) := by
  refine hpart.bind fun first hfirst ↦
    (yields_whileMark mark hpart (List.forall_mem_singleton.2 hfirst)).bind fun types htypes ↦ ?_
  match types, htypes with
  | [], htypes => exact absurd htypes.1 (Nat.not_succ_le_zero 0)
  | [type], htypes => exact .pure (htypes.2 type List.mem_cons_self)
  | first :: second :: others, htypes => exact .pure (hmake _ (by simp) htypes.2)

theorem yields_intersectionType :
    Yields tokens (Parse.intersectionType primary) (TypeExpr.Spelled tokens scope) :=
  yields_chain (yields_optionalType hprimary) .ampersand fun _ hlength htypes ↦
    .intro hlength htypes

theorem yields_fullType :
    Yields tokens (Parse.fullType primary) (TypeExpr.Spelled tokens scope) :=
  yields_chain (yields_intersectionType hprimary) .pipe fun _ hlength htypes ↦
    .intro hlength htypes

theorem yields_param : Yields tokens (Parse.param primary) (Param.Spelled tokens scope) := by
  refine (yields_fullType hprimary).bind fun type htype ↦
    yields_currentKind.bind fun kind hkind ↦ ?_
  cases kind with
  | ident name => exact yields_advance.bind fun _ _ ↦ .pure ⟨forall_mem_some hkind, htype⟩
  | _ => exact .pure ⟨forall_mem_none _, htype⟩

theorem yields_addParam {params : Params} (h : params.SpelledIn tokens scope) :
    Yields tokens (Parse.addParam primary params) (Params.SpelledIn tokens scope) := by
  obtain ⟨hentries, htrailing⟩ := h
  obtain ⟨hrequired, hoptional, hrest, htrailing', hkeywords, hoptionalKeywords, hrestKeywords⟩ :=
    Params.forall_mem_entries.1 hentries
  have hparam := yields_param hprimary
  refine (yields_eat .doubleStar).bind fun _ _ ↦ .ite (fun _ ↦ ?_) fun _ ↦ ?_
  · refine hparam.bind fun param hparam ↦ .pure ⟨Params.forall_mem_entries.2 ?_, htrailing⟩
    exact ⟨hrequired, hoptional, hrest, htrailing', hkeywords, hoptionalKeywords,
      List.forall_mem_singleton.2 ⟨trivial, hparam⟩⟩
  · refine (yields_eat .star).bind fun _ _ ↦ .ite (fun _ ↦ ?_) fun _ ↦ ?_
    · refine hparam.bind fun param hparam ↦ .pure ⟨Params.forall_mem_entries.2 ?_, ?_⟩
      · exact ⟨hrequired, hoptional, List.forall_mem_singleton.2 ⟨trivial, hparam⟩, htrailing',
          hkeywords, hoptionalKeywords, hrestKeywords⟩
      · simp
    · refine (yields_eat .question).bind fun isOptional _ ↦
        yields_label?.bind fun label hlabel ↦ ?_
      cases label with
      | some keyword =>
        have hkeyword := hlabel keyword rfl
        refine hparam.bind fun param hparam ↦ .ite (fun _ ↦ .pure ?_) fun _ ↦ .pure ?_
        · refine ⟨Params.forall_mem_entries.2 ?_, htrailing⟩
          exact ⟨hrequired, hoptional, hrest, htrailing', hkeywords,
            forall_mem_snoc hoptionalKeywords ⟨hkeyword, hparam⟩, hrestKeywords⟩
        · refine ⟨Params.forall_mem_entries.2 ?_, htrailing⟩
          exact ⟨hrequired, hoptional, hrest, htrailing',
            forall_mem_snoc hkeywords ⟨hkeyword, hparam⟩, hoptionalKeywords, hrestKeywords⟩
      | none =>
        refine hparam.bind fun param hparam ↦ .ite (fun _ ↦ .pure ?_) fun _ ↦
          .ite (fun htold ↦ .pure ?_) fun _ ↦ .pure ?_
        · refine ⟨Params.forall_mem_entries.2 ?_, ?_⟩
          · exact ⟨hrequired, forall_mem_snoc hoptional ⟨trivial, hparam⟩, hrest, htrailing',
              hkeywords, hoptionalKeywords, hrestKeywords⟩
          · simp
        · refine ⟨Params.forall_mem_entries.2 ?_, ?_⟩
          · exact ⟨hrequired, hoptional, hrest, forall_mem_snoc htrailing' ⟨trivial, hparam⟩,
              hkeywords, hoptionalKeywords, hrestKeywords⟩
          · rw [Bool.or_assoc, htold, Bool.or_true]
        · refine ⟨Params.forall_mem_entries.2 ?_, htrailing⟩
          exact ⟨forall_mem_snoc hrequired ⟨trivial, hparam⟩, hoptional, hrest, htrailing',
            hkeywords, hoptionalKeywords, hrestKeywords⟩

theorem yields_params : Yields tokens (Parse.params primary) (Params.SpelledIn tokens scope) := by
  have hnone : Params.none.SpelledIn tokens scope := ⟨List.forall_mem_nil _, rfl⟩
  refine (yields_eat .leftParen).bind fun _ _ ↦ .ite (fun _ ↦ ?_) fun _ ↦ .pure hnone
  refine (yields_itemsUntil (Params.SpelledIn tokens scope) .rightParen hnone fun _ hparams ↦
    yields_addParam hprimary hparams).bind fun params hparams ↦ ?_
  exact (yields_expect .rightParen _).bind fun _ _ ↦ .pure hparams

theorem yields_skipSelfBinding : Yields tokens (Parse.skipSelfBinding primary) fun _ ↦ True := by
  refine Preserves.get.bind fun _ _ ↦ .ite (fun _ ↦ ?_) fun _ ↦ .pure trivial
  refine yields_advance.bind fun _ _ ↦ yields_advance.bind fun _ _ ↦
    (yields_expect .colon _).bind fun _ _ ↦ (yields_fullType hprimary).bind fun _ _ ↦ ?_
  exact (yields_expect .rightBracket _).mono fun _ _ ↦ trivial

theorem yields_blockBody (required : Bool) :
    Yields tokens (Parse.blockBody primary required) (BlockType.Spelled tokens scope) := by
  refine (yields_expect .leftBrace _).bind fun _ _ ↦
    (yields_params hprimary).bind fun params hparams ↦
    (yields_skipSelfBinding hprimary).bind fun _ _ ↦ (yields_expect .arrow _).bind fun _ _ ↦
    (yields_optionalType hprimary).bind fun returnType hreturn ↦ ?_
  exact (yields_expect .rightBrace _).bind fun _ _ ↦ .pure ⟨hparams, hreturn⟩

theorem yields_block? : Yields tokens (Parse.block? primary) fun block ↦
    ∀ inner ∈ block, inner.Spelled tokens scope := by
  refine Preserves.get.bind fun _ _ ↦ .ite (fun _ ↦ ?_) fun _ ↦ .ite (fun _ ↦ ?_) fun _ ↦
    .pure (forall_mem_none _)
  · exact yields_advance.bind fun _ _ ↦ (yields_blockBody hprimary false).bind fun block hblock ↦
      .pure (forall_mem_some hblock)
  · exact (yields_blockBody hprimary true).bind fun block hblock ↦ .pure (forall_mem_some hblock)

/-- The type parameters of a function are those it is given. -/
theorem yields_function (typeParams : List String) :
    Yields tokens (Parse.function primary typeParams) fun method ↦
      method.typeParams = typeParams ∧ method.ParamsSpelled tokens ∧
        ∀ type ∈ method.types, type.Spelled tokens scope := by
  refine (yields_params hprimary).bind fun params hparams ↦
    (yields_skipSelfBinding hprimary).bind fun _ _ ↦
    (yields_block? hprimary).bind fun block hblock ↦ (yields_expect .arrow _).bind fun _ _ ↦
    (yields_optionalType hprimary).bind fun returnType hreturn ↦ .pure ⟨rfl, ?_, ?_⟩
  · exact ⟨hparams.spelled, fun inner hinner ↦ (hblock inner hinner).1.spelled⟩
  · refine MethodType.forall_mem_types hparams.types (fun inner hinner ↦ ?_) hreturn
    exact ⟨(hblock inner hinner).1.types, (hblock inner hinner).2⟩

/-! ## Primary types -/

theorem yields_typeArgs : Yields tokens (Parse.typeArgs primary) fun args ↦
    ∀ arg ∈ args, arg.Spelled tokens scope := by
  refine (yields_eat .leftBracket).bind fun _ _ ↦ .ite (fun _ ↦ ?_) fun _ ↦
    .pure (List.forall_mem_nil _)
  refine (yields_commaSeparated (yields_fullType hprimary)).bind fun args hargs ↦ ?_
  exact (yields_expect .rightBracket _).bind fun _ _ ↦ .pure hargs

/-- A bare name is a variable exactly if it is in scope. -/
theorem yields_namedType :
    Yields tokens (Parse.namedType scope primary) (TypeExpr.Spelled tokens scope) := by
  refine yields_typeName.bind fun name hname ↦ (yields_typeArgs hprimary).bind fun args hargs ↦
    .ite (fun hvariable ↦ .pure ?_) fun hvariable ↦ .pure ?_
  · simp only [Bool.and_eq_true] at hvariable
    refine .intro ⟨?_, List.contains_iff_mem.1 hvariable.2⟩ (List.forall_mem_nil _)
    exact hname name.name (List.mem_append_right _ List.mem_cons_self)
  · have hplain : name.isVariable scope args = false := Bool.eq_false_iff.2 hvariable
    unfold TypeExpr.ofName
    split <;> exact .intro ⟨hname, hplain⟩ hargs

theorem yields_tuple : Yields tokens (Parse.tuple primary) (TypeExpr.Spelled tokens scope) := by
  refine (yields_itemsUntil (fun items : List TypeExpr ↦ ∀ item ∈ items, item.Spelled tokens scope)
    .rightBracket (List.forall_mem_nil _) fun items hitems ↦ ?_).bind fun items hitems ↦ ?_
  · exact (yields_fullType hprimary).bind fun item hitem ↦ .pure (forall_mem_snoc hitems hitem)
  · exact (yields_expect .rightBracket _).bind fun _ _ ↦ .pure (.intro trivial hitems)

omit hprimary in
/-- The key of a field is a label, or an arrow follows it. -/
theorem yields_recordKey : Yields tokens Parse.recordKey fun key ↦
    tokens (.ident key) ∨ tokens (.mark .fatArrow) := by
  refine yields_label?.bind fun label hlabel ↦ ?_
  cases label with
  | some key => exact .pure (.inl (hlabel key rfl))
  | none =>
    refine yields_currentKind.bind fun kind _ ↦ ?_
    cases kind with
    | symbol key | str key | int value =>
      exact yields_advance.bind fun _ _ ↦ (yields_expect .fatArrow _).bind fun _ harrow ↦
        .pure (.inr harrow)
    | _ => exact yields_fail _

theorem yields_record : Yields tokens (Parse.record primary) (TypeExpr.Spelled tokens scope) := by
  refine (yields_itemsUntil (fun fields : List (String × TypeExpr) ↦ ∀ field ∈ fields,
    (tokens (.ident field.1) ∨ tokens (.mark .fatArrow)) ∧ field.2.Spelled tokens scope) .rightBrace
    (List.forall_mem_nil _) fun fields hfields ↦ ?_).bind fun fields hfields ↦ ?_
  · refine (yields_eat .question).bind fun _ _ ↦ yields_recordKey.bind fun key hkey ↦
      (yields_fullType hprimary).bind fun type htype ↦ .pure ?_
    exact forall_mem_snoc hfields ⟨hkey, htype⟩
  · refine (yields_expect .rightBrace _).bind fun _ _ ↦ .pure (.intro ?_ ?_)
    · exact fun field hfield ↦ (hfields field hfield).1
    · exact List.forall_mem_map.2 fun field hfield ↦ (hfields field hfield).2

theorem yields_wordType (word : String) :
    Yields tokens (Parse.wordType scope primary word) (TypeExpr.Spelled tokens scope) := by
  refine Preserves.get.bind fun _ _ ↦ .ite (fun _ ↦ yields_namedType hprimary) fun _ ↦
    .ite (fun _ ↦ ?_) fun _ ↦ .ite (fun _ ↦ ?_) fun _ ↦ .ite (fun _ ↦ ?_) fun _ ↦ ?_
  · exact yields_advance.bind fun _ _ ↦ .pure (.intro trivial (List.forall_mem_nil _))
  · exact yields_advance.bind fun _ _ ↦ .pure (.intro trivial (List.forall_mem_nil _))
  · refine yields_advance.bind fun _ _ ↦ yields_advance.bind fun _ _ ↦
      yields_typeName.bind fun name hname ↦ (yields_expect .rightParen _).bind fun _ _ ↦ ?_
    exact .pure (.intro hname (List.forall_mem_nil _))
  · cases BaseType.ofKeyword? word with
    | some base =>
      exact yields_advance.bind fun _ _ ↦ .pure (.intro trivial (List.forall_mem_nil _))
    | none => exact yields_namedType hprimary

theorem yields_primaryWith :
    Yields tokens (Parse.primaryWith scope primary) (TypeExpr.Spelled tokens scope) := by
  refine yields_currentKind.bind fun kind hkind ↦ ?_
  cases kind with
  | mark found =>
    cases found with
    | leftParen =>
      refine yields_advance.bind fun _ _ ↦ (yields_fullType hprimary).bind fun type htype ↦ ?_
      exact (yields_expect .rightParen _).bind fun _ _ ↦ .pure htype
    | leftBracket => exact yields_advance.bind fun _ _ ↦ yields_tuple hprimary
    | leftBrace => exact yields_advance.bind fun _ _ ↦ yields_record hprimary
    | caret =>
      exact yields_advance.bind fun _ _ ↦ (yields_function hprimary []).bind fun method hmethod ↦
        .pure (.intro ⟨hmethod.1, hmethod.2.1⟩ hmethod.2.2)
    | doubleColon => exact yields_namedType hprimary
    | _ => exact yields_fail _
  | int value | str value | symbol name =>
    exact yields_advance.bind fun _ _ ↦ .pure (.intro hkind (List.forall_mem_nil _))
  | ident word => exact yields_wordType hprimary word
  | _ => exact yields_fail _

end Types

/-- By induction on the bound; without any left the step fails. -/
theorem yields_primaryUpTo (scope : List String) (depth : Nat) :
    Yields tokens (Parse.primaryUpTo scope depth) (TypeExpr.Spelled tokens scope) := by
  induction depth with
  | zero => exact yields_fail _
  | succ depth ih => exact yields_primaryWith ih

theorem yields_primary (scope : List String) :
    Yields tokens (Parse.primary scope) (TypeExpr.Spelled tokens scope) :=
  Preserves.get.bind fun _ _ ↦ yields_primaryUpTo scope _

theorem yields_type (scope : List String) :
    Yields tokens (Parse.type scope) (TypeExpr.Spelled tokens scope) :=
  yields_fullType (yields_primary scope)

theorem yields_methodTypeParams (scope : List String) :
    Yields tokens (Parse.methodTypeParams scope) fun names ↦
      ∀ name ∈ names, tokens (.ident name) := by
  refine (yields_eat .leftBracket).bind fun _ _ ↦ .ite (fun _ ↦ ?_) fun _ ↦
    .pure (List.forall_mem_nil _)
  refine (yields_iterate (fun names : List String ↦ ∀ name ∈ names, tokens (.ident name))
    (List.forall_mem_nil _) fun names hnames ↦ ?_).bind fun names hnames ↦ ?_
  · refine (yields_eatWord _).bind fun _ _ ↦ (yields_ident _).bind fun name hname ↦ ?_
    have hnames' := forall_mem_snoc hnames hname
    have hnext : Yields tokens (do
        if ← Parse.eat .comma then
          return .again (names ++ [name])
        else
          return .done (names ++ [name])) fun round : Round (List String) ↦
            ∀ name ∈ round.value, tokens (.ident name) :=
      (yields_eat .comma).bind fun _ _ ↦ .ite (fun _ ↦ .pure hnames') fun _ ↦ .pure hnames'
    refine (yields_eat .less).bind fun _ _ ↦ .ite (fun _ ↦ ?_) fun _ ↦ hnext
    exact (yields_type _).bind fun _ _ ↦ hnext
  · exact (yields_expect .rightBracket _).bind fun _ _ ↦ .pure hnames

/-- The parameters of the method are in scope for its types. -/
theorem yields_methodType (scope : List String) :
    Yields tokens (Parse.methodType scope) (MethodType.Spelled tokens scope) := by
  refine (yields_methodTypeParams scope).bind fun typeParams htypeParams ↦
    (yields_function (yields_primary _) typeParams).mono fun method hmethod ↦ ?_
  obtain ⟨rfl, hparams, htypes⟩ := hmethod
  exact ⟨htypeParams, hparams, htypes⟩

end DeclaredMethods.Signature
