import DeclaredMethods.Proofs.Spelling.Types

/-!
# How declarations that were read are spelled

The names and types in a declaration that was read come from tokens. The type parameters of a
declaration are in scope in its parents and members, and in the declarations inside it. Each of
them is in scope in its own bound and in the bounds behind it.
-/

namespace DeclaredMethods.Signature

/-- Type parameters that are spelled with tokens. Each is in scope in its own bound and behind
it. -/
def TypeParam.SpelledAll (tokens : TokenKind → Prop) : List String → List TypeParam → Prop
  | _, [] => True
  | scope, param :: params =>
    (tokens (.ident param.name) ∧
      ∀ bound ∈ param.upperBound, bound.Spelled tokens (scope ++ [param.name])) ∧
    SpelledAll tokens (scope ++ [param.name]) params

structure Parent.Spelled (tokens : TokenKind → Prop) (scope : List String) (parent : Parent) :
    Prop where
  name : parent.name.Spelled tokens
  args : ∀ arg ∈ parent.args, arg.Spelled tokens scope

mutual

/-- Everything in a declaration is spelled with tokens, where the given type parameters are in scope
and the declaration adds its own. -/
inductive Declaration.Spelled (tokens : TokenKind → Prop) : List String → Declaration → Prop
  | class_ {scope : List String} {name : TypeName} {typeParams : List TypeParam}
      {superclass : Option Parent} {members : List Member} (hname : name.Spelled tokens)
      (htypeParams : TypeParam.SpelledAll tokens scope typeParams)
      (hsuperclass : ∀ parent ∈ superclass,
        parent.Spelled tokens (scope ++ typeParams.map TypeParam.name))
      (hmembers : ∀ member ∈ members,
        Member.Spelled tokens (scope ++ typeParams.map TypeParam.name) member) :
      Declaration.Spelled tokens scope (.class_ name typeParams superclass members)
  | module_ {scope : List String} {name : TypeName} {typeParams : List TypeParam}
      {selfTypes : List Parent} {members : List Member} (hname : name.Spelled tokens)
      (htypeParams : TypeParam.SpelledAll tokens scope typeParams)
      (hselfTypes : ∀ parent ∈ selfTypes,
        parent.Spelled tokens (scope ++ typeParams.map TypeParam.name))
      (hmembers : ∀ member ∈ members,
        Member.Spelled tokens (scope ++ typeParams.map TypeParam.name) member) :
      Declaration.Spelled tokens scope (.module_ name typeParams selfTypes members)
  | interface {scope : List String} {name : TypeName} {typeParams : List TypeParam}
      {members : List Member} (hname : name.Spelled tokens)
      (htypeParams : TypeParam.SpelledAll tokens scope typeParams)
      (hmembers : ∀ member ∈ members,
        Member.Spelled tokens (scope ++ typeParams.map TypeParam.name) member) :
      Declaration.Spelled tokens scope (.interface name typeParams members)
  | typeAlias {scope : List String} {name : TypeName} {typeParams : List TypeParam}
      {type : TypeExpr} (hname : name.Spelled tokens)
      (htypeParams : TypeParam.SpelledAll tokens scope typeParams)
      (htype : type.Spelled tokens (scope ++ typeParams.map TypeParam.name)) :
      Declaration.Spelled tokens scope (.typeAlias name typeParams type)
  | classAlias {scope : List String} {newName oldName : TypeName} {isModule : Bool}
      (hnewName : newName.Spelled tokens) (holdName : oldName.Spelled tokens) :
      Declaration.Spelled tokens scope (.classAlias newName oldName isModule)

/-- A member whose types are spelled with tokens, where the given type parameters are in scope. -/
inductive Member.Spelled (tokens : TokenKind → Prop) : List String → Member → Prop
  | method {scope : List String} {name : String} {belonging : MemberScope}
      {overloads : List MethodType} {overloading : Bool}
      (hoverloads : ∀ overload ∈ overloads, overload.Spelled tokens scope) :
      Member.Spelled tokens scope (.method name belonging overloads overloading)
  | attribute {scope : List String} {kind : AttributeKind} {name : String} {type : TypeExpr}
      {belonging : MemberScope} (hname : tokens (.ident name)) (htype : type.Spelled tokens scope) :
      Member.Spelled tokens scope (.attribute kind name type belonging)
  | alias_ {scope : List String} {newName oldName : String} {belonging : MemberScope} :
      Member.Spelled tokens scope (.alias_ newName oldName belonging)
  | include_ {scope : List String} {parent : Parent} (hparent : parent.Spelled tokens scope) :
      Member.Spelled tokens scope (.include_ parent)
  | prepend {scope : List String} {parent : Parent} (hparent : parent.Spelled tokens scope) :
      Member.Spelled tokens scope (.prepend parent)
  | extend {scope : List String} {parent : Parent} (hparent : parent.Spelled tokens scope) :
      Member.Spelled tokens scope (.extend parent)
  | declaration {scope : List String} {declaration : Declaration}
      (hdeclaration : declaration.Spelled tokens scope) :
      Member.Spelled tokens scope (.declaration declaration)

end

variable {tokens : TokenKind → Prop}

/-- A further parameter is read with the ones before it in scope. -/
theorem TypeParam.SpelledAll.snoc {scope : List String} {params : List TypeParam}
    {param : TypeParam} (h : SpelledAll tokens scope params) (hname : tokens (.ident param.name))
    (hbound : ∀ bound ∈ param.upperBound,
      bound.Spelled tokens (scope ++ params.map TypeParam.name ++ [param.name])) :
    SpelledAll tokens scope (params ++ [param]) := by
  induction params generalizing scope with
  | nil =>
    rw [List.map_nil, List.append_nil] at hbound
    exact ⟨⟨hname, hbound⟩, trivial⟩
  | cons first params ih =>
    refine ⟨h.1, ih h.2 ?_⟩
    rwa [List.append_assoc scope, List.singleton_append, ← List.map_cons]

/-- By induction over the loop: the scope grows with the parameters. -/
theorem yields_typeParams (scope : List String) :
    Yields tokens (Parse.typeParams scope) (TypeParam.SpelledAll tokens scope) := by
  have hnone : TypeParam.SpelledAll tokens scope [] := trivial
  refine (yields_eat .leftBracket).bind fun _ _ ↦ .ite (fun _ ↦ ?_) fun _ ↦ .pure hnone
  refine (yields_iterate (TypeParam.SpelledAll tokens scope) hnone fun params hparams ↦ ?_).bind
    fun params hparams ↦ (yields_expect .rightBracket _).bind fun _ _ ↦ .pure hparams
  refine (yields_eatWord _).bind fun _ _ ↦ (yields_eatWord _).bind fun _ _ ↦ ?_
  -- The reading goes on in the same way with and without a variance, a bound and a default.
  extract_lets behindVariance
  have hvariance : ∀ done, Yields tokens (behindVariance done)
      fun round ↦ TypeParam.SpelledAll tokens scope round.value := by
    refine fun _ ↦ (yields_ident _).bind fun name hname ↦ (yields_eat .less).bind fun _ _ ↦ ?_
    extract_lets behindBound
    have hbound : ∀ upperBound : Option TypeExpr, (∀ bound ∈ upperBound,
        bound.Spelled tokens (scope ++ params.map TypeParam.name ++ [name])) →
        Yields tokens (behindBound upperBound)
          fun round ↦ TypeParam.SpelledAll tokens scope round.value := by
      refine fun upperBound hupperBound ↦ (yields_eat .equals).bind fun _ _ ↦ ?_
      extract_lets params' behindDefault
      have hparams' : TypeParam.SpelledAll tokens scope params' := hparams.snoc hname hupperBound
      have hdefault : ∀ done, Yields tokens (behindDefault done)
          fun round ↦ TypeParam.SpelledAll tokens scope round.value := fun _ ↦
        (yields_eat .comma).bind fun _ _ ↦ .ite (fun _ ↦ .pure hparams') fun _ ↦ .pure hparams'
      exact .ite (fun _ ↦ (yields_type _).bind fun _ _ ↦ hdefault ()) fun _ ↦ hdefault ()
    refine .ite (fun _ ↦ ?_) fun _ ↦ ?_
    · rw [bind_map_left]
      exact (yields_type _).bind fun type htype ↦ hbound (some type) (forall_mem_some htype)
    · exact hbound none (forall_mem_none _)
  exact .ite (fun _ ↦ (yields_eatWord _).bind fun _ _ ↦ hvariance ()) fun _ ↦ hvariance ()

theorem yields_parent (scope : List String) :
    Yields tokens (Parse.parent scope) (Parent.Spelled tokens scope) :=
  yields_typeName.bind fun _ hname ↦ (yields_typeArgs (yields_primary scope)).bind fun _ hargs ↦
    .pure ⟨hname, hargs⟩

theorem yields_skipValueDeclaration (scope : List String) :
    Yields tokens (Parse.skipValueDeclaration scope) fun _ ↦ True := by
  have htype : Yields tokens (Parse.skipValueDeclaration.skipValueType scope) fun _ ↦ True :=
    (yields_expect .colon _).bind fun _ _ ↦ (yields_type scope).bind fun _ _ ↦ .pure trivial
  refine yields_currentKind.bind fun kind _ ↦ ?_
  split
  · exact yields_advance.bind fun _ _ ↦ htype
  · exact yields_typeName.bind fun _ _ ↦ htype
  · exact yields_typeName.bind fun _ _ ↦ htype
  · exact .pure trivial

theorem yields_skipInstanceVariable (scope : List String) :
    Yields tokens (Parse.skipInstanceVariable scope) fun _ ↦ True := by
  refine yields_currentKind.bind fun kind _ ↦ ?_
  cases kind with
  | instanceVar name =>
    exact yields_advance.bind fun _ _ ↦ (yields_expect .colon _).bind fun _ _ ↦
      (yields_type scope).bind fun _ _ ↦ .pure trivial
  | _ => exact yields_fail _

theorem yields_memberScope : Yields tokens Parse.memberScope fun _ ↦ True := by
  refine Preserves.get.bind fun _ _ ↦ .ite (fun _ ↦ ?_) fun _ ↦ .ite (fun _ ↦ ?_) fun _ ↦
    .pure trivial
  · exact yields_advance.bind fun _ _ ↦ yields_advance.bind fun _ _ ↦ .pure trivial
  · exact yields_advance.bind fun _ _ ↦ yields_advance.bind fun _ _ ↦
      (yields_expect .dot _).bind fun _ _ ↦ .pure trivial

theorem yields_memberName : Yields tokens Parse.memberName fun _ ↦ True := by
  refine Preserves.get.bind fun cursor _ ↦ ?_
  have hoperator : ∀ text : String, Yields tokens (Parse.iterate (fun name ↦ do
      let cursor ← get
      if cursor.isAdjacent && cursor.current.kind.isOperator then
        Parse.advance
        return .again (name ++ cursor.current.text)
      else
        return .done name) text) fun _ ↦ True := by
    intro text
    refine yields_iterate (fun _ ↦ True) trivial fun name _ ↦ ?_
    exact Preserves.get.bind fun _ _ ↦ .ite
      (fun _ ↦ yields_advance.bind fun _ _ ↦ .pure trivial) fun _ ↦ .pure trivial
  dsimp only
  split
  · refine yields_advance.bind fun _ _ ↦ Preserves.get.bind fun _ _ ↦ .ite (fun _ ↦ ?_) fun _ ↦
      .pure trivial
    exact yields_advance.bind fun _ _ ↦ .pure trivial
  · exact .ite (fun _ ↦ yields_advance.bind fun _ _ ↦ hoperator _) fun _ ↦ yields_fail _

theorem yields_overloads (scope : List String) :
    Yields tokens (Parse.overloads scope) fun found ↦
      ∀ overload ∈ found.1, overload.Spelled tokens scope := by
  refine yields_iterate (fun found : List MethodType × Bool ↦
    ∀ overload ∈ found.1, overload.Spelled tokens scope) (List.forall_mem_nil _) ?_
  rintro ⟨overloads, overloading⟩ hoverloads
  refine (yields_eat .ellipsis).bind fun _ _ ↦ .ite (fun _ ↦ .pure hoverloads) fun _ ↦ ?_
  refine (yields_methodType scope).bind fun overload hoverload ↦
    (yields_eat .pipe).bind fun _ _ ↦ ?_
  have hall := forall_mem_snoc hoverloads hoverload
  exact .ite (fun _ ↦ .pure hall) fun _ ↦ .pure hall

theorem yields_methodMember (scope : List String) :
    Yields tokens (Parse.methodMember scope) (Member.Spelled tokens scope) :=
  yields_memberScope.bind fun _ _ ↦ yields_memberName.bind fun _ _ ↦
    (yields_expect .colon _).bind fun _ _ ↦ (yields_overloads scope).bind fun _ hoverloads ↦
    .pure (.method hoverloads)

theorem yields_attributeMember (scope : List String) (kind : AttributeKind) :
    Yields tokens (Parse.attributeMember scope kind) (Member.Spelled tokens scope) := by
  refine yields_memberScope.bind fun belonging _ ↦ (yields_ident _).bind fun name hname ↦
    (yields_eat .leftParen).bind fun _ _ ↦ ?_
  extract_lets behindVariable behindName
  have hvariable : ∀ done, Yields tokens (behindVariable done) (Member.Spelled tokens scope) :=
    fun _ ↦ (yields_expect .colon _).bind fun _ _ ↦ (yields_type scope).bind fun _ htype ↦
      .pure (.attribute hname htype)
  have hname : ∀ done, Yields tokens (behindName done) (Member.Spelled tokens scope) := fun _ ↦
    (yields_expect .rightParen _).bind fun _ _ ↦ hvariable ()
  refine .ite (fun _ ↦ ?_) fun _ ↦ hvariable ()
  refine yields_currentKind.bind fun kind _ ↦ ?_
  cases kind with
  | instanceVar name => exact yields_advance.bind fun done _ ↦ hname done
  | _ => exact hname ()

theorem yields_aliasMember (scope : List String) :
    Yields tokens Parse.aliasMember (Member.Spelled tokens scope) :=
  yields_memberScope.bind fun _ _ ↦ yields_memberName.bind fun _ _ ↦
    yields_memberScope.bind fun _ _ ↦ yields_memberName.bind fun _ _ ↦ .pure .alias_

section Nested

variable {inner : Parse.DeclarationReader}
  (hinner : ∀ scope, Yields tokens (inner scope) fun found ↦
    ∀ declaration ∈ found, declaration.Spelled tokens scope)
include hinner

theorem yields_wordMember (scope : List String) (word : String) :
    Yields tokens (Parse.wordMember inner scope word) fun found ↦
      ∀ member ∈ found, member.Spelled tokens scope := by
  have hsome : ∀ {reading : Parse Member}, Yields tokens reading (Member.Spelled tokens scope) →
      Yields tokens (do return some (← reading)) fun found ↦
        ∀ member ∈ found, member.Spelled tokens scope :=
    fun hreading ↦ hreading.bind fun _ hmember ↦ .pure (forall_mem_some hmember)
  have hparent : ∀ {make : Parent → Member},
      (∀ parent, parent.Spelled tokens scope → (make parent).Spelled tokens scope) →
      Yields tokens (do return some (make (← Parse.parent scope))) fun found ↦
        ∀ member ∈ found, member.Spelled tokens scope :=
    fun hmake ↦ (yields_parent scope).bind fun parent hparent ↦
      .pure (forall_mem_some (hmake parent hparent))
  refine .ite (fun _ ↦ yields_advance.bind fun _ _ ↦ hsome (yields_methodMember scope)) fun _ ↦ ?_
  refine .ite (fun _ ↦ yields_advance.bind fun _ _ ↦ hsome (yields_attributeMember scope _))
    fun _ ↦ ?_
  refine .ite (fun _ ↦ yields_advance.bind fun _ _ ↦ hsome (yields_attributeMember scope _))
    fun _ ↦ ?_
  refine .ite (fun _ ↦ yields_advance.bind fun _ _ ↦ hsome (yields_attributeMember scope _))
    fun _ ↦ ?_
  refine .ite (fun _ ↦ yields_advance.bind fun _ _ ↦ hsome (yields_aliasMember scope)) fun _ ↦ ?_
  refine .ite (fun _ ↦ yields_advance.bind fun _ _ ↦ hparent fun _ ↦ .include_) fun _ ↦ ?_
  refine .ite (fun _ ↦ yields_advance.bind fun _ _ ↦ hparent fun _ ↦ .prepend) fun _ ↦ ?_
  refine .ite (fun _ ↦ yields_advance.bind fun _ _ ↦ hparent fun _ ↦ .extend) fun _ ↦ ?_
  refine .ite (fun _ ↦ yields_advance.bind fun _ _ ↦ .pure (forall_mem_none _)) fun _ ↦ ?_
  refine Preserves.get.bind fun _ _ ↦ .ite (fun _ ↦ ?_) fun _ ↦ ?_
  · exact yields_advance.bind fun _ _ ↦ yields_advance.bind fun _ _ ↦
      (yields_skipInstanceVariable scope).bind fun _ _ ↦ .pure (forall_mem_none _)
  · refine (hinner scope).bind fun found hfound ↦ ?_
    cases found with
    | some declaration => exact .pure (forall_mem_some (.declaration (hfound declaration rfl)))
    | none =>
      exact (yields_skipValueDeclaration scope).bind fun _ _ ↦
        .ite (fun _ ↦ .pure (forall_mem_none _)) fun _ ↦ yields_fail _

theorem yields_member (scope : List String) :
    Yields tokens (Parse.member inner scope) fun found ↦
      ∀ member ∈ found, member.Spelled tokens scope := by
  refine yields_currentKind.bind fun kind _ ↦ ?_
  cases kind with
  | ident word => exact yields_wordMember hinner scope word
  | instanceVar name =>
    exact (yields_skipInstanceVariable scope).bind fun _ _ ↦ .pure (forall_mem_none _)
  | _ => exact yields_fail _

/-- A member that is skipped adds nothing. -/
theorem yields_members (scope : List String) :
    Yields tokens (Parse.members inner scope) fun members ↦
      ∀ member ∈ members, member.Spelled tokens scope := by
  refine yields_iterate (fun members : List Member ↦
    ∀ member ∈ members, member.Spelled tokens scope) (List.forall_mem_nil _)
    fun members hmembers ↦ ?_
  refine (yields_eatWord _).bind fun _ _ ↦ .ite (fun _ ↦ .pure hmembers) fun _ ↦ ?_
  refine yields_currentKind.bind fun _ _ ↦ .ite (fun _ ↦ yields_fail _) fun _ ↦ ?_
  refine (yields_member hinner scope).bind fun found hfound ↦ ?_
  cases found with
  | some member => exact .pure (forall_mem_snoc hmembers (hfound member rfl))
  | none => exact .pure hmembers

theorem yields_classDeclaration (scope : List String) :
    Yields tokens (Parse.classDeclaration inner scope) (Declaration.Spelled tokens scope) := by
  refine yields_typeName.bind fun name hname ↦ (yields_eat .equals).bind fun _ _ ↦
    .ite (fun _ ↦ yields_typeName.bind fun _ hold ↦ .pure (.classAlias hname hold)) fun _ ↦ ?_
  refine (yields_typeParams scope).bind fun params hparams ↦ (yields_eat .less).bind fun _ _ ↦ ?_
  extract_lets behindParent
  have hparent : ∀ superclass : Option Parent, (∀ parent ∈ superclass,
      parent.Spelled tokens (scope ++ params.map TypeParam.name)) →
      Yields tokens (behindParent superclass) (Declaration.Spelled tokens scope) :=
    fun _ hsuperclass ↦ (yields_members hinner _).bind fun _ hmembers ↦
      .pure (.class_ hname hparams hsuperclass hmembers)
  refine .ite (fun _ ↦ ?_) fun _ ↦ ?_
  · exact ((yields_parent _).map fun _ ↦ forall_mem_some).bind hparent
  · exact (Preserves.pure (forall_mem_none _)).bind hparent

theorem yields_moduleDeclaration (scope : List String) :
    Yields tokens (Parse.moduleDeclaration inner scope) (Declaration.Spelled tokens scope) := by
  refine yields_typeName.bind fun name hname ↦ (yields_eat .equals).bind fun _ _ ↦
    .ite (fun _ ↦ yields_typeName.bind fun _ hold ↦ .pure (.classAlias hname hold)) fun _ ↦ ?_
  refine (yields_typeParams scope).bind fun params hparams ↦ (yields_eat .colon).bind fun _ _ ↦ ?_
  extract_lets behindSelfTypes
  have hselfTypes : ∀ selfTypes : List Parent, (∀ parent ∈ selfTypes,
      parent.Spelled tokens (scope ++ params.map TypeParam.name)) →
      Yields tokens (behindSelfTypes selfTypes) (Declaration.Spelled tokens scope) :=
    fun _ hselfTypes ↦ (yields_members hinner _).bind fun _ hmembers ↦
      .pure (.module_ hname hparams hselfTypes hmembers)
  refine .ite (fun _ ↦ ?_) fun _ ↦ ?_
  · exact (yields_commaSeparated (yields_parent _)).bind hselfTypes
  · exact hselfTypes [] (List.forall_mem_nil _)

theorem yields_interfaceDeclaration (scope : List String) :
    Yields tokens (Parse.interfaceDeclaration inner scope) (Declaration.Spelled tokens scope) :=
  yields_typeName.bind fun _ hname ↦ (yields_typeParams scope).bind fun _ hparams ↦
    (yields_members hinner _).bind fun _ hmembers ↦ .pure (.interface hname hparams hmembers)

omit hinner in
theorem yields_typeAliasDeclaration (scope : List String) :
    Yields tokens (Parse.typeAliasDeclaration scope) (Declaration.Spelled tokens scope) :=
  yields_typeName.bind fun _ hname ↦ (yields_typeParams scope).bind fun _ hparams ↦
    (yields_expect .equals _).bind fun _ _ ↦ (yields_type _).bind fun _ htype ↦
    .pure (.typeAlias hname hparams htype)

theorem yields_declarationWith (scope : List String) :
    Yields tokens (Parse.declarationWith inner scope) fun found ↦
      ∀ declaration ∈ found, declaration.Spelled tokens scope := by
  have hsome : ∀ {reading : Parse Declaration},
      Yields tokens reading (Declaration.Spelled tokens scope) →
      Yields tokens (do return some (← reading)) fun found ↦
        ∀ declaration ∈ found, declaration.Spelled tokens scope :=
    fun hreading ↦ hreading.bind fun _ hdeclaration ↦ .pure (forall_mem_some hdeclaration)
  refine (yields_eatWord _).bind fun _ _ ↦
    .ite (fun _ ↦ hsome (yields_classDeclaration hinner scope)) fun _ ↦ ?_
  refine (yields_eatWord _).bind fun _ _ ↦
    .ite (fun _ ↦ hsome (yields_moduleDeclaration hinner scope)) fun _ ↦ ?_
  refine (yields_eatWord _).bind fun _ _ ↦
    .ite (fun _ ↦ hsome (yields_interfaceDeclaration hinner scope)) fun _ ↦ ?_
  exact (yields_eatWord _).bind fun _ _ ↦
    .ite (fun _ ↦ hsome (yields_typeAliasDeclaration scope)) fun _ ↦ .pure (forall_mem_none _)

end Nested

/-- By induction on the bound, for all scopes at once. -/
theorem yields_declarationUpTo (depth : Nat) (scope : List String) :
    Yields tokens (Parse.declarationUpTo depth scope) fun found ↦
      ∀ declaration ∈ found, declaration.Spelled tokens scope := by
  induction depth generalizing scope with
  | zero => exact yields_fail _
  | succ depth ih => exact yields_declarationWith ih scope

theorem yields_skipUseClause : Yields tokens Parse.skipUseClause fun _ ↦ True := by
  refine (yields_eat .doubleColon).bind fun _ _ ↦ (yields_ident _).bind fun _ _ ↦ ?_
  refine (yields_iterate (fun _ : Unit ↦ True) trivial fun _ _ ↦ ?_).bind fun _ _ ↦ ?_
  · refine (yields_eat .doubleColon).bind fun _ _ ↦ .ite (fun _ ↦ ?_) fun _ ↦ .pure trivial
    refine (yields_eat .star).bind fun _ _ ↦ .ite (fun _ ↦ .pure trivial) fun _ ↦ ?_
    exact (yields_ident _).bind fun _ _ ↦ .pure trivial
  · refine (yields_eatWord _).bind fun _ _ ↦ .ite (fun _ ↦ ?_) fun _ ↦ .pure trivial
    exact (yields_ident _).bind fun _ _ ↦ .pure trivial

/-- The declarations of a file have nothing in scope. -/
theorem yields_declarations : Yields tokens Parse.declarations fun declarations ↦
    ∀ declaration ∈ declarations, declaration.Spelled tokens [] := by
  refine yields_iterate (fun declarations : List Declaration ↦
    ∀ declaration ∈ declarations, declaration.Spelled tokens []) (List.forall_mem_nil _)
    fun declarations hdeclarations ↦ ?_
  refine yields_currentKind.bind fun _ _ ↦ .ite (fun _ ↦ .pure hdeclarations) fun _ ↦ ?_
  refine (yields_eatWord _).bind fun _ _ ↦ .ite (fun _ ↦ ?_) fun _ ↦ ?_
  · exact (yields_commaSeparated yields_skipUseClause).bind fun _ _ ↦ .pure hdeclarations
  · refine Preserves.bind (Preserves.get.bind fun _ _ ↦ yields_declarationUpTo _ [])
      fun found hfound ↦ ?_
    cases found with
    | some declaration =>
      exact .pure (forall_mem_snoc hdeclarations (hfound declaration rfl))
    | none =>
      exact (yields_skipValueDeclaration []).bind fun _ _ ↦
        .ite (fun _ ↦ .pure hdeclarations) fun _ ↦ yields_fail _

/-- What a text declares is spelled with its tokens, whatever they meet. -/
theorem spelled_of_parseSignature {source : String} {declarations : List Declaration}
    (heof : tokens .eof) (htokens : ∀ token ∈ validTokens (scan source), tokens token.kind)
    (h : parseSignature source = .ok declarations) :
    ∀ declaration ∈ declarations, declaration.Spelled tokens [] := by
  obtain ⟨-, after, hrun⟩ := parseAll_eq_ok_iff.1 h
  exact ((yields_declarations (.start source) ⟨heof, htokens⟩).of_run hrun).1

end DeclaredMethods.Signature
