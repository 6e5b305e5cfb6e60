import DeclaredMethods.Proofs.Ending.Types
import DeclaredMethods.Signature.Parser.Declaration

/-!
# Declarations up to an end

No production of declarations reads past an end. The members of a declaration stop if the reader for
the declarations inside it does, and a declaration reads a keyword before them.
-/

namespace DeclaredMethods.Signature.Parse

variable {ending : Ending} {limit : Nat}

theorem stops_typeParams (scope : List String) :
    Stops ending limit (fun _ ↦ 0) (typeParams scope) (typeParams scope) := by
  refine (stops_eat .leftBracket).bind fun _ ↦ .ite ?_ (.pure rfl)
  refine (stops_iterate (fun params ↦ ?_) []).bind fun _ ↦
    (stops_expect .rightBracket _).bind fun _ ↦ .pure rfl
  refine (stops_eatWord _).bind fun _ ↦ (stops_eatWord _).bind fun _ ↦ ?_
  -- The reading goes on in the same way with and without a variance, a bound and a default.
  extract_lets behindVariance
  have hvariance : ∀ done,
      Stops ending limit Round.cost (behindVariance done) (behindVariance done) := by
    refine fun _ ↦ (stops_ident _).bind fun name ↦ (stops_eat .less).bind fun _ ↦ ?_
    extract_lets behindBound
    have hbound : ∀ upperBound,
        Stops ending limit Round.cost (behindBound upperBound) (behindBound upperBound) := by
      refine fun upperBound ↦ (stops_eat .equals).bind fun _ ↦ ?_
      extract_lets params' behindDefault
      have hdefault : ∀ done,
          Stops ending limit Round.cost (behindDefault done) (behindDefault done) := fun _ ↦
        stops_round_eat .comma (.pure rfl) (.pure rfl)
      exact .ite ((stops_type _).bind fun _ ↦ hdefault ()) (hdefault ())
    refine .ite ?_ (hbound none)
    rw [bind_map_left]
    exact (stops_type _).bind fun type ↦ hbound (some type)
  exact .ite ((stops_eatWord _).bind fun _ ↦ hvariance ()) (hvariance ())

theorem stops_parent (scope : List String) :
    Stops ending limit (fun _ ↦ 0) (parent scope) (parent scope) :=
  stops_typeName.bind fun _ ↦ (stops_typeArgs (stops_primary scope)).bind fun _ ↦ .pure rfl

/-- A declaration of a value that is skipped has a token. -/
theorem stops_skipValueDeclaration (scope : List String) :
    Stops ending limit Bool.toNat (skipValueDeclaration scope) (skipValueDeclaration scope) := by
  intro short long halong hlimit
  have htype : Stops ending limit (fun _ ↦ 0) (skipValueDeclaration.skipValueType scope)
      (skipValueDeclaration.skipValueType scope) :=
    (stops_expect .colon _).bind fun _ ↦ (stops_type scope).bind fun _ ↦ .pure rfl
  have hnamed : Stops ending limit Bool.toNat
      (typeName >>= fun _ ↦ skipValueDeclaration.skipValueType scope)
      (typeName >>= fun _ ↦ skipValueDeclaration.skipValueType scope) :=
    stops_typeName.bind_least fun _ ↦ htype.mono (Nat.sub_le _ _)
      fun skipped ↦ Nat.sub_le_of_le_add skipped.toNat_le
  apply stopsAt_currentKind_bind halong
  split
  · next hkind =>
    exact stopsAt_behind_token Bool.toNat_le halong (Nat.lt_succ_of_lt hlimit)
      (hkind ▸ TokenKind.noConfusion) htype
  · exact hnamed short long halong hlimit
  · exact hnamed short long halong hlimit
  · exact stopsAt_pure halong rfl

theorem stops_skipInstanceVariable (scope : List String) :
    Stops ending limit (fun _ ↦ 1) (skipInstanceVariable scope) (skipInstanceVariable scope) := by
  intro short long halong hlimit
  apply stopsAt_currentKind_bind halong
  cases hkind : short.current.kind with
  | instanceVar name =>
    exact stopsAt_behind_token (fun _ ↦ Nat.le_refl 1) halong (Nat.lt_succ_of_lt hlimit)
      (hkind ▸ TokenKind.noConfusion)
      ((stops_expect .colon _).bind fun _ ↦ (stops_type scope).bind fun _ ↦ .pure rfl)
  | _ => exact stopsAt_fail halong _

theorem stops_memberScope : Stops ending limit (fun _ ↦ 0) memberScope memberScope := by
  intro short long halong hlimit
  apply Simulates.get_bind
  rw [halong.atWord_eq]
  cases hself : short.atWord "self" with
  | false => exact stopsAt_pure halong rfl
  | true =>
    obtain ⟨word, hkind⟩ := exists_of_isWord hself
    have hne : short.current.kind ≠ .eof := hkind ▸ TokenKind.noConfusion
    have hnext : ∀ {mark}, short.nextIsMark mark = true →
        short.advance.current.kind = .mark mark := fun hmark ↦
      (kind_current_advance short).trans (eq_of_isMark hmark)
    rw [halong.nextIsMark_eq hne, halong.nextIsMark_eq hne, Bool.true_and, Bool.true_and]
    cases hdot : short.nextIsMark .dot with
    | true =>
      refine stopsAt_advance_bind halong hkind TokenKind.noConfusion fun halong' _ ↦ ?_
      exact stopsAt_advance_bind halong' (hnext hdot) TokenKind.noConfusion
        fun halong'' _ ↦ stopsAt_pure halong'' rfl
    | false =>
      cases hquestion : short.nextIsMark .question with
      | false => exact stopsAt_pure halong rfl
      | true =>
        refine stopsAt_advance_bind halong hkind TokenKind.noConfusion fun halong' _ ↦ ?_
        exact stopsAt_behind_token (fun _ ↦ Nat.zero_le 1) halong' (Nat.lt_succ_self _)
          (hnext hquestion ▸ TokenKind.noConfusion) ((stops_expect .dot _).bind fun _ ↦ .pure rfl)

/-- A token of a class that the end is not in is in front of the end. -/
theorem ne_eof_of_test {test : TokenKind → Bool} (heof : test .eof = false) {kind : TokenKind}
    (h : test kind = true) : kind ≠ .eof := by
  rintro rfl
  exact Bool.false_ne_true (heof.symm.trans h)

/-- The marks of an operator. -/
theorem stops_operator (text : String) :
    Stops ending limit (fun _ ↦ 0)
      (iterate (fun name ↦ do
        let cursor ← get
        if cursor.isAdjacent && cursor.current.kind.isOperator then
          advance
          return .again (name ++ cursor.current.text)
        else
          return .done name) text)
      (iterate (fun name ↦ do
        let cursor ← get
        if cursor.isAdjacent && cursor.current.kind.isOperator then
          advance
          return .again (name ++ cursor.current.text)
        else
          return .done name) text) := by
  refine stops_iterate (fun name short long halong hlimit ↦ Simulates.get_bind ?_) text
  rw [halong.isAdjacent_eq, halong.current_eq]
  refine .ite (fun hmark ↦ ?_) fun _ ↦ stopsAt_pure halong rfl
  exact stopsAt_behind_token Round.cost_le_one halong (Nat.lt_succ_of_lt hlimit)
    (ne_eof_of_test rfl (Bool.and_eq_true _ _ ▸ hmark).2) (.pure rfl)

theorem stops_memberName : Stops ending limit (fun _ ↦ 0) memberName memberName := by
  intro short long halong hlimit
  have hzero : ∀ name : String, 0 ≤ 1 := fun _ ↦ Nat.zero_le 1
  apply Simulates.get_bind
  rw [halong.current_eq]
  dsimp only
  split
  · next name hkind =>
    refine stopsAt_behind_token hzero halong (Nat.lt_succ_of_lt hlimit)
      (hkind ▸ TokenKind.noConfusion) fun short' long' halong' hlimit' ↦ Simulates.get_bind ?_
    rw [halong'.isAdjacent_eq, halong'.current_eq]
    refine .ite (fun hsuffix ↦ ?_) fun _ ↦ stopsAt_pure halong' rfl
    exact stopsAt_behind_token hzero halong' (Nat.lt_succ_of_lt hlimit')
      (ne_eof_of_test rfl (Bool.and_eq_true _ _ ▸ hsuffix).2) (.pure rfl)
  · refine .ite (fun hmark ↦ ?_) fun _ ↦ stopsAt_fail halong _
    exact stopsAt_behind_token hzero halong (Nat.lt_succ_of_lt hlimit) (ne_eof_of_test rfl hmark)
      (stops_operator _)

theorem stops_overloads (scope : List String) :
    Stops ending limit (fun _ ↦ 0) (overloads scope) (overloads scope) := by
  refine stops_iterate (fun (overloads, _) ↦ ?_) _
  refine stops_round_eat .ellipsis (.pure rfl) ?_
  exact (stops_methodType scope).bind fun _ ↦ stops_round_eat .pipe (.pure rfl) (.pure rfl)

theorem stops_methodMember (scope : List String) :
    Stops ending limit (fun _ ↦ 0) (methodMember scope) (methodMember scope) :=
  stops_memberScope.bind fun _ ↦ stops_memberName.bind fun _ ↦
    (stops_expect .colon _).bind fun _ ↦ (stops_overloads scope).bind fun _ ↦ .pure rfl

theorem stops_attributeMember (scope : List String) (kind : AttributeKind) :
    Stops ending limit (fun _ ↦ 0) (attributeMember scope kind) (attributeMember scope kind) := by
  refine stops_memberScope.bind fun belonging ↦ (stops_ident _).bind fun name ↦
    (stops_eat .leftParen).bind fun _ ↦ ?_
  extract_lets behindVariable behindName
  have hvariable : ∀ done, Stops ending limit (fun _ ↦ 0) (behindVariable done)
      (behindVariable done) := fun _ ↦
    (stops_expect .colon _).bind fun _ ↦ (stops_type scope).bind fun _ ↦ .pure rfl
  have hname : ∀ done, Stops ending limit (fun _ ↦ 0) (behindName done) (behindName done) :=
    fun _ ↦ (stops_expect .rightParen _).bind fun _ ↦ hvariable ()
  refine .ite (fun short long halong hlimit ↦ ?_) (hvariable ())
  apply stopsAt_currentKind_bind halong
  cases hkind : short.current.kind with
  | instanceVar name =>
    exact stopsAt_behind_token (fun _ ↦ Nat.zero_le 1) halong (Nat.lt_succ_of_lt hlimit)
      (hkind ▸ TokenKind.noConfusion) (hname ())
  | _ => exact hname () short long halong hlimit

theorem stops_aliasMember : Stops ending limit (fun _ ↦ 0) aliasMember aliasMember :=
  stops_memberScope.bind fun _ ↦ stops_memberName.bind fun _ ↦
    stops_memberScope.bind fun _ ↦ stops_memberName.bind fun _ ↦ .pure rfl

section Nested

variable {inner inner' : DeclarationReader}
  (h : ∀ scope, Stops ending limit (fun found ↦ found.isSome.toNat) (inner scope) (inner' scope))
include h

/-- A member reads the word it starts with before anything inside it. -/
theorem stopsAt_wordMember (scope : List String) (word : String) {short long : Cursor}
    (halong : Alongside ending short long) (hlimit : short.upcoming.length < limit)
    (hkind : short.current.kind = .ident word) :
    StopsAt ending (fun _ ↦ 1) (wordMember inner scope word) (wordMember inner' scope word) short
      long := by
  have hne : short.current.kind ≠ .eof := hkind ▸ TokenKind.noConfusion
  have hkeyword : ∀ {next : Parse (Option Member)}, Stops ending limit (fun _ ↦ 0) next next →
      StopsAt ending (fun _ ↦ 1) (advance >>= fun _ ↦ next) (advance >>= fun _ ↦ next) short long :=
    fun hnext ↦ stopsAt_behind_token (fun _ ↦ Nat.le_refl 1) halong (Nat.lt_succ_of_lt hlimit) hne
      hnext
  have hsome : ∀ {α : Type} {reading : Parse α} (make : α → Member),
      Stops ending limit (fun _ ↦ 0) reading reading →
      StopsAt ending (fun _ ↦ 1) (do advance; return some (make (← reading)))
        (do advance; return some (make (← reading))) short long :=
    fun make hreading ↦ hkeyword (hreading.bind fun _ ↦ .pure rfl)
  refine .ite (fun _ ↦ hsome id (stops_methodMember scope)) fun _ ↦ ?_
  refine .ite (fun _ ↦ hsome id (stops_attributeMember scope _)) fun _ ↦ ?_
  refine .ite (fun _ ↦ hsome id (stops_attributeMember scope _)) fun _ ↦ ?_
  refine .ite (fun _ ↦ hsome id (stops_attributeMember scope _)) fun _ ↦ ?_
  refine .ite (fun _ ↦ hsome id stops_aliasMember) fun _ ↦ ?_
  refine .ite (fun _ ↦ hsome .include_ (stops_parent scope)) fun _ ↦ ?_
  refine .ite (fun _ ↦ hsome .prepend (stops_parent scope)) fun _ ↦ ?_
  refine .ite (fun _ ↦ hsome .extend (stops_parent scope)) fun _ ↦ ?_
  refine .ite (fun _ ↦ hkeyword (.pure rfl)) fun _ ↦ ?_
  apply Simulates.get_bind
  rw [halong.nextIsMark_eq hne]
  refine .ite (fun hself ↦ ?_) fun _ ↦ ?_
  · have hdot : short.advance.current.kind = .mark .dot :=
      (kind_current_advance short).trans (eq_of_isMark (Bool.and_eq_true _ _ ▸ hself).2)
    refine stopsAt_advance_bind halong hkind TokenKind.noConfusion fun halong' _ ↦ ?_
    exact stopsAt_behind_token (fun _ ↦ Nat.zero_le 1) halong' (Nat.lt_succ_self _)
      (hdot ▸ TokenKind.noConfusion) ((stops_skipInstanceVariable scope).bind fun _ ↦ .pure rfl)
  · refine (h scope).bind_least (fun found ↦ ?_) short long halong hlimit
    cases found with
    | some declaration => exact .pure rfl
    | none =>
      refine (stops_skipValueDeclaration scope).bind_least fun skipped ↦ ?_
      cases skipped with
      | true => exact .pure rfl
      | false => exact .fail _

/-- A member is read or skipped as a whole. -/
theorem stops_member (scope : List String) :
    Stops ending limit (fun _ ↦ 1) (member inner scope) (member inner' scope) := by
  intro short long halong hlimit
  apply stopsAt_currentKind_bind halong
  cases hkind : short.current.kind with
  | ident word => exact stopsAt_wordMember h scope word halong hlimit hkind
  | instanceVar name =>
    refine (stops_skipInstanceVariable scope).bind_least (fun _ ↦ ?_) short long halong hlimit
    exact .pure rfl
  | _ => exact stopsAt_fail halong _

/-- Each member has a token, so the loop over them ends in front of the end. -/
theorem stops_members (scope : List String) :
    Stops ending limit (fun _ ↦ 0) (members inner scope) (members inner' scope) := by
  refine stops_iterate (fun members ↦ ?_) []
  refine stops_if_eaten Round.cost_le_one (stops_eatWord "end") (.pure rfl) ?_
  refine .currentKind_bind fun kind ↦ .ite (.fail _) ?_
  refine (stops_member h scope).bind_least fun found ↦ ?_
  cases found with
  | some member => exact .pure rfl
  | none => exact .pure rfl

theorem stops_classDeclaration (scope : List String) :
    Stops ending limit (fun _ ↦ 0) (classDeclaration inner scope)
      (classDeclaration inner' scope) := by
  refine stops_typeName.bind fun name ↦ (stops_eat .equals).bind fun _ ↦
    .ite (stops_typeName.bind fun _ ↦ .pure rfl) ?_
  refine (stops_typeParams scope).bind fun params ↦ (stops_eat .less).bind fun _ ↦ ?_
  extract_lets behindParent behindParent'
  have hmembers : ∀ superclass, Stops ending limit (fun _ ↦ 0) (behindParent superclass)
      (behindParent' superclass) := fun _ ↦ (stops_members h _).bind fun _ ↦ .pure rfl
  refine .ite ?_ (hmembers none)
  rw [bind_map_left, bind_map_left]
  exact (stops_parent _).bind fun superclass ↦ hmembers (some superclass)

theorem stops_moduleDeclaration (scope : List String) :
    Stops ending limit (fun _ ↦ 0) (moduleDeclaration inner scope)
      (moduleDeclaration inner' scope) := by
  refine stops_typeName.bind fun name ↦ (stops_eat .equals).bind fun _ ↦
    .ite (stops_typeName.bind fun _ ↦ .pure rfl) ?_
  refine (stops_typeParams scope).bind fun params ↦ (stops_eat .colon).bind fun _ ↦ ?_
  extract_lets behindSelfTypes behindSelfTypes'
  have hmembers : ∀ selfTypes, Stops ending limit (fun _ ↦ 0) (behindSelfTypes selfTypes)
      (behindSelfTypes' selfTypes) := fun _ ↦ (stops_members h _).bind fun _ ↦ .pure rfl
  exact .ite ((stops_commaSeparated (stops_parent _)).bind hmembers) (hmembers [])

theorem stops_interfaceDeclaration (scope : List String) :
    Stops ending limit (fun _ ↦ 0) (interfaceDeclaration inner scope)
      (interfaceDeclaration inner' scope) :=
  stops_typeName.bind fun _ ↦ (stops_typeParams scope).bind fun _ ↦
    (stops_members h _).bind fun _ ↦ .pure rfl

omit h in
theorem stops_typeAliasDeclaration (scope : List String) :
    Stops ending limit (fun _ ↦ 0) (typeAliasDeclaration scope) (typeAliasDeclaration scope) :=
  stops_typeName.bind fun _ ↦ (stops_typeParams scope).bind fun _ ↦
    (stops_expect .equals _).bind fun _ ↦ (stops_type _).bind fun _ ↦ .pure rfl

/-- A declaration reads its keyword before the declarations inside it. -/
theorem stops_declarationWith (scope : List String) :
    Stops ending (limit + 1) (fun found ↦ found.isSome.toNat) (declarationWith inner scope)
      (declarationWith inner' scope) := by
  have hone : ∀ found : Option Declaration, found.isSome.toNat ≤ 1 := fun _ ↦ Bool.toNat_le _
  refine stops_if_eaten hone (stops_eatWord "class")
    ((stops_classDeclaration h scope).bind fun _ ↦ .pure rfl) ?_
  refine stops_if_eaten hone (stops_eatWord "module")
    ((stops_moduleDeclaration h scope).bind fun _ ↦ .pure rfl) ?_
  refine stops_if_eaten hone (stops_eatWord "interface")
    ((stops_interfaceDeclaration h scope).bind fun _ ↦ .pure rfl) ?_
  exact stops_if_eaten hone (stops_eatWord "type")
    ((stops_typeAliasDeclaration scope).bind fun _ ↦ .pure rfl) (.pure rfl)

end Nested

/-- Depths that exceed the number of tokens left do not show. -/
theorem stops_declarationUpTo (scope : List String) (depth depth' : Nat) (hdepth : limit ≤ depth)
    (hdepth' : limit ≤ depth') :
    Stops ending limit (fun found ↦ found.isSome.toNat) (declarationUpTo depth scope)
      (declarationUpTo depth' scope) := by
  induction limit generalizing scope depth depth' with
  | zero => exact fun _ _ _ hlimit ↦ absurd hlimit (Nat.not_lt_zero _)
  | succ limit ih =>
    obtain ⟨depth, rfl⟩ := Nat.exists_eq_add_of_le' (Nat.le_trans (Nat.le_add_left 1 limit) hdepth)
    obtain ⟨depth', rfl⟩ :=
      Nat.exists_eq_add_of_le' (Nat.le_trans (Nat.le_add_left 1 limit) hdepth')
    refine stops_declarationWith (fun scope ↦ ?_) scope
    exact ih scope depth depth' (Nat.le_of_succ_le_succ hdepth) (Nat.le_of_succ_le_succ hdepth')

/-- The bound on the depth is the number of tokens, which no nesting can exceed. -/
theorem stops_declaration :
    Stops ending limit (fun found ↦ found.isSome.toNat) declaration? declaration? := by
  intro short long halong _
  apply Simulates.get_bind
  exact stops_declarationUpTo [] short.rounds long.rounds (Nat.le_refl _)
    (Nat.succ_le_succ halong.length_le) short long halong (Nat.lt_succ_self _)

theorem stops_skipUseClause : Stops ending limit (fun _ ↦ 0) skipUseClause skipUseClause := by
  refine (stops_eat .doubleColon).bind fun _ ↦ (stops_ident _).bind fun _ ↦ ?_
  refine (stops_iterate (fun _ ↦ ?_) ()).bind fun _ ↦ (stops_eatWord _).bind fun _ ↦
    .ite ((stops_ident _).bind fun _ ↦ .pure rfl) (.pure rfl)
  refine stops_round_eat .doubleColon ?_ (.pure rfl)
  exact (stops_eat .star).bind fun _ ↦ .ite (.pure rfl) ((stops_ident _).bind fun _ ↦ .pure rfl)

def fileRound (declarations : List Declaration) : Parse (Round (List Declaration)) := do
  if (← currentKind).isEof then
    return .done declarations
  else if ← eatWord "use" then
    let _ ← commaSeparated skipUseClause
    return .again declarations
  else
    match ← declaration? with
    | some declaration => return .again (declarations ++ [declaration])
    | none =>
      if ← skipValueDeclaration [] then
        return .again declarations
      else
        fail "declaration"

theorem declarations_eq_iterate : declarations = iterate fileRound [] := rfl

/-- Every round of reading a file but the last reads a token. -/
theorem stops_fileRound (declarations : List Declaration) :
    Stops ending limit Round.cost (fileRound declarations) (fileRound declarations) := by
  refine .currentKind_bind fun kind ↦ .ite (.pure rfl) ?_
  refine stops_if_eaten Round.cost_le_one (stops_eatWord "use")
    ((stops_commaSeparated stops_skipUseClause).bind fun _ ↦ .pure rfl) ?_
  refine stops_declaration.bind_least fun found ↦ ?_
  cases found with
  | some declaration => exact .pure rfl
  | none =>
    refine (stops_skipValueDeclaration []).bind_least fun skipped ↦ ?_
    cases skipped with
    | true => exact .pure rfl
    | false => exact .fail _

/-- A file is done at the end only. -/
theorem isEof_of_run_fileRound {declarations result : List Declaration} {cursor after : Cursor}
    (h : (fileRound declarations).run cursor = .ok (.done result, after)) :
    cursor.current.kind.isEof = true ∧ after = cursor := by
  obtain ⟨kind, middle, hkind, h⟩ := run_bind_eq_ok h
  cases hkind
  cases heof : cursor.current.kind.isEof with
  | true =>
    rw [heof] at h
    cases h
    exact ⟨rfl, rfl⟩
  | false =>
    -- Every other way to go on ends in another round or fails.
    rw [heof, if_neg Bool.false_ne_true] at h
    obtain ⟨used, _, -, h⟩ := run_bind_eq_ok h
    cases used with
    | true =>
      obtain ⟨_, _, -, h⟩ := run_bind_eq_ok h
      cases h
    | false =>
      obtain ⟨found, _, -, h⟩ := run_bind_eq_ok h
      cases found with
      | some declaration => cases h
      | none =>
        obtain ⟨skipped, _, -, h⟩ := run_bind_eq_ok h
        cases skipped <;> cases h

theorem stops_declarations : Stops ending limit (fun _ ↦ 0) declarations declarations := by
  rw [declarations_eq_iterate]
  exact stops_iterate stops_fileRound []

end DeclaredMethods.Signature.Parse
