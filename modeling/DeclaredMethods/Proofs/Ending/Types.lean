import DeclaredMethods.Proofs.Ending.Stopping
import DeclaredMethods.Signature.Parser.Type

/-!
# Types up to an end

No production of types reads past an end. There is one rule for every production: given that the
reader for primary types inside it stops, the production does. A primary type reads a token before
the types inside it, so it stops one token further from the end than they do.
-/

namespace DeclaredMethods.Signature.Parse

variable {ending : Ending} {limit : Nat}

/-- A type name has a token. -/
theorem stops_typeName : Stops ending limit (fun _ ↦ 1) typeName typeName := by
  refine (stops_eat .doubleColon).bind fun _ ↦ (stops_ident _).bind_least fun first ↦ ?_
  refine (stops_iterate (fun (path, name) short long halong hlimit ↦ Simulates.get_bind ?_) _).bind
    fun _ ↦ .pure rfl
  rw [halong.atMark_eq]
  cases hdouble : short.atMark .doubleColon with
  | false => exact stopsAt_pure halong rfl
  | true =>
    have hkind := current_of_atMark hdouble
    rw [halong.next_eq (hkind ▸ TokenKind.noConfusion)]
    cases hident : short.next.kind.isIdent with
    | false => exact stopsAt_pure halong rfl
    | true =>
      exact stopsAt_behind_token Round.cost_le_one halong (Nat.lt_succ_of_lt hlimit)
        (hkind ▸ TokenKind.noConfusion) ((stops_ident _).bind fun _ ↦ .pure rfl)

theorem stops_label : Stops ending limit (fun _ ↦ 0) label? label? := by
  intro short long halong _
  apply Simulates.get_bind
  rw [halong.current_eq]
  cases hkind : short.current.kind with
  | ident name =>
    dsimp only
    rw [halong.nextIsMark_eq (hkind ▸ TokenKind.noConfusion)]
    cases hcolon : short.nextIsMark .colon with
    | false => exact stopsAt_pure halong rfl
    | true =>
      have hnext : short.advance.current.kind = .mark .colon :=
        (kind_current_advance short).trans (eq_of_isMark hcolon)
      refine stopsAt_advance_bind halong hkind TokenKind.noConfusion fun halong' _ ↦ ?_
      exact stopsAt_advance_bind halong' hnext TokenKind.noConfusion
        fun halong'' _ ↦ stopsAt_pure halong'' rfl
  | _ => exact stopsAt_pure halong rfl

section Productions

variable {inner inner' : Parse TypeExpr} (h : Stops ending limit (fun _ ↦ 0) inner inner')
include h

theorem stops_optionalType :
    Stops ending limit (fun _ ↦ 0) (optionalType inner) (optionalType inner') := by
  refine h.bind fun type short long halong _ ↦ Simulates.get_bind ?_
  rw [halong.atMark_eq]
  cases hquestion : short.atMark .question with
  | false => exact stopsAt_pure halong rfl
  | true =>
    have hkind := current_of_atMark hquestion
    rw [halong.nextIsMark_eq (hkind ▸ TokenKind.noConfusion)]
    split
    · exact stopsAt_advance_bind halong hkind TokenKind.noConfusion
        fun halong' _ ↦ stopsAt_pure halong' rfl
    · exact stopsAt_pure halong rfl

/-- A chain goes on behind a mark, which is a token. -/
theorem stops_chain (mark : Mark) (make : List TypeExpr → TypeExpr) :
    Stops ending limit (fun _ ↦ 0) (chain mark make inner) (chain mark make inner') := by
  refine h.bind fun first ↦ (stops_whileMark mark h [first]).bind fun types ↦ ?_
  split
  · exact .pure rfl
  · exact .pure rfl

theorem stops_fullType :
    Stops ending limit (fun _ ↦ 0) (fullType inner) (fullType inner') :=
  stops_chain (stops_chain (stops_optionalType h) .ampersand .intersection) .pipe .union

theorem stops_param : Stops ending limit (fun _ ↦ 0) (param inner) (param inner') := by
  refine (stops_fullType h).bind fun type short long halong _ ↦ stopsAt_currentKind_bind halong ?_
  cases hkind : short.current.kind with
  | ident name =>
    exact stopsAt_advance_bind halong hkind TokenKind.noConfusion
      fun halong' _ ↦ stopsAt_pure halong' rfl
  | _ => exact stopsAt_pure halong rfl

theorem stops_addParam (params : Params) :
    Stops ending limit (fun _ ↦ 0) (addParam inner params) (addParam inner' params) := by
  have hparam := stops_param h
  refine (stops_eat .doubleStar).bind fun _ ↦ .ite (hparam.bind fun _ ↦ .pure rfl) ?_
  refine (stops_eat .star).bind fun _ ↦ .ite (hparam.bind fun _ ↦ .pure rfl) ?_
  refine (stops_eat .question).bind fun isOptional ↦ stops_label.bind fun label ↦ ?_
  cases label with
  | some keyword => exact hparam.bind fun _ ↦ .ite (.pure rfl) (.pure rfl)
  | none => exact hparam.bind fun _ ↦ .ite (.pure rfl) (.ite (.pure rfl) (.pure rfl))

theorem stops_params : Stops ending limit (fun _ ↦ 0) (params inner) (params inner') := by
  refine (stops_eat .leftParen).bind fun _ ↦ .ite ?_ (.pure rfl)
  exact (stops_itemsUntil .rightParen (stops_addParam h) _).bind fun _ ↦
    (stops_expect .rightParen _).bind fun _ ↦ .pure rfl

theorem stops_skipSelfBinding :
    Stops ending limit (fun _ ↦ 0) (skipSelfBinding inner) (skipSelfBinding inner') := by
  intro short long halong hlimit
  apply Simulates.get_bind
  rw [halong.atMark_eq]
  cases hbracket : short.atMark .leftBracket with
  | false => exact stopsAt_pure halong rfl
  | true =>
    have hkind := current_of_atMark hbracket
    rw [halong.next_eq (hkind ▸ TokenKind.noConfusion)]
    cases hself : short.next.kind.isWord "self" with
    | false => exact stopsAt_pure halong rfl
    | true =>
      obtain ⟨word, hnext⟩ := exists_of_isWord hself
      have hword := (kind_current_advance short).trans hnext
      refine stopsAt_advance_bind halong hkind TokenKind.noConfusion fun halong' hread ↦ ?_
      have hlimit' : short.advance.upcoming.length < limit + 1 := by omega
      refine stopsAt_behind_token (fun _ ↦ Nat.zero_le 1) halong' hlimit'
        (hword ▸ TokenKind.noConfusion) ?_
      refine (stops_expect .colon _).bind fun _ ↦ (stops_fullType h).bind fun _ ↦ ?_
      exact (stops_expect .rightBracket _).mono (Nat.le_refl _) fun _ ↦ Nat.zero_le _

theorem stops_blockBody (required : Bool) :
    Stops ending limit (fun _ ↦ 0) (blockBody inner required) (blockBody inner' required) :=
  (stops_expect .leftBrace _).bind fun _ ↦ (stops_params h).bind fun _ ↦
    (stops_skipSelfBinding h).bind fun _ ↦ (stops_expect .arrow _).bind fun _ ↦
      (stops_optionalType h).bind fun _ ↦ (stops_expect .rightBrace _).bind fun _ ↦ .pure rfl

theorem stops_block : Stops ending limit (fun _ ↦ 0) (block? inner) (block? inner') := by
  intro short long halong hlimit
  have hbody : ∀ required, Stops ending limit (fun _ ↦ 0)
      (blockBody inner required >>= fun block ↦ pure (some block))
      (blockBody inner' required >>= fun block ↦ pure (some block)) :=
    fun required ↦ (stops_blockBody h required).bind fun _ ↦ .pure rfl
  have hrequired : StopsAt ending (fun _ ↦ 0)
      (if short.atMark .leftBrace then blockBody inner true >>= fun block ↦ pure (some block)
        else pure none)
      (if short.atMark .leftBrace then blockBody inner' true >>= fun block ↦ pure (some block)
        else pure none) short long :=
    Stops.ite (hbody true) (.pure rfl) short long halong hlimit
  apply Simulates.get_bind
  rw [halong.atMark_eq, halong.atMark_eq]
  cases hquestion : short.atMark .question with
  | false => exact hrequired
  | true =>
    have hkind := current_of_atMark hquestion
    rw [halong.nextIsMark_eq (hkind ▸ TokenKind.noConfusion)]
    cases short.nextIsMark .leftBrace with
    | false => exact hrequired
    | true =>
      exact stopsAt_advance_bind halong hkind TokenKind.noConfusion
        fun halong' hread ↦ hbody false _ _ halong' (by omega)

theorem stops_function (typeParams : List String) :
    Stops ending limit (fun _ ↦ 0) (function inner typeParams) (function inner' typeParams) :=
  (stops_params h).bind fun _ ↦ (stops_skipSelfBinding h).bind fun _ ↦
    (stops_block h).bind fun _ ↦ (stops_expect .arrow _).bind fun _ ↦
      (stops_optionalType h).bind fun _ ↦ .pure rfl

theorem stops_typeArgs : Stops ending limit (fun _ ↦ 0) (typeArgs inner) (typeArgs inner') := by
  refine (stops_eat .leftBracket).bind fun _ ↦ .ite ?_ (.pure rfl)
  exact (stops_commaSeparated (stops_fullType h)).bind fun _ ↦
    (stops_expect .rightBracket _).bind fun _ ↦ .pure rfl

/-- The arguments of a named type stand behind its name. -/
theorem stops_namedType (scope : List String) :
    Stops ending (limit + 1) (fun _ ↦ 0) (namedType scope inner) (namedType scope inner') :=
  stops_typeName.bind_least fun _ ↦ (stops_typeArgs h).bind fun _ ↦ .ite (.pure rfl) (.pure rfl)

theorem stops_tuple : Stops ending limit (fun _ ↦ 0) (tuple inner) (tuple inner') := by
  refine (stops_itemsUntil .rightBracket (fun items ↦ ?_) []).bind fun _ ↦
    (stops_expect .rightBracket _).bind fun _ ↦ .pure rfl
  exact (stops_fullType h).bind fun _ ↦ .pure rfl

omit h in
theorem stops_recordKey : Stops ending limit (fun _ ↦ 0) recordKey recordKey := by
  refine stops_label.bind fun label ↦ ?_
  cases label with
  | some key => exact .pure rfl
  | none =>
    intro short long halong hlimit
    have harrow : ∀ key : String, Stops ending limit (fun _ ↦ 0)
        (expect .fatArrow "`=>`" >>= fun _ ↦ pure key)
        (expect .fatArrow "`=>`" >>= fun _ ↦ pure key) :=
      fun key ↦ (stops_expect .fatArrow _).bind fun _ ↦ .pure rfl
    refine stopsAt_currentKind_bind halong ?_
    cases hkind : short.current.kind with
    | symbol key | str key | int key =>
      exact stopsAt_advance_bind halong hkind TokenKind.noConfusion
        fun halong' hread ↦ harrow _ _ _ halong' (by omega)
    | _ => exact stopsAt_fail halong _

theorem stops_record : Stops ending limit (fun _ ↦ 0) (record inner) (record inner') := by
  refine (stops_itemsUntil .rightBrace (fun fields ↦ ?_) []).bind fun _ ↦
    (stops_expect .rightBrace _).bind fun _ ↦ .pure rfl
  exact (stops_eat .question).bind fun _ ↦ stops_recordKey.bind fun _ ↦
    (stops_fullType h).bind fun _ ↦ .pure rfl

/-- The type that a word stands for, or the name that starts with it. -/
theorem stopsAt_wordType (scope : List String) (word : String) {short long : Cursor}
    (halong : Alongside ending short long) (hlimit : short.upcoming.length < limit + 1)
    (hkind : short.current.kind = .ident word) :
    StopsAt ending (fun _ ↦ 0) (wordType scope inner word) (wordType scope inner' word) short
      long := by
  have hne : short.current.kind ≠ .eof := hkind ▸ TokenKind.noConfusion
  have hnamed := stops_namedType h scope short long halong hlimit
  have hword : ∀ type : TypeExpr, StopsAt ending (fun _ ↦ 0) (advance >>= fun _ ↦ pure type)
      (advance >>= fun _ ↦ pure type) short long := fun type ↦
    stopsAt_advance_bind halong hkind TokenKind.noConfusion
      fun halong' _ ↦ stopsAt_pure halong' rfl
  apply Simulates.get_bind
  rw [halong.nextIsMark_eq hne, halong.nextIsMark_eq hne]
  refine .ite (fun _ ↦ hnamed) fun _ ↦ .ite (fun _ ↦ hword _) fun _ ↦ .ite (fun _ ↦ hword _)
    fun _ ↦ .ite (fun hsingleton ↦ ?_) fun _ ↦ ?_
  · have hparen : short.advance.current.kind = .mark .leftParen :=
      (kind_current_advance short).trans (eq_of_isMark (Bool.and_eq_true _ _ ▸ hsingleton).2)
    refine stopsAt_advance_bind halong hkind TokenKind.noConfusion fun halong' _ ↦ ?_
    exact stopsAt_behind_token (fun _ ↦ Nat.zero_le 1) halong' (Nat.lt_succ_self _)
      (hparen ▸ TokenKind.noConfusion)
      (stops_typeName.bind fun _ ↦ (stops_expect .rightParen _).bind fun _ ↦ .pure rfl)
  · split
    · exact hword _
    · exact hnamed

/-- A primary type reads a token before the types inside it. -/
theorem stops_primaryWith (scope : List String) :
    Stops ending (limit + 1) (fun _ ↦ 0) (primaryWith scope inner) (primaryWith scope inner') := by
  intro short long halong hlimit
  apply stopsAt_currentKind_bind halong
  have hinside : ∀ {next next' : Parse TypeExpr}, Stops ending limit (fun _ ↦ 0) next next' →
      short.current.kind ≠ .eof → StopsAt ending (fun _ ↦ 0) (advance >>= fun _ ↦ next)
        (advance >>= fun _ ↦ next') short long := fun hnext hne ↦
    stopsAt_behind_token (fun _ ↦ Nat.zero_le 1) halong hlimit hne hnext
  cases hkind : short.current.kind with
  | mark mark =>
    rw [hkind] at hinside
    cases mark with
    | leftParen =>
      exact hinside ((stops_fullType h).bind fun _ ↦ (stops_expect .rightParen _).bind fun _ ↦
        .pure rfl) TokenKind.noConfusion
    | leftBracket => exact hinside (stops_tuple h) TokenKind.noConfusion
    | leftBrace => exact hinside (stops_record h) TokenKind.noConfusion
    | caret => exact hinside ((stops_function h []).bind fun _ ↦ .pure rfl) TokenKind.noConfusion
    | doubleColon => exact stops_namedType h scope short long halong hlimit
    | _ => exact stopsAt_fail halong _
  | int value | str value | symbol value =>
    exact hinside (.pure rfl) (hkind ▸ TokenKind.noConfusion)
  | ident word => exact stopsAt_wordType h scope word halong hlimit hkind
  | _ => exact stopsAt_fail halong _

end Productions

/-- Depths that exceed the number of tokens left do not show. -/
theorem stops_primaryUpTo (scope : List String) (depth depth' : Nat) (hdepth : limit ≤ depth)
    (hdepth' : limit ≤ depth') :
    Stops ending limit (fun _ ↦ 0) (primaryUpTo scope depth) (primaryUpTo scope depth') := by
  induction limit generalizing depth depth' with
  | zero => exact fun _ _ _ hlimit ↦ absurd hlimit (Nat.not_lt_zero _)
  | succ limit ih =>
    obtain ⟨depth, rfl⟩ := Nat.exists_eq_add_of_le' (Nat.le_trans (Nat.le_add_left 1 limit) hdepth)
    obtain ⟨depth', rfl⟩ :=
      Nat.exists_eq_add_of_le' (Nat.le_trans (Nat.le_add_left 1 limit) hdepth')
    have hinner := ih depth depth' (Nat.le_of_succ_le_succ hdepth) (Nat.le_of_succ_le_succ hdepth')
    exact stops_primaryWith hinner scope

/-- The bound on the depth is the number of tokens, which no nesting can exceed. -/
theorem stops_primary (scope : List String) :
    Stops ending limit (fun _ ↦ 0) (primary scope) (primary scope) := by
  intro short long halong _
  apply Simulates.get_bind
  exact stops_primaryUpTo scope short.rounds long.rounds (Nat.le_refl _)
    (Nat.succ_le_succ halong.length_le) short long halong (Nat.lt_succ_self _)

theorem stops_type (scope : List String) :
    Stops ending limit (fun _ ↦ 0) (type scope) (type scope) :=
  stops_fullType (stops_primary scope)

theorem stops_methodTypeParams (scope : List String) :
    Stops ending limit (fun _ ↦ 0) (methodTypeParams scope) (methodTypeParams scope) := by
  refine (stops_eat .leftBracket).bind fun _ ↦ .ite ?_ (.pure rfl)
  refine (stops_iterate (fun names ↦ ?_) []).bind fun _ ↦
    (stops_expect .rightBracket _).bind fun _ ↦ .pure rfl
  refine (stops_eatWord _).bind fun _ ↦ (stops_ident _).bind fun name ↦
    (stops_eat .less).bind fun bounded ↦ ?_
  have hround : Stops ending limit Round.cost
      (eat .comma >>= fun eaten ↦
        if eaten then pure (.again (names ++ [name])) else pure (.done (names ++ [name])))
      (eat .comma >>= fun eaten ↦
        if eaten then pure (.again (names ++ [name])) else pure (.done (names ++ [name]))) :=
    stops_round_eat .comma (.pure rfl) (.pure rfl)
  cases bounded with
  | true => exact (stops_type _).bind fun _ ↦ hround
  | false => exact hround

theorem stops_methodType (scope : List String) :
    Stops ending limit (fun _ ↦ 0) (methodType scope) (methodType scope) :=
  (stops_methodTypeParams scope).bind fun _ ↦ stops_function (stops_primary _) _

end DeclaredMethods.Signature.Parse
