import DeclaredMethods.Proofs.Document.Following
import DeclaredMethods.Signature.Parser.Type

/-!
# Method types in front of other tokens

A method type that can be read from its own tokens is read in the same way where a bar or another
word follows it. There is one rule for every production of types: given that the reader for primary
types inside it is followed, the production is. Productions that end in a whole union are followed
only inside of others, where a closing mark stands behind them.
-/

namespace DeclaredMethods.Signature

namespace Parse

section Productions

variable {α : Type} {rest : List TokenKind} {inside : Bool} {inner inner' : Parse TypeExpr}

theorem follows_eatWord (word : String) : Follows rest true (eatWord word) (eatWord word) := by
  intro short long hbeside
  by_cases hnil : short.kinds = []
  · refine followsAt_of_lost (.inr ⟨rfl, hnil⟩) fun eaten after hrun ↦ ?_
    obtain ⟨_, _, hget, hrun⟩ := run_bind_eq_ok hrun
    cases hget
    rw [Cursor.atWord, short.kind_current, hnil] at hrun
    cases hrun
    exact ⟨rfl, rfl⟩
  · have hword : long.atWord word = short.atWord word := by
      rw [Cursor.atWord, Cursor.atWord, hbeside.current hnil]
    apply Simulates.get_bind
    rw [hword]
    cases hshort : short.atWord word with
    | false => exact followsAt_pure rfl
    | true =>
      obtain ⟨name, hname⟩ := exists_of_isWord hshort
      exact followsAt_advance_bind hbeside hname rfl fun _ ↦ followsAt_pure rfl

variable (hrest : (headKind rest).mayFollow = true)
include hrest

/-- Another segment of a type name. -/
theorem followsRound_segment (path : List String)
    (name : String) :
    FollowsRound rest false (do
        let cursor ← get
        if cursor.atMark .doubleColon && cursor.next.kind.isIdent then
          advance
          let inner ← ident "type name"
          return .again (path ++ [name], inner)
        else
          return .done (path, name))
      (do
        let cursor ← get
        if cursor.atMark .doubleColon && cursor.next.kind.isIdent then
          advance
          let inner ← ident "type name"
          return .again (path ++ [name], inner)
        else
          return .done (path, name)) := by
  intro short long hbeside
  by_cases hlost : short.kinds = [.mark .doubleColon]
  · -- The long cursor may go on behind the double colon, but the short one is lost.
    have hstop : (short.atMark .doubleColon && short.next.kind.isIdent) = false := by
      rw [short.kind_next, hlost]
      exact Bool.and_false _
    refine followsAt_of_lost (.inl hlost) fun round after hrun ↦ ?_
    obtain ⟨_, _, hget, hrun⟩ := run_bind_eq_ok hrun
    cases hget
    rw [if_neg (by simp [hstop])] at hrun
    cases hrun
    exact ⟨rfl, rfl⟩
  · have hmark : long.atMark .doubleColon = short.atMark .doubleColon :=
      hbeside.atMark hrest Mark.noConfusion
    apply Simulates.get_bind
    cases hdouble : short.atMark .doubleColon with
    | false =>
      rw [hmark, hdouble, Bool.false_and, Bool.false_and, if_neg Bool.false_ne_true]
      exact followsAt_pure rfl
    | true =>
      obtain ⟨kinds, hkinds⟩ := kinds_eq_cons_of_current (current_of_atMark hdouble)
        TokenKind.noConfusion
      have htail : short.kinds.tail ≠ [] := by
        rw [hkinds, List.tail_cons]
        rintro rfl
        exact hlost hkinds
      rw [hmark, hdouble, Bool.true_and, Bool.true_and, hbeside.next htail]
      cases hident : short.next.kind.isIdent with
      | false => exact followsAt_pure rfl
      | true =>
        have hnotLost : ¬Lost false short.kinds := by
          rintro (hdangling | ⟨hinside, -⟩)
          · exact hlost hdangling
          · cases hinside
        refine (followsAt_advance hnotLost (by simp [hkinds])).bind fun _ count hone hcount ↦ ?_
        refine (((follows_ident "type name").bind fun inner ↦ .pure _) _ _
          (hbeside.skip hcount)).mono fun round ↦ ?_
        cases round <;> simp only [Round.cost] <;> omega

/-- The root of a type name and its first segment. -/
theorem follows_first_segment {next : Bool → String → Parse α}
    (h : ∀ absolute name, Follows rest false (next absolute name) (next absolute name)) :
    Follows rest false
      (eat .doubleColon >>= fun absolute ↦ ident "type name" >>= fun name ↦ next absolute name)
      (eat .doubleColon >>= fun absolute ↦ ident "type name" >>= fun name ↦
        next absolute name) := by
  intro short long hbeside
  have hmark : long.atMark .doubleColon = short.atMark .doubleColon :=
    hbeside.atMark hrest Mark.noConfusion
  have hident : ∀ absolute, Follows rest false (ident "type name" >>= next absolute)
      (ident "type name" >>= next absolute) := fun absolute ↦
    (follows_ident "type name").bind fun name ↦ h absolute name
  cases hdouble : short.atMark .doubleColon with
  | false =>
    refine .of_run fun result after hrun ↦ ?_
    rw [run_bind_of_ok (run_eat_of_not_atMark hdouble)] at hrun
    obtain ⟨count, hfollows⟩ := (hident false short long hbeside).exists_count hrun
    rw [run_bind_of_ok (run_eat_of_not_atMark (hmark.trans hdouble))]
    exact ⟨count, hfollows⟩
  | true =>
    obtain ⟨kinds, hkinds⟩ := kinds_eq_cons_of_current (current_of_atMark hdouble)
      TokenKind.noConfusion
    have hone : 1 ≤ short.kinds.length := by
      rw [hkinds]
      exact Nat.le_add_left _ _
    refine .of_run fun result after hrun ↦ ?_
    rw [run_bind_of_ok (run_eat_of_atMark hdouble)] at hrun
    -- A double colon at the end has no segment behind it.
    have hnotLost : ¬Lost false short.kinds := by
      rintro (hdangling | ⟨hinside, -⟩)
      · obtain ⟨_, _, hsegment, -⟩ := run_bind_eq_ok hrun
        obtain ⟨kind, _, hkind, hsegment⟩ := run_bind_eq_ok hsegment
        cases hkind
        rw [short.advance.kind_current, short.kinds_advance, hdangling] at hsegment
        cases hsegment
      · cases hinside
    obtain ⟨count, -, hcount, rfl, -, hsecond⟩ :=
      (hident true _ _ (hbeside.skip hone)).exists_count hrun
    rw [Cursor.kinds_skip, List.length_drop] at hcount
    refine ⟨1 + count, Nat.zero_le _, by omega, Cursor.skip_skip _ 1 _,
      fun hlost ↦ absurd hlost hnotLost, ?_⟩
    rw [run_bind_of_ok (run_eat_of_atMark (hmark.trans hdouble)), ← Cursor.skip_skip]
    exact hsecond

/-- A name goes on behind a double colon only in front of a word, so it ends in the same place
unless the reading is lost. -/
theorem follows_typeName :
    Follows rest false typeName typeName :=
  follows_first_segment hrest fun _ _ ↦
    (follows_iterate (fun (path, name) ↦ followsRound_segment hrest path name) _).bind fun _ ↦
      .pure _

theorem follows_whileMark {mark : Mark}
    (hcolon : mark ≠ .doubleColon) (hpipe : mark = .pipe → inside = true) {item item' : Parse α}
    (h : Follows rest inside item item') (items : List α) :
    Follows rest inside (whileMark mark item items) (whileMark mark item' items) :=
  follows_iterate (fun _ ↦ followsRound_eat hrest hcolon hpipe (h.bind fun _ ↦ .pure _)
    (followsRound_done _)) items

theorem follows_commaSeparated {item item' : Parse α}
    (h : Follows rest inside item item') :
    Follows rest inside (commaSeparated item) (commaSeparated item') :=
  h.bind fun first ↦ follows_whileMark hrest Mark.noConfusion Mark.noConfusion h [first]

/-- Items are read up to a closing mark, which stands in front of what follows. -/
theorem follows_itemsUntil {close : Mark}
    (hpipe : close ≠ .pipe) {add add' : α → Parse α}
    (h : ∀ items, Follows rest inside (add items) (add' items)) (init : α) :
    Follows rest inside (itemsUntil close add init) (itemsUntil close add' init) := by
  refine follows_iterate (fun items short long hbeside ↦ Simulates.get_bind ?_) init
  rw [hbeside.atMark hrest hpipe]
  split
  · exact followsAt_pure rfl
  · exact FollowsRound.bind (h items) (fun _ ↦ followsRound_eat hrest Mark.noConfusion
      Mark.noConfusion (.pure _) (followsRound_done _)) short long hbeside

theorem follows_label :
    Follows rest true label? label? := by
  intro short long hbeside
  by_cases hnil : short.kinds = []
  · refine followsAt_of_lost (.inr ⟨rfl, hnil⟩) fun label after hrun ↦ ?_
    obtain ⟨_, _, hget, hrun⟩ := run_bind_eq_ok hrun
    cases hget
    rw [short.kind_current, hnil] at hrun
    cases hrun
    exact ⟨rfl, rfl⟩
  · apply Simulates.get_bind
    rw [hbeside.current hnil, hbeside.nextIsMark hrest Mark.noConfusion hnil]
    cases hkind : short.current.kind with
    | ident name =>
      cases hcolon : short.nextIsMark .colon with
      | false => exact followsAt_pure rfl
      | true =>
        have hnext : short.advance.current.kind = .mark .colon :=
          (kind_current_advance short).trans (eq_of_isMark hcolon)
        refine followsAt_advance_bind hbeside hkind rfl fun hbeside' ↦ ?_
        exact followsAt_advance_bind hbeside' hnext rfl fun _ ↦ followsAt_pure rfl
    | _ => exact followsAt_pure rfl

/-- A question mark and a brace behind it are both of the short text or both of what follows. -/
theorem follows_optionalType (h : Follows rest false inner inner') :
    Follows rest false (optionalType inner) (optionalType inner') := by
  refine h.bind fun type short long hbeside ↦ Simulates.get_bind ?_
  rw [hbeside.atMark hrest Mark.noConfusion]
  cases hquestion : short.atMark .question with
  | false => exact followsAt_pure rfl
  | true =>
    have hkind := current_of_atMark hquestion
    rw [hbeside.nextIsMark hrest Mark.noConfusion
      (kinds_ne_nil_of_current hkind rfl)]
    split
    · exact followsAt_advance_bind hbeside hkind rfl fun _ ↦ followsAt_pure rfl
    · exact followsAt_pure rfl

/-- A chain of types could go on behind a bar, so a union has to stand inside of something. -/
theorem follows_chain {mark : Mark}
    (hcolon : mark ≠ .doubleColon) (hpipe : mark = .pipe → inside = true)
    (make : List TypeExpr → TypeExpr) {part part' : Parse TypeExpr}
    (h : Follows rest inside part part') :
    Follows rest inside (chain mark make part) (chain mark make part') :=
  h.bind fun first ↦ (follows_whileMark hrest hcolon hpipe h [first]).bind fun
    | [] | [_] | _ :: _ :: _ => .pure _

/-- A whole union could go on with the bar of what follows. -/
theorem follows_fullType (h : Follows rest false inner inner') :
    Follows rest true (fullType inner) (fullType inner') := by
  have hintersection : Follows rest false (intersectionType inner) (intersectionType inner') :=
    follows_chain hrest Mark.noConfusion Mark.noConfusion _ (follows_optionalType hrest h)
  exact follows_chain hrest Mark.noConfusion (fun _ ↦ rfl) _ hintersection.toInside

theorem follows_param (h : Follows rest false inner inner') :
    Follows rest true (param inner) (param inner') := by
  refine (follows_fullType hrest h).bind fun type ↦ follows_currentKind_bind ?_ ?_
  · intro cursor result after hrun
    cases hrun
    exact ⟨rfl, rfl⟩
  · intro kind short long _ hkind hbeside
    cases kind with
    | ident name =>
      exact followsAt_advance_bind hbeside hkind rfl fun _ ↦ followsAt_pure rfl
    | _ => exact followsAt_pure rfl

theorem follows_addParam (h : Follows rest false inner inner') (params : Params) :
    Follows rest true (addParam inner params) (addParam inner' params) := by
  have heat : ∀ mark, mark ≠ .doubleColon → Follows rest true (eat mark) (eat mark) :=
    fun mark hmark ↦ follows_eat hrest hmark fun _ ↦ rfl
  have hparam := follows_param hrest h
  refine (heat .doubleStar Mark.noConfusion).bind fun _ ↦ .ite (hparam.bind fun _ ↦ .pure _) ?_
  refine (heat .star Mark.noConfusion).bind fun _ ↦ .ite (hparam.bind fun _ ↦ .pure _) ?_
  refine (heat .question Mark.noConfusion).bind fun isOptional ↦ (follows_label hrest).bind fun
    | some keyword => hparam.bind fun _ ↦ .ite (.pure _) (.pure _)
    | none => hparam.bind fun _ ↦ .ite (.pure _) (.ite (.pure _) (.pure _))

theorem follows_params (h : Follows rest false inner inner') :
    Follows rest false (params inner) (params inner') := by
  refine (follows_eat hrest Mark.noConfusion Mark.noConfusion).bind fun _ ↦ .ite ?_ (.pure _)
  exact follows_closed Mark.noConfusion _
    (follows_itemsUntil hrest Mark.noConfusion (follows_addParam hrest h) _) fun _ ↦ .pure _

theorem follows_skipSelfBinding (h : Follows rest false inner inner') :
    Follows rest false (skipSelfBinding inner) (skipSelfBinding inner') := by
  intro short long hbeside
  apply Simulates.get_bind
  rw [hbeside.atMark hrest Mark.noConfusion]
  cases hbracket : short.atMark .leftBracket with
  | false => exact followsAt_pure rfl
  | true =>
    have hkind := current_of_atMark hbracket
    rw [hbeside.next_isWord_self hrest (kinds_ne_nil_of_current hkind rfl)]
    cases hself : short.next.kind.isWord "self" with
    | false => exact followsAt_pure rfl
    | true =>
      obtain ⟨word, hnext⟩ := exists_of_isWord hself
      have hword := (kind_current_advance short).trans hnext
      refine followsAt_advance_bind hbeside hkind rfl fun hbeside' ↦ ?_
      refine followsAt_advance_bind hbeside' hword rfl fun hbeside'' ↦ ?_
      refine ((follows_expect Mark.noConfusion _).bind fun _ ↦ ?_) _ _ hbeside''
      exact follows_closing Mark.noConfusion _ (follows_fullType hrest h)

theorem follows_blockBody (h : Follows rest false inner inner') (required : Bool) :
    Follows rest false (blockBody inner required) (blockBody inner' required) :=
  (follows_expect Mark.noConfusion _).bind fun _ ↦ (follows_params hrest h).bind fun _ ↦
    (follows_skipSelfBinding hrest h).bind fun _ ↦ (follows_expect Mark.noConfusion _).bind fun _ ↦
      (follows_optionalType hrest h).bind fun _ ↦
        (follows_expect Mark.noConfusion _).bind fun _ ↦ .pure _

theorem follows_block (h : Follows rest false inner inner') :
    Follows rest false (block? inner) (block? inner') := by
  intro short long hbeside
  have hbody : ∀ required, Follows rest false
      (blockBody inner required >>= fun block ↦ pure (some block))
      (blockBody inner' required >>= fun block ↦ pure (some block)) :=
    fun required ↦ (follows_blockBody hrest h required).bind fun _ ↦ .pure _
  apply Simulates.get_bind
  rw [hbeside.atMark hrest Mark.noConfusion, hbeside.atMark hrest Mark.noConfusion]
  cases hquestion : short.atMark .question with
  | false =>
    split
    · next hfalse => cases hfalse
    · split
      · exact hbody true _ _ hbeside
      · exact followsAt_pure rfl
  | true =>
    have hkind := current_of_atMark hquestion
    rw [hbeside.nextIsMark hrest Mark.noConfusion
      (kinds_ne_nil_of_current hkind rfl)]
    split
    · exact followsAt_advance_bind hbeside hkind rfl (hbody false _ _)
    · split
      · exact hbody true _ _ hbeside
      · exact followsAt_pure rfl

/-- What a method returns is read below the layer of unions, so a bar behind it is left alone. -/
theorem follows_function (h : Follows rest false inner inner') (typeParams : List String) :
    Follows rest false (function inner typeParams) (function inner' typeParams) :=
  (follows_params hrest h).bind fun _ ↦ (follows_skipSelfBinding hrest h).bind fun _ ↦
    (follows_block hrest h).bind fun _ ↦ (follows_expect Mark.noConfusion _).bind fun _ ↦
      (follows_optionalType hrest h).bind fun _ ↦ .pure _

theorem follows_typeArgs (h : Follows rest false inner inner') :
    Follows rest false (typeArgs inner) (typeArgs inner') := by
  refine (follows_eat hrest Mark.noConfusion Mark.noConfusion).bind fun _ ↦ .ite ?_ (.pure _)
  exact follows_closed Mark.noConfusion _ (follows_commaSeparated hrest (follows_fullType hrest h))
    fun _ ↦ .pure _

theorem follows_namedType (h : Follows rest false inner inner') (scope : List String) :
    Follows rest false (namedType scope inner) (namedType scope inner') :=
  (follows_typeName hrest).bind fun _ ↦ (follows_typeArgs hrest h).bind fun _ ↦
    .ite (.pure _) (.pure _)

theorem follows_tuple (h : Follows rest false inner inner') :
    Follows rest false (tuple inner) (tuple inner') :=
  follows_closed Mark.noConfusion _ (follows_itemsUntil hrest Mark.noConfusion
    (fun _ ↦ (follows_fullType hrest h).bind fun _ ↦ .pure _) _) fun _ ↦ .pure _

theorem follows_recordKey :
    Follows rest true recordKey recordKey := by
  refine (follows_label hrest).bind fun
    | some key => .pure _
    | none => follows_currentKind_bind ?_ ?_
  · intro cursor result after hrun
    cases hrun
  · intro kind short long _ hkind hbeside
    have harrow : ∀ key : String, Follows rest true
        (expect .fatArrow "`=>`" >>= fun _ ↦ pure key)
        (expect .fatArrow "`=>`" >>= fun _ ↦ pure key) :=
      fun key ↦ (follows_expect Mark.noConfusion _).bind fun _ ↦ .pure _
    cases kind with
    | symbol key | str key | int key =>
      exact followsAt_advance_bind hbeside hkind rfl (harrow _ _ _)
    | _ => exact followsAt_fail _ _

theorem follows_record (h : Follows rest false inner inner') :
    Follows rest false (record inner) (record inner') :=
  follows_closed Mark.noConfusion _ (follows_itemsUntil hrest Mark.noConfusion
    (fun _ ↦ (follows_eat hrest Mark.noConfusion fun _ ↦ rfl).bind fun _ ↦
      (follows_recordKey hrest).bind fun _ ↦ (follows_fullType hrest h).bind fun _ ↦ .pure _) _)
    fun _ ↦ .pure _

/-- A word is read by both in front of it. -/
theorem followsAt_wordType (h : Follows rest false inner inner') (scope : List String)
    (word : String) {short long : Cursor} (hbeside : Beside rest short long)
    (hkind : short.current.kind = .ident word) :
    FollowsAt false (fun _ ↦ 0) (wordType scope inner word) (wordType scope inner' word) short
      long := by
  have hne := kinds_ne_nil_of_current hkind rfl
  have hnamed := follows_namedType hrest h scope short long hbeside
  have hword : ∀ type : TypeExpr, FollowsAt false (fun _ ↦ 0) (advance >>= fun _ ↦ pure type)
      (advance >>= fun _ ↦ pure type) short long := fun type ↦
    followsAt_advance_bind hbeside hkind rfl fun _ ↦ followsAt_pure rfl
  apply Simulates.get_bind
  rw [hbeside.nextIsMark hrest Mark.noConfusion hne, hbeside.nextIsMark hrest Mark.noConfusion hne]
  split
  · exact hnamed
  split
  · exact hword _
  split
  · exact hword _
  split
  · next hsingleton =>
    have hparen : short.advance.current.kind = .mark .leftParen :=
      (kind_current_advance short).trans (eq_of_isMark (Bool.and_eq_true _ _ ▸ hsingleton).2)
    refine followsAt_advance_bind hbeside hkind rfl fun hbeside' ↦ ?_
    refine followsAt_advance_bind hbeside' hparen rfl fun hbeside'' ↦ ?_
    exact ((follows_typeName hrest).bind fun _ ↦ (follows_expect Mark.noConfusion _).bind fun _ ↦
      .pure _) _ _ hbeside''
  · split
    · exact hword _
    · exact hnamed

/-- The types inside a primary type are enclosed by its marks. -/
theorem follows_primaryWith (h : Follows rest false inner inner') (scope : List String) :
    Follows rest false (primaryWith scope inner) (primaryWith scope inner') := by
  refine follows_currentKind_bind ?_ ?_
  · intro cursor result after hrun
    cases hrun
  · intro kind short long _ hkind hbeside
    have hinside : ∀ {next next' : Parse TypeExpr}, Follows rest false next next' →
        kind.isFirm = true → FollowsAt false (fun _ ↦ 0) (advance >>= fun _ ↦ next)
          (advance >>= fun _ ↦ next') short long := fun hnext hfirm ↦
      followsAt_advance_bind hbeside hkind hfirm (hnext _ _)
    cases kind with
    | mark mark =>
      cases mark with
      | leftParen =>
        exact hinside (follows_closed Mark.noConfusion _ (follows_fullType hrest h) fun _ ↦ .pure _)
          rfl
      | leftBracket =>
        exact hinside (follows_tuple hrest h) rfl
      | leftBrace =>
        exact hinside (follows_record hrest h) rfl
      | caret =>
        exact hinside ((follows_function hrest h []).bind fun _ ↦ .pure _) rfl
      | doubleColon => exact follows_namedType hrest h scope short long hbeside
      | _ => exact followsAt_fail _ _
    | int value | str value | symbol value =>
      exact hinside (.pure _) rfl
    | ident word => exact followsAt_wordType hrest h scope word hbeside hkind
    | _ => exact followsAt_fail _ _

/-- More depth does not hurt. -/
theorem follows_primaryUpTo (scope : List String)
    (depth depth' : Nat) (hdepth : depth ≤ depth') :
    Follows rest false (primaryUpTo scope depth) (primaryUpTo scope depth') := by
  induction depth generalizing depth' with
  | zero => exact .fail _ _
  | succ depth ih =>
    obtain ⟨depth', rfl⟩ := Nat.exists_eq_add_of_le' (Nat.le_trans (Nat.le_add_left 1 depth) hdepth)
    exact follows_primaryWith hrest (ih depth' (Nat.le_of_succ_le_succ hdepth)) scope

theorem follows_primary (scope : List String) :
    Follows rest false (primary scope) (primary scope) := by
  intro short long hbeside
  have hlength := hbeside.length_le
  rw [Cursor.kinds, Cursor.kinds, List.length_map, List.length_map] at hlength
  exact Simulates.get_bind
    (follows_primaryUpTo hrest scope _ _ (Nat.succ_le_succ hlength) short long hbeside)

theorem follows_type (scope : List String) :
    Follows rest true (type scope) (type scope) :=
  follows_fullType hrest (follows_primary hrest scope)

theorem follows_methodTypeParams (scope : List String) :
    Follows rest false (methodTypeParams scope) (methodTypeParams scope) := by
  refine (follows_eat hrest Mark.noConfusion Mark.noConfusion).bind fun _ ↦ .ite ?_ (.pure _)
  refine follows_closed Mark.noConfusion _ (follows_iterate (fun names ↦ ?_) []) fun _ ↦ .pure _
  refine .bind (follows_eatWord _) fun _ ↦ .bind (follows_ident _) fun name ↦
    .bind (follows_eat hrest Mark.noConfusion fun _ ↦ rfl) fun bounded ↦ ?_
  have hround : FollowsRound rest true
      (eat .comma >>= fun eaten ↦
        if eaten then pure (.again (names ++ [name])) else pure (.done (names ++ [name])))
      (eat .comma >>= fun eaten ↦
        if eaten then pure (.again (names ++ [name])) else pure (.done (names ++ [name]))) :=
    followsRound_eat hrest Mark.noConfusion Mark.noConfusion (.pure _) (followsRound_done _)
  cases bounded with
  | true => exact .bind (follows_type hrest _) fun _ ↦ hround
  | false => exact hround

/-- A method type is read in the same way in front of a bar, a word or nothing. -/
theorem follows_methodType (scope : List String) :
    Follows rest false (methodType scope) (methodType scope) :=
  (follows_methodTypeParams hrest scope).bind fun _ ↦
    follows_function hrest (follows_primary hrest _) _

end Productions

end Parse

end DeclaredMethods.Signature
