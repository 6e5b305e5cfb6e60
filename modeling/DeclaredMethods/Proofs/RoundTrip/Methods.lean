import DeclaredMethods.Proofs.RoundTrip.Forms
import DeclaredMethods.Signature.Parser

/-!
# Method types are read back

The text of a canonical method type is read as that method type. Reading follows the tokens of
the text: every canonical type is understood by a reader of primary types that goes deep enough,
by induction on how the type is made up, and the number of tokens is deep enough.
-/

namespace DeclaredMethods.Signature

open Parse (fullType optionalType primaryWith primaryUpTo primary)

/-- Parameters are read in the order of their roles, which is the order they are printed in. -/
theorem reads_params (inner : Parse TypeExpr) (params : Params) (rest : List TokenKind)
    (hfits : params.fits = true) (htypes : ∀ type ∈ params.types, type.UnderstoodBy inner) :
    Reads (Parse.params inner)
      ([.mark .leftParen] ++ params.kinds ++ [.mark .rightParen] ++ rest) params rest := by
  have hitems := (accumulates_params inner params hfits htypes).reads_itemsUntil (by decide) rest
  rw [List.append_assoc, List.append_assoc]
  exact (reads_eat_true .leftParen _).bind
    (hitems.bind ((reads_expect .rightParen _ rest).bind (.pure _ _)))

theorem reads_skipSelfBinding (inner : Parse TypeExpr) (kinds : List TokenKind)
    (hbracket : startsWith kinds .leftBracket = false) :
    Reads (Parse.skipSelfBinding inner) kinds () kinds := by
  apply Returns.get_bind
  intro cursor hcursor
  rw [atMark_eq cursor _ .leftBracket hcursor, hbracket, Bool.false_and, if_neg Bool.false_ne_true]
  exact .pure _ _

/-- The braces around a block end its return type. -/
theorem reads_blockBody (inner : Parse TypeExpr) (block : BlockType) (rest : List TokenKind)
    (hfits : block.params.fits = true)
    (htypes : ∀ type ∈ block.params.types, type.UnderstoodBy inner)
    (hreturn : block.returnType.UnderstoodBy inner) :
    Reads (Parse.blockBody inner block.required)
      (.mark .leftBrace :: ([.mark .leftParen] ++ block.params.kinds ++ [.mark .rightParen] ++
        (.mark .arrow :: (block.returnType.returnKinds ++ .mark .rightBrace :: rest)))) block
      rest := by
  obtain ⟨params, returnType, required⟩ := block
  exact (reads_expect .leftBrace _ _).bind ((reads_params inner params _ hfits htypes).bind
    ((reads_skipSelfBinding inner _ rfl).bind ((reads_expect .arrow _ _).bind
      ((hreturn.returned (.mark .rightBrace :: rest) rfl).bind
        ((reads_expect .rightBrace _ rest).bind (.pure _ _))))))

theorem reads_block (inner : Parse TypeExpr) (block : Option BlockType) (rest : List TokenKind)
    (hfits : block.all (fun block ↦ block.params.fits) = true)
    (htypes : ∀ type ∈ block.toList.flatMap (fun block ↦ block.params.types ++ [block.returnType]),
      type.UnderstoodBy inner) :
    Reads (Parse.block? inner) (block.toList.flatMap BlockType.kinds ++ .mark .arrow :: rest) block
      (.mark .arrow :: rest) := by
  apply Returns.get_bind
  intro cursor hcursor
  rw [atMark_eq cursor _ .question hcursor, atMark_eq cursor _ .leftBrace hcursor,
    nextIsMark_eq cursor _ .leftBrace hcursor]
  cases block with
  | none => exact .pure _ _
  | some block =>
    have hbody := reads_blockBody inner block (.mark .arrow :: rest) hfits
      (fun type htype ↦ htypes type (by simp [htype])) (htypes block.returnType (by simp))
    have hkinds : block.kinds ++ .mark .arrow :: rest =
        (if block.required then [] else [.mark .question]) ++
          (.mark .leftBrace :: ([.mark .leftParen] ++ block.params.kinds ++ [.mark .rightParen] ++
            (.mark .arrow ::
              (block.returnType.returnKinds ++ .mark .rightBrace :: .mark .arrow :: rest)))) := by
      simp [BlockType.kinds]
    rw [Option.toList_some, List.flatMap_singleton, hkinds]
    cases hrequired : block.required with
    | true =>
      rw [hrequired] at hbody
      exact hbody.bind (.pure _ _)
    | false =>
      rw [hrequired] at hbody
      exact (reads_advance _ _).bind (hbody.bind (.pure _ _))

theorem reads_function (inner : Parse TypeExpr) (method : MethodType) (rest : List TokenKind)
    (hfits : method.paramsFit = true) (htypes : ∀ type ∈ method.types, type.UnderstoodBy inner)
    (hrest : Layer.optional.ends rest = true) :
    Reads (Parse.function inner method.typeParams) (method.functionKinds ++ rest) method rest := by
  rw [MethodType.paramsFit, Bool.and_eq_true] at hfits
  have hparams : ∀ type ∈ method.params.types, type.UnderstoodBy inner := fun type htype ↦
    htypes type (List.mem_append_left _ (List.mem_append_left _ htype))
  have hblock := reads_block inner method.block (method.returnType.returnKinds ++ rest) hfits.2
    fun type htype ↦ htypes type (List.mem_append_left _ (List.mem_append_right _ htype))
  have hreturn := (htypes method.returnType (by simp [MethodType.types])).returned rest hrest
  have hbracket : startsWith (method.block.toList.flatMap BlockType.kinds ++
      .mark .arrow :: (method.returnType.returnKinds ++ rest)) .leftBracket = false := by
    cases method.block with
    | none => rfl
    | some block => cases hrequired : block.required <;> simp [BlockType.kinds, hrequired] <;> rfl
  have hkinds : method.functionKinds ++ rest =
      [.mark .leftParen] ++ method.params.kinds ++ [.mark .rightParen] ++
        (method.block.toList.flatMap BlockType.kinds ++
          .mark .arrow :: (method.returnType.returnKinds ++ rest)) := by
    simp [MethodType.functionKinds]
  rw [hkinds]
  obtain ⟨typeParams, params, block, returnType⟩ := method
  exact (reads_params inner params _ hfits.1 hparams).bind
    ((reads_skipSelfBinding inner _ hbracket).bind (hblock.bind
      ((reads_expect .arrow _ _).bind (hreturn.bind (.pure _ _)))))

/-- A reader of primary types that reads types of up to `size` tokens. -/
def Reaches (scope : List String) (size : Nat) (reader : Parse TypeExpr) : Prop :=
  reader = primary scope ∨ ∃ depth, size ≤ depth ∧ reader = primaryUpTo scope depth

/-- A reader for large types reads small ones. -/
theorem Reaches.mono {scope : List String} {size size' : Nat} {reader : Parse TypeExpr}
    (h : Reaches scope size reader) (hsize : size' ≤ size) : Reaches scope size' reader := by
  rcases h with hprimary | ⟨depth, hdepth, hreader⟩
  · exact .inl hprimary
  · exact .inr ⟨depth, hsize.trans hdepth, hreader⟩

theorem reaches_primaryUpTo {scope : List String} {size depth : Nat} (h : size ≤ depth) :
    Reaches scope size (primaryUpTo scope depth) :=
  .inr ⟨depth, h, rfl⟩

/-- To read a primary type it is enough to read it at every depth that reaches it. -/
theorem Reaches.reads {scope : List String} {size : Nat} {reader : Parse TypeExpr}
    {before after : List TokenKind} {type : TypeExpr} (h : Reaches scope size reader)
    (hpos : 0 < size) (hsize : size ≤ before.length + 1)
    (hread : ∀ depth, size ≤ depth + 1 →
      Reads (primaryWith scope (primaryUpTo scope depth)) before type after) :
    Reads reader before type after := by
  rcases h with rfl | ⟨depth, hdepth, rfl⟩
  · apply Returns.get_bind
    rintro cursor rfl
    have hrounds : cursor.rounds = cursor.upcoming.length + 1 := rfl
    rw [hrounds]
    apply hread
    rwa [Cursor.kinds, List.length_map] at hsize
  · cases depth with
    | zero => exact absurd (Nat.lt_of_lt_of_le hpos hdepth) (Nat.lt_irrefl 0)
    | succ depth => exact hread depth hdepth

theorem length_lt_flatMap (mark : Mark) {groups : List (List TokenKind)} {group : List TokenKind}
    (hgroup : group ∈ groups) :
    group.length < (groups.flatMap fun group ↦ .mark mark :: group).length := by
  obtain ⟨front, back, rfl⟩ := List.append_of_mem hgroup
  rw [List.flatMap_append, List.flatMap_cons, List.length_append, List.length_append,
    List.length_cons]
  omega

theorem length_le_joined {mark : Mark} {groups : List (List TokenKind)} {group : List TokenKind}
    (hgroup : group ∈ groups) : group.length ≤ (joined mark groups).length := by
  cases groups with
  | nil => cases hgroup
  | cons first others =>
    rw [joined_cons, List.length_append]
    rcases List.mem_cons.1 hgroup with rfl | hother
    · exact Nat.le_add_right _ _
    · have hless := length_lt_flatMap mark hother
      omega

/-- With a mark between them, groups are longer than each one. -/
theorem length_lt_joined {mark : Mark} {groups : List (List TokenKind)} {group : List TokenKind}
    (hlength : 2 ≤ groups.length) (hgroup : group ∈ groups) :
    group.length < (joined mark groups).length := by
  match groups, hlength with
  | first :: second :: others, _ =>
    rw [joined_cons, List.length_append]
    rcases List.mem_cons.1 hgroup with rfl | hother
    · rw [List.flatMap_cons, List.length_append, List.length_cons]
      omega
    · have hless := length_lt_flatMap mark hother
      omega

theorem length_le_enclosedIf (needed : Bool) (kinds : List TokenKind) :
    kinds.length ≤ (enclosedIf needed kinds).length := by
  cases needed with
  | false => exact le_refl _
  | true =>
    rw [enclosedIf, if_pos rfl, List.length_append, List.length_append]
    omega

theorem Params.length_kinds_le {params : Params} {type : TypeExpr} (htype : type ∈ params.types) :
    type.kinds.length ≤ params.kinds.length := by
  obtain ⟨entry, hentry, rfl⟩ := List.mem_map.1 htype
  calc
    entry.2.type.kinds.length ≤ (entry.1.kinds ++ entry.2.kinds).length := by
      rw [List.length_append, Param.kinds, List.length_append]
      omega
    _ ≤ params.kinds.length := length_le_joined (List.mem_map_of_mem hentry)

theorem MethodType.length_kinds_lt {method : MethodType} {type : TypeExpr}
    (htype : type ∈ method.types) : type.kinds.length < method.functionKinds.length := by
  simp only [functionKinds, List.length_append, List.length_cons, List.length_nil]
  rcases List.mem_append.1 htype with hother | hreturn
  · rcases List.mem_append.1 hother with hparam | hblock
    · have hparams := Params.length_kinds_le hparam
      omega
    · obtain ⟨block, hblock, hinside⟩ := List.mem_flatMap.1 hblock
      rw [Option.mem_toList.1 hblock, Option.toList_some, List.flatMap_singleton]
      simp only [BlockType.kinds, List.length_append, List.length_cons]
      rcases List.mem_append.1 hinside with hparam | hreturn
      · have hparams := Params.length_kinds_le hparam
        omega
      · rw [List.mem_singleton.1 hreturn]
        have hreturned := length_le_enclosedIf block.returnType.isCompound block.returnType.kinds
        rw [← TypeExpr.returnKinds] at hreturned
        omega
  · rw [List.mem_singleton.1 hreturn]
    have hreturned := length_le_enclosedIf method.returnType.isCompound method.returnType.kinds
    rw [← TypeExpr.returnKinds] at hreturned
    omega

/-! ## Every canonical type -/

/-- A type is read back if every reader that reaches it reads it at its layer. -/
def TypeExpr.ReadBack (scope : List String) (type : TypeExpr) : Prop :=
  ∀ reader, Reaches scope type.kinds.length reader → ReadsAt reader type.layer type.kinds type

/-- A type that is read back is understood wherever there are tokens enough for it. -/
theorem TypeExpr.ReadBack.understoodBy {scope : List String} {type : TypeExpr}
    (h : type.ReadBack scope) (hopens : Opens type.kinds) {reader : Parse TypeExpr}
    (hreader : Reaches scope (type.kinds.length + 1) reader) : type.UnderstoodBy reader where
  opens := hopens
  bare := h reader (hreader.mono (Nat.le_succ _))
  enclosed := by
    intro rest _
    apply hreader.reads (Nat.succ_pos _)
    · rw [enclosedIf, if_pos rfl, List.length_append, List.length_append, List.length_append]
      omega
    · intro depth hdepth
      apply reads_primaryWith_enclosed
      exact (h _ (reaches_primaryUpTo (Nat.le_of_succ_le_succ hdepth))).toUnion

/-- A primary type is read back if it is read at every depth that its tokens reach. -/
theorem readBack_primary {scope : List String} {type : TypeExpr} {kinds : List TokenKind}
    (hkinds : type.kinds = kinds) (hopens : Opens type.kinds) (hlayer : type.layer = .primary)
    (hread : ∀ depth, kinds.length ≤ depth + 1 → ∀ rest, Layer.primary.ends rest = true →
      Reads (primaryWith scope (primaryUpTo scope depth)) (kinds ++ rest) type rest) :
    type.ReadBack scope := by
  intro reader hreader rest hrest
  rw [hlayer] at hrest ⊢
  obtain ⟨first, tail, hform, -⟩ := hopens
  apply hreader.reads
  · rw [hform]
    exact Nat.succ_pos _
  · rw [List.length_append]
    omega
  · rw [hkinds]
    exact fun depth hdepth ↦ hread depth hdepth rest hrest

/-- A name that fits is not taken for a word of the language. -/
theorem TypeName.not_reserved_of_fits {name : TypeName} {scope : List String} {kind : NameKind}
    {args : List TypeExpr} (h : name.fits scope kind args = true) :
    (name.absolute || !name.path.isEmpty || !reservedWords.contains name.name) = true ∧
      (!name.absolute && name.path.isEmpty && args.isEmpty && scope.contains name.name) =
        false := by
  rw [TypeName.fits, Bool.and_eq_true] at h
  have hbare := h.2
  generalize name.absolute = absolute, name.path.isEmpty = bare, args.isEmpty = plain,
    reservedWords.contains name.name = reserved, scope.contains name.name = bound at hbare ⊢
  revert absolute bare plain reserved bound
  decide

theorem TypeName.kind_of_fits {name : TypeName} {scope : List String} {kind : NameKind}
    {args : List TypeExpr} (h : name.fits scope kind args = true) : name.kind = kind := by
  rw [TypeName.fits, Bool.and_eq_true, Bool.and_eq_true] at h
  exact beq_iff_eq.1 h.1.2

theorem length_lt_argKinds {args : List TypeExpr} {arg : TypeExpr} (harg : arg ∈ args) :
    arg.kinds.length + 2 ≤ (argKinds args).length := by
  have hnonempty := List.isEmpty_eq_false_iff.2 (List.ne_nil_of_mem harg)
  have hjoined : arg.kinds.length ≤ (joined .comma (args.map TypeExpr.kinds)).length :=
    length_le_joined (List.mem_map_of_mem harg)
  rw [argKinds, hnonempty, if_neg Bool.false_ne_true]
  simp only [List.length_append, List.length_singleton]
  omega

theorem readBack_named {scope : List String} {kind : NameKind} {name : TypeName}
    {args : List TypeExpr} {type : TypeExpr} (hkinds : type.kinds = name.kinds ++ argKinds args)
    (hopens : Opens type.kinds) (hlayer : type.layer = .primary)
    (htype : TypeExpr.ofName name args = type) (hfits : name.fits scope kind args = true)
    (hargs : ∀ arg ∈ args, ∀ reader, Reaches scope (arg.kinds.length + 1) reader →
      arg.UnderstoodBy reader) : type.ReadBack scope := by
  obtain ⟨hname, hvariable⟩ := TypeName.not_reserved_of_fits hfits
  apply readBack_primary hkinds hopens hlayer
  intro depth hdepth rest hrest
  have hread := reads_primaryWith_named scope (primaryUpTo scope depth) name args rest (by
    intro arg harg
    apply hargs arg harg
    apply reaches_primaryUpTo
    have hless := length_lt_argKinds harg
    rw [List.length_append] at hdepth
    omega) hrest hname
  rw [hvariable, if_neg Bool.false_ne_true, htype] at hread
  exact hread

/-- Every canonical type is read back. -/
theorem TypeExpr.Canonical.readBack {scope : List String} (hscope : scope.all isTypeParam = true)
    {type : TypeExpr} (h : type.Canonical scope) : type.ReadBack scope := by
  induction h with
  | intro type hfits hparts ih =>
    have hopens := ((Canonical.intro type hfits hparts).tokenized hscope).opens
    have htokenized : ∀ part ∈ type.components, part.Tokenized :=
      fun part hpart ↦ (hparts part hpart).tokenized hscope
    have hseparable : ∀ part ∈ type.components, part.Separable :=
      fun part hpart ↦ (htokenized part hpart).separable
    have hunderstood : ∀ part ∈ type.components, ∀ reader,
        Reaches scope (part.kinds.length + 1) reader → part.UnderstoodBy reader :=
      fun part hpart reader hreader ↦
        (ih part hpart).understoodBy (htokenized part hpart).opens hreader
    cases type with
    | any =>
      apply readBack_primary (kinds_eq_of_lexes lexes_any) hopens rfl
      exact fun depth _ rest hrest ↦ reads_primaryWith_any scope _ rest hrest
    | base base =>
      apply readBack_primary (kinds_eq_of_lexes (lexes_base base)) hopens rfl
      exact fun depth _ rest hrest ↦ reads_primaryWith_base scope _ base rest hrest
    | instance_ name args =>
      have hkinds := kinds_eq_of_lexes
        (lexes_instance name args (TypeName.hasWords_of_fits hfits) hseparable)
      apply readBack_named hkinds hopens rfl _ hfits hunderstood
      rw [ofName, TypeName.kind_of_fits hfits]
    | interface name args =>
      have hkinds := kinds_eq_of_lexes
        (lexes_interface name args (TypeName.hasWords_of_fits hfits) hseparable)
      apply readBack_named hkinds hopens rfl _ hfits hunderstood
      rw [ofName, TypeName.kind_of_fits hfits]
    | alias_ name args =>
      have hkinds := kinds_eq_of_lexes
        (lexes_alias name args (TypeName.hasWords_of_fits hfits) hseparable)
      apply readBack_named hkinds hopens rfl _ hfits hunderstood
      rw [ofName, TypeName.kind_of_fits hfits]
    | singleton name =>
      apply readBack_primary (kinds_eq_of_lexes (lexes_singleton name hfits)) hopens rfl
      exact fun depth _ rest _ ↦ reads_primaryWith_singleton scope _ name rest
    | optional inner =>
      rw [TypeExpr.fits, Bool.and_eq_true, Bool.not_eq_true', Bool.not_eq_true'] at hfits
      have hkinds := kinds_eq_of_lexes
        (lexes_optional inner (hseparable inner List.mem_cons_self) hfits.2)
      intro reader hreader
      rw [hkinds] at hreader ⊢
      apply readsAt_question
      have hinner := hunderstood inner List.mem_cons_self reader (hreader.mono (by
        rw [List.length_append]
        exact Nat.succ_le_succ (length_le_enclosedIf _ _)))
      exact hinner.operand hfits.1
    | union members =>
      rw [TypeExpr.fits, Bool.and_eq_true, decide_eq_true_iff] at hfits
      have hkinds := kinds_eq_of_lexes (lexes_union members hseparable)
      intro reader hreader
      rw [hkinds] at hreader ⊢
      apply readsAt_union_of_members hfits.1 _ hfits.2
      intro member hmember
      apply hunderstood member hmember
      apply hreader.mono
      exact length_lt_joined (by rw [List.length_map]; exact hfits.1) (List.mem_map_of_mem hmember)
    | intersection members =>
      rw [TypeExpr.fits, Bool.and_eq_true, decide_eq_true_iff] at hfits
      have hkinds := kinds_eq_of_lexes (lexes_intersection members hseparable)
      intro reader hreader
      rw [hkinds] at hreader ⊢
      apply readsAt_intersection_of_members hfits.1 _ hfits.2
      intro member hmember
      apply hunderstood member hmember
      apply hreader.mono
      exact Nat.lt_of_le_of_lt (length_le_enclosedIf member.isUnion _)
        (length_lt_joined (by rw [List.length_map]; exact hfits.1) (List.mem_map_of_mem hmember))
    | tuple items =>
      apply readBack_primary (kinds_eq_of_lexes (lexes_tuple items hseparable)) hopens rfl
      intro depth hdepth rest _
      apply reads_primaryWith_tuple
      intro item hitem
      apply hunderstood item hitem
      apply reaches_primaryUpTo
      have hjoined : item.kinds.length ≤ (joined .comma (items.map kinds)).length :=
        length_le_joined (List.mem_map_of_mem hitem)
      simp only [List.length_append, List.length_singleton] at hdepth
      omega
    | record fields =>
      apply readBack_primary (kinds_eq_of_lexes (lexes_record fields hfits fun field hfield ↦
        hseparable _ (List.mem_map_of_mem hfield))) hopens rfl
      intro depth hdepth rest _
      apply reads_primaryWith_record
      intro field hfield
      apply hunderstood field.2 (List.mem_map_of_mem hfield)
      apply reaches_primaryUpTo
      have hjoined : ([TokenKind.ident field.1, .mark .colon] ++ field.2.kinds).length ≤
          (joined .comma
            (fields.map fun field ↦ [.ident field.1, .mark .colon] ++ field.2.kinds)).length :=
        length_le_joined (List.mem_map_of_mem hfield)
      simp only [List.length_append, List.length_cons, List.length_nil] at hdepth hjoined
      omega
    | literal value =>
      apply readBack_primary (kinds_eq_of_lexes (lexes_literal value hfits)) hopens rfl
      intro depth _ rest hrest
      cases value with
      | bool value => exact reads_primaryWith_bool scope _ value rest hrest
      | _ => exact (reads_currentKind _).bind ((reads_advance _ rest).bind (.pure _ _))
    | variable_ name =>
      have hparam := List.all_eq_true.1 hscope name (List.contains_iff_mem.1 hfits)
      rw [isTypeParam, Bool.and_eq_true, Bool.and_eq_true] at hparam
      apply readBack_primary (kinds_eq_of_lexes (lexes_variable name hparam.1.1)) hopens rfl
      intro depth _ rest hrest
      have hread := reads_primaryWith_named scope (primaryUpTo scope depth) ⟨[], name, false⟩ []
        rest (by simp) hrest (by simpa using hparam.1.2)
      rw [if_pos (by simpa using List.contains_iff_mem.1 hfits)] at hread
      exact hread
    | proc method =>
      rw [TypeExpr.fits, Bool.and_eq_true] at hfits
      have hkinds := kinds_eq_of_lexes (lexes_proc method hfits.1 hfits.2 htokenized)
      intro reader hreader
      rw [hkinds] at hreader ⊢
      apply readsAt_optional
      intro rest hrest
      apply hreader.reads (Nat.succ_pos _)
      · rw [List.length_append]
        omega
      · intro depth hdepth
        have hmethod := reads_function (primaryUpTo scope depth) method rest hfits.2 (by
          intro type htype
          apply hunderstood type htype
          apply reaches_primaryUpTo
          have hless := MethodType.length_kinds_lt htype
          rw [List.length_cons] at hdepth
          omega) hrest
        rw [List.isEmpty_iff.1 hfits.1] at hmethod
        exact (reads_currentKind _).bind ((reads_advance _ _).bind (hmethod.bind (.pure _ _)))

/-- Type parameters with commas between them are read one by one. -/
theorem iterates_typeParams {step : List String → Parse (Round (List String))}
    (hagain : ∀ before name after, isTypeParam name = true →
      Reads (step before) (.ident name :: .mark .comma :: after) (.again (before ++ [name])) after)
    (hdone : ∀ before name after, isTypeParam name = true →
      Reads (step before) (.ident name :: .mark .rightBracket :: after) (.done (before ++ [name]))
        (.mark .rightBracket :: after))
    (before : List String) (first : String) (names : List String)
    (hnames : (first :: names).all isTypeParam = true) (rest : List TokenKind) :
    Iterates Cursor.kinds List.length step before
      (joined .comma ((first :: names).map fun name ↦ [.ident name]) ++ .mark .rightBracket :: rest)
      (before ++ first :: names) (.mark .rightBracket :: rest) := by
  induction names generalizing before first with
  | nil =>
    rw [List.all_cons, Bool.and_eq_true] at hnames
    exact .done (hdone before first rest hnames.1)
  | cons second names ih =>
    rw [List.all_cons, Bool.and_eq_true] at hnames
    have hkinds : joined .comma
        ((first :: second :: names).map fun name ↦ [TokenKind.ident name]) ++
        .mark .rightBracket :: rest = .ident first :: .mark .comma ::
          (joined .comma ((second :: names).map fun name ↦ [TokenKind.ident name]) ++
            .mark .rightBracket :: rest) := by
      rw [joined, List.map_cons, List.map_cons, List.intercalate_cons_cons]
      rfl
    rw [hkinds, List.append_cons before]
    exact .again (hagain before first _ hnames.1) (Nat.lt_add_of_pos_right Nat.two_pos)
      (ih (before ++ [first]) second hnames.2)

theorem reads_methodTypeParams (scope names : List String) (hnames : names.all isTypeParam = true)
    (rest : List TokenKind) (hrest : startsWith rest .leftBracket = false) :
    Reads (Parse.methodTypeParams scope) (typeParamKinds names ++ rest) names rest := by
  have hword : ∀ name after, isTypeParam name = true →
      Reads (Parse.eatWord "unchecked") (.ident name :: after) false (.ident name :: after) := by
    intro name after hname
    apply reads_eatWord_false
    rw [isTypeParam, Bool.and_eq_true, bne_iff_ne] at hname
    exact beq_eq_false_iff_ne.2 hname.2
  rw [typeParamKinds]
  cases names with
  | nil => exact (reads_eat_false .leftBracket rest hrest).bind (.pure _ _)
  | cons first names =>
    rw [if_neg (by simp), List.append_assoc, List.append_assoc]
    refine (reads_eat_true .leftBracket _).bind (Returns.bind (reads_iterate
      (iterates_typeParams ?_ ?_ [] first names hnames rest))
      ((reads_expect .rightBracket _ rest).bind (.pure _ _)))
    · intro before name after hname
      exact (hword name _ hname).bind ((reads_ident name _ _).bind
        ((reads_eat_false .less _ rfl).bind ((reads_eat_true .comma _).bind (.pure _ _))))
    · intro before name after hname
      exact (hword name _ hname).bind ((reads_ident name _ _).bind
        ((reads_eat_false .less _ rfl).bind ((reads_eat_false .comma _ rfl).bind (.pure _ _))))

/-- The tokens of a canonical method type are read back to it. -/
theorem MethodType.Canonical.reads {method : MethodType} (h : method.Canonical) :
    Reads (Parse.methodType []) (typeParamKinds method.typeParams ++ method.functionKinds) method
      [] := by
  have htypes : ∀ type ∈ method.types, type.UnderstoodBy (primary method.typeParams) :=
    fun type htype ↦ ((h.types type htype).readBack h.typeParams).understoodBy
      ((h.types type htype).tokenized h.typeParams).opens (.inl rfl)
  have hfunction := reads_function (primary method.typeParams) method [] h.params htypes rfl
  have hbracket : startsWith method.functionKinds .leftBracket = false := by
    simp [functionKinds, startsWith, headKind, TokenKind.isMark]
  rw [List.append_nil] at hfunction
  exact (reads_methodTypeParams [] method.typeParams h.typeParams _ hbracket).bind hfunction

/-- A text is read whole if its pieces are tokens that are read to the end. -/
theorem parseAll_of_reads {α : Type} {reading : Parse α} {source : String}
    {kinds : List TokenKind} {value : α} (hpieces : pieces source.toList = kinds.map some)
    (hread : Reads reading kinds value []) : parseAll reading source = .ok value := by
  obtain ⟨hvalid, hkinds⟩ := valid_of_pieces source kinds hpieces
  have hcursor : (Cursor.start source).kinds = kinds := hkinds
  obtain ⟨after, hrun, -⟩ := hread.exists_run hcursor
  exact parseAll_eq_ok_iff.2 ⟨hvalid, after, hrun⟩

/-- The text of a canonical method type is read as that method type. -/
theorem parseMethodType_text (method : MethodType) (h : method.Canonical) :
    parseMethodType method.text = .ok method := by
  have hpieces : pieces method.text.toList =
      (typeParamKinds method.typeParams ++ method.functionKinds).map some := by
    have hlexes := method.lexes h.typeParams h.params
      (fun type htype ↦ (h.types type htype).tokenized h.typeParams) [] rfl
    rwa [List.append_nil, pieces_nil, List.append_nil] at hlexes
  exact parseAll_of_reads hpieces (h.reads.bind ((reads_expectEnd _).bind (.pure _ _)))

/-- Parameters in most roles, an optional block, and types that need parentheses. -/
theorem parseMethodType_text_of_block :
    ∃ method : MethodType, method.Canonical ∧
      method.text = "[T] (T x, ?(A | :ok)?, *^() -> T, T, key: \x7b a: -1 \x7d, **untyped) " ++
        "?\x7b (T) -> (A & (B | \"q\")) \x7d -> T?" ∧
      parseMethodType method.text = .ok method := by
  let classA : TypeExpr := .instance_ ⟨[], "A", false⟩ []
  let classB : TypeExpr := .instance_ ⟨[], "B", false⟩ []
  let params : Params :=
    ⟨[⟨.variable_ "T", some "x"⟩], [⟨.optional (.union [classA, .literal (.symbol "ok")]), none⟩],
      some ⟨.proc (.returning (.variable_ "T")), none⟩, [⟨.variable_ "T", none⟩],
      [("key", ⟨.record [("a", .literal (.int (-1)))], none⟩)], [], some ⟨.any, none⟩⟩
  let block : BlockType :=
    ⟨.single ⟨.variable_ "T", none⟩,
      .intersection [classA, .union [classB, .literal (.str "q")]], false⟩
  let method : MethodType := ⟨["T"], params, some block, .optional (.variable_ "T")⟩
  have htypes : method.types.all (TypeExpr.isCanonicalUpTo ["T"] 4) = true := by decide +kernel
  have hcanonical : method.Canonical :=
    ⟨by decide +kernel, by decide +kernel, fun type htype ↦
      TypeExpr.canonical_of_isCanonicalUpTo 4 (List.all_eq_true.1 htypes type htype)⟩
  exact ⟨method, hcanonical, by decide +kernel, parseMethodType_text method hcanonical⟩

end DeclaredMethods.Signature
