import DeclaredMethods.Proofs.RoundTrip.Reading
import DeclaredMethods.Proofs.RoundTrip.Tokens
import DeclaredMethods.Signature.Parser.Type

/-!
# Reading each form of type

For each form of type, the reader of that form reads the tokens of the type and leaves what
follows, given that the types inside it are read. Types are read by layers, and a type that is
read at one layer is read at the layers above it, where more marks could go on it.
-/

namespace DeclaredMethods.Signature

open Parse (typeName label? optionalType chain intersectionType fullType typeArgs namedType
  wordType primaryWith)

theorem joined_cons (mark : Mark) (first : List TokenKind) (groups : List (List TokenKind)) :
    joined mark (first :: groups) = first ++ groups.flatMap fun group ↦ .mark mark :: group := by
  induction groups generalizing first with
  | nil => simp [joined]
  | cons second groups ih =>
    have hsecond := ih second
    rw [joined] at hsecond ⊢
    rw [List.intercalate_cons_cons, hsecond, List.flatMap_cons]
    simp

/-- The segments behind the first of a name are read one by one, by a step that moves the last
segment to the path whenever it finds another. -/
theorem iterates_segments {step : List String × String → Parse (Round (List String × String))}
    (hagain : ∀ path name segment after,
      Reads (step (path, name)) (.mark .doubleColon :: .ident segment :: after)
        (.again (path ++ [name], segment)) after)
    (hdone : ∀ path name after, startsWith after .doubleColon = false →
      Reads (step (path, name)) after (.done (path, name)) after)
    (path : List String) (name : String) (others outer : List String) (last : String)
    (hsplit : outer ++ [last] = path ++ name :: others) (rest : List TokenKind)
    (hrest : startsWith rest .doubleColon = false) :
    Iterates Cursor.kinds List.length step (path, name)
      ((others.map fun segment ↦ [TokenKind.ident segment]).flatMap
        (fun group ↦ .mark .doubleColon :: group) ++ rest) (outer, last) rest := by
  induction others generalizing path name with
  | nil =>
    obtain ⟨rfl, hlast⟩ := List.append_inj' hsplit rfl
    obtain rfl := List.head_eq_of_cons_eq hlast
    exact .done (hdone _ _ rest hrest)
  | cons segment others ih =>
    rw [List.append_cons path] at hsplit
    rw [List.map_cons, List.flatMap_cons, List.append_assoc]
    exact .again (hagain path name segment _) (Nat.lt_add_of_pos_right Nat.two_pos)
      (ih (path ++ [name]) segment hsplit)

/-- A name is read up to the first word that no double colon follows. -/
theorem reads_typeName (name : TypeName) (rest : List TokenKind)
    (hrest : startsWith rest .doubleColon = false) :
    Reads typeName (name.kinds ++ rest) name rest := by
  obtain ⟨path, last, absolute⟩ := name
  have hsegments : ∃ first others, path ++ [last] = first :: others :=
    List.exists_cons_of_ne_nil (by simp)
  obtain ⟨first, others, hsplit⟩ := hsegments
  have hkinds : TypeName.kinds ⟨path, last, absolute⟩ =
      (if absolute then [.mark .doubleColon] else []) ++ (.ident first ::
        (others.map fun segment ↦ [TokenKind.ident segment]).flatMap
          fun group ↦ .mark .doubleColon :: group) := by
    have hjoined := joined_cons .doubleColon [.ident first]
      (others.map fun segment ↦ [TokenKind.ident segment])
    rw [joined] at hjoined
    rw [TypeName.kinds, TypeName.segments, hsplit, List.map_cons, hjoined]
    rfl
  rw [hkinds, List.append_assoc]
  have hroot : Reads (Parse.eat .doubleColon)
      ((if absolute then [.mark .doubleColon] else []) ++ (.ident first ::
        (others.map fun segment ↦ [TokenKind.ident segment]).flatMap
          (fun group ↦ .mark .doubleColon :: group) ++ rest)) absolute
      (.ident first :: (others.map fun segment ↦ [TokenKind.ident segment]).flatMap
          (fun group ↦ .mark .doubleColon :: group) ++ rest) := by
    cases absolute with
    | true => exact reads_eat_true .doubleColon _
    | false => exact reads_eat_false .doubleColon _ rfl
  refine hroot.bind ((reads_ident first "type name" _).bind (Returns.bind (reads_iterate
    (iterates_segments ?_ ?_ [] first others path last hsplit rest hrest)) (.pure _ rest)))
  · intro path name segment after
    apply Returns.get_bind
    intro cursor hcursor
    rw [atMark_eq cursor _ .doubleColon hcursor, cursor.kind_next, hcursor]
    exact (reads_advance _ _).bind ((reads_ident segment "type name" after).bind (.pure _ _))
  · intro path name after hafter
    apply Returns.get_bind
    intro cursor hcursor
    rw [atMark_eq cursor _ .doubleColon hcursor, hafter, Bool.false_and, if_neg Bool.false_ne_true]
    exact .pure _ _

/-- The layers in which types are read. -/
inductive Layer where
  | primary
  | optional
  | intersection
  | union

namespace Layer

def reader (primary : Parse TypeExpr) : Layer → Parse TypeExpr
  | .primary => primary
  | optional => optionalType primary
  | intersection => intersectionType primary
  | union => fullType primary

/-- The marks that must not follow a type at a layer: those that go on it, and a brace, in front
of which a question mark belongs to a block. -/
def marks : Layer → List Mark
  | primary => [.doubleColon, .leftBracket]
  | optional => [.doubleColon, .leftBracket, .question, .leftBrace]
  | intersection => [.doubleColon, .leftBracket, .question, .leftBrace, .ampersand]
  | union => [.doubleColon, .leftBracket, .question, .leftBrace, .ampersand, .pipe]

def ends (layer : Layer) (rest : List TokenKind) : Bool :=
  layer.marks.all fun mark ↦ !startsWith rest mark

theorem startsWith_eq_false {layer : Layer} {rest : List TokenKind} (h : layer.ends rest = true)
    (mark : Mark) (hmark : mark ∈ layer.marks) : startsWith rest mark = false := by
  have hnot := List.all_eq_true.1 h mark hmark
  rwa [Bool.not_eq_true'] at hnot

/-- What ends a layer ends the layers inside it. -/
theorem ends_mono {layer higher : Layer} {rest : List TokenKind}
    (hmarks : layer.marks ⊆ higher.marks) (h : higher.ends rest = true) : layer.ends rest = true :=
  List.all_eq_true.2 fun mark hmark ↦ List.all_eq_true.1 h mark (hmarks hmark)

theorem ends_of_startsWith {layer : Layer} {rest : List TokenKind} {mark : Mark}
    (h : startsWith rest mark = true) (hmark : mark ∉ layer.marks) : layer.ends rest = true := by
  apply List.all_eq_true.2
  intro other hother
  rw [Bool.not_eq_true']
  unfold startsWith at h ⊢
  cases hhead : headKind rest with
  | mark found =>
    rw [hhead] at h
    obtain rfl : found = mark := beq_iff_eq.1 h
    exact beq_eq_false_iff_ne.2 fun heq ↦ hmark (heq ▸ hother)
  | _ => rfl

end Layer

/-- The tokens `kinds` are read as `type` at a layer, in front of anything that does not go on
there. -/
def ReadsAt (primary : Parse TypeExpr) (layer : Layer) (kinds : List TokenKind)
    (type : TypeExpr) : Prop :=
  ∀ rest, layer.ends rest = true → Reads (layer.reader primary) (kinds ++ rest) type rest

/-- A type with no question mark behind it is read as itself. -/
theorem readsAt_optional {primary : Parse TypeExpr} {kinds : List TokenKind} {type : TypeExpr}
    (h : ∀ rest, Layer.optional.ends rest = true → Reads primary (kinds ++ rest) type rest) :
    ReadsAt primary .optional kinds type := by
  intro rest hrest
  apply (h rest hrest).bind
  apply Returns.get_bind
  intro cursor hcursor
  rw [atMark_eq cursor _ .question hcursor, Layer.startsWith_eq_false hrest .question (by decide),
    Bool.false_and, if_neg Bool.false_ne_true]
  exact .pure _ _

/-- A question mark makes a primary type optional. -/
theorem readsAt_question {primary : Parse TypeExpr} {kinds : List TokenKind} {type : TypeExpr}
    (h : ReadsAt primary .primary kinds type) :
    ReadsAt primary .optional (kinds ++ [.mark .question]) (.optional type) := by
  intro rest hrest
  rw [List.append_assoc]
  apply (h (.mark .question :: rest) rfl).bind
  apply Returns.get_bind
  intro cursor hcursor
  rw [atMark_eq cursor _ .question hcursor, nextIsMark_eq cursor _ .leftBrace hcursor,
    List.tail_cons, Layer.startsWith_eq_false hrest .leftBrace (by decide)]
  exact (reads_advance _ rest).bind (.pure _ _)

theorem ReadsAt.optional {primary : Parse TypeExpr} {kinds : List TokenKind} {type : TypeExpr}
    (h : ReadsAt primary .primary kinds type) : ReadsAt primary .optional kinds type :=
  readsAt_optional fun rest hrest ↦ h rest (Layer.ends_mono (by decide) hrest)

/-- A single type stands for itself. -/
theorem reads_chain_single {mark : Mark} {make : List TypeExpr → TypeExpr} {part : Parse TypeExpr}
    {kinds rest : List TokenKind} {type : TypeExpr} (h : Reads part (kinds ++ rest) type rest)
    (hrest : startsWith rest mark = false) :
    Reads (chain mark make part) (kinds ++ rest) type rest := by
  have hnone := reads_whileMark mark part (fun _ ↦ []) [type] [] rest hrest (by simp)
  exact h.bind (hnone.bind (.pure _ _))

theorem ReadsAt.intersection {primary : Parse TypeExpr} {kinds : List TokenKind} {type : TypeExpr}
    (h : ReadsAt primary .optional kinds type) : ReadsAt primary .intersection kinds type :=
  fun rest hrest ↦ reads_chain_single (h rest (Layer.ends_mono (by decide) hrest))
    (Layer.startsWith_eq_false hrest .ampersand (by decide))

theorem ReadsAt.union {primary : Parse TypeExpr} {kinds : List TokenKind} {type : TypeExpr}
    (h : ReadsAt primary .intersection kinds type) : ReadsAt primary .union kinds type :=
  fun rest hrest ↦ reads_chain_single (h rest (Layer.ends_mono (by decide) hrest))
    (Layer.startsWith_eq_false hrest .pipe (by decide))

/-- What is read at any layer is read at the top one. -/
theorem ReadsAt.toUnion {primary : Parse TypeExpr} {layer : Layer} {kinds : List TokenKind}
    {type : TypeExpr} (h : ReadsAt primary layer kinds type) :
    ReadsAt primary .union kinds type := by
  cases layer with
  | primary => exact h.optional.intersection.union
  | optional => exact h.intersection.union
  | intersection => exact h.union
  | union => exact h

/-- Two or more types are read as a union or an intersection of them. -/
theorem reads_chain {mark : Mark} {make : List TypeExpr → TypeExpr} {part : Parse TypeExpr}
    (kinds : TypeExpr → List TokenKind) (members : List TypeExpr) (rest : List TokenKind)
    (hlength : 2 ≤ members.length) (hrest : startsWith rest mark = false)
    (hmember : ∀ member ∈ members, ∀ after, startsWith after mark = true ∨ after = rest →
      Reads part (kinds member ++ after) member after) :
    Reads (chain mark make part) (joined mark (members.map kinds) ++ rest) (make members) rest := by
  match members, hlength with
  | first :: second :: others, _ =>
    have hothers := reads_whileMark mark part kinds [first] (second :: others) rest hrest
      fun member hmem ↦ hmember member (List.mem_cons_of_mem _ hmem)
    rw [List.map_cons, joined_cons, List.append_assoc, List.flatMap_map]
    exact (hmember first List.mem_cons_self _ (.inl (startsWith_cons_self mark _))).bind
      (hothers.bind (.pure (make (first :: second :: others)) rest))

/-! ## Named types -/

namespace TypeExpr

/-- The lowest layer at which a type is read. -/
def layer : TypeExpr → Layer
  | union _ => .union
  | intersection _ => .intersection
  | optional _ | proc _ => .optional
  | _ => .primary

/-- A reader for primary types understands a type if the type is read at its layer, and in
parentheses as a primary type. -/
structure UnderstoodBy (primary : Parse TypeExpr) (type : TypeExpr) : Prop where
  opens : Opens type.kinds
  bare : ReadsAt primary type.layer type.kinds type
  enclosed : ReadsAt primary .primary (enclosedIf true type.kinds) type

theorem UnderstoodBy.union {primary : Parse TypeExpr} {type : TypeExpr}
    (h : type.UnderstoodBy primary) : ReadsAt primary .union type.kinds type :=
  h.bare.toUnion

/-- What a method returns is read at the layer of optional types. -/
theorem UnderstoodBy.returned {primary : Parse TypeExpr} {type : TypeExpr}
    (h : type.UnderstoodBy primary) : ReadsAt primary .optional type.returnKinds type := by
  have hbare := h.bare
  have henclosed := h.enclosed.optional
  cases type with
  | union | intersection | proc => exact henclosed
  | optional => exact hbare
  | _ => exact hbare.optional

/-- What a question mark follows is read as a primary type. -/
theorem UnderstoodBy.operand {primary : Parse TypeExpr} {type : TypeExpr}
    (h : type.UnderstoodBy primary) (hoptional : type.isOptional = false) :
    ReadsAt primary .primary (enclosedIf type.isCompound type.kinds) type := by
  have hbare := h.bare
  have henclosed := h.enclosed
  cases type with
  | union | intersection | proc => exact henclosed
  | optional => cases hoptional
  | _ => exact hbare

/-- What is a member of an intersection is read as an optional type. -/
theorem UnderstoodBy.memberOfIntersection {primary : Parse TypeExpr} {type : TypeExpr}
    (h : type.UnderstoodBy primary) (hintersection : type.isIntersection = false) :
    ReadsAt primary .optional (enclosedIf type.isUnion type.kinds) type := by
  have hbare := h.bare
  have henclosed := h.enclosed
  cases type with
  | union => exact henclosed.optional
  | intersection => cases hintersection
  | optional | proc => exact hbare
  | _ => exact hbare.optional

/-- What is a member of a union is read as an intersection. -/
theorem UnderstoodBy.memberOfUnion {primary : Parse TypeExpr} {type : TypeExpr}
    (h : type.UnderstoodBy primary) (hunion : type.isUnion = false) :
    ReadsAt primary .intersection type.kinds type := by
  have hbare := h.bare
  cases type with
  | union => cases hunion
  | intersection => exact hbare
  | optional | proc => exact hbare.intersection
  | _ => exact hbare.optional.intersection

/-- A union of two or more members is read back as long as none of them is a union. -/
theorem readsAt_union_of_members {primary : Parse TypeExpr} {members : List TypeExpr}
    (hlength : 2 ≤ members.length) (hmembers : ∀ member ∈ members, member.UnderstoodBy primary)
    (hunion : members.all (fun member ↦ !member.isUnion) = true) :
    ReadsAt primary .union (joined .pipe (members.map kinds)) (.union members) := by
  intro rest hrest
  apply reads_chain kinds members rest hlength (Layer.startsWith_eq_false hrest .pipe (by decide))
  intro member hmember after hafter
  have hnot := List.all_eq_true.1 hunion member hmember
  rw [Bool.not_eq_true'] at hnot
  apply (hmembers member hmember).memberOfUnion hnot
  rcases hafter with hpipe | rfl
  · exact Layer.ends_of_startsWith hpipe (by decide)
  · exact Layer.ends_mono (by decide) hrest

theorem readsAt_intersection_of_members {primary : Parse TypeExpr} {members : List TypeExpr}
    (hlength : 2 ≤ members.length) (hmembers : ∀ member ∈ members, member.UnderstoodBy primary)
    (hintersection : members.all (fun member ↦ !member.isIntersection) = true) :
    ReadsAt primary .intersection
      (joined .ampersand (members.map fun member ↦ enclosedIf member.isUnion member.kinds))
      (.intersection members) := by
  intro rest hrest
  apply reads_chain (fun member ↦ enclosedIf member.isUnion member.kinds) members rest hlength
    (Layer.startsWith_eq_false hrest .ampersand (by decide))
  intro member hmember after hafter
  have hnot := List.all_eq_true.1 hintersection member hmember
  rw [Bool.not_eq_true'] at hnot
  apply (hmembers member hmember).memberOfIntersection hnot
  rcases hafter with hampersand | rfl
  · exact Layer.ends_of_startsWith hampersand (by decide)
  · exact Layer.ends_mono (by decide) hrest

end TypeExpr

theorem reads_commaSeparated (item : Parse TypeExpr) (items : List TypeExpr)
    (rest : List TokenKind) (hnonempty : items.isEmpty = false)
    (hrest : startsWith rest .comma = false)
    (hitem : ∀ type ∈ items, ∀ after, startsWith after .comma = true ∨ after = rest →
      Reads item (type.kinds ++ after) type after) :
    Reads (Parse.commaSeparated item) (joined .comma (items.map TypeExpr.kinds) ++ rest) items
      rest := by
  cases items with
  | nil => cases hnonempty
  | cons first others =>
    have hothers := reads_whileMark .comma item TypeExpr.kinds [first] others rest hrest
      fun type htype ↦ hitem type (List.mem_cons_of_mem _ htype)
    rw [List.map_cons, joined_cons, List.append_assoc, List.flatMap_map]
    apply (hitem first List.mem_cons_self _ _).bind hothers
    cases others with
    | nil => exact .inr rfl
    | cons second others => exact .inl (startsWith_cons_self .comma _)

theorem reads_typeArgs (inner : Parse TypeExpr) (args : List TypeExpr) (rest : List TokenKind)
    (hargs : ∀ arg ∈ args, arg.UnderstoodBy inner)
    (hrest : startsWith rest .leftBracket = false) :
    Reads (typeArgs inner) (argKinds args ++ rest) args rest := by
  rw [argKinds]
  cases hempty : args.isEmpty with
  | true =>
    obtain rfl := List.isEmpty_iff.1 hempty
    exact (reads_eat_false .leftBracket rest hrest).bind (.pure _ _)
  | false =>
    have hitems := reads_commaSeparated (fullType inner) args (.mark .rightBracket :: rest) hempty
      rfl (by
        intro arg harg after hafter
        apply (hargs arg harg).union
        rcases hafter with hcomma | rfl
        · exact Layer.ends_of_startsWith hcomma (by decide)
        · rfl)
    rw [if_neg Bool.false_ne_true, List.append_assoc, List.append_assoc]
    exact (reads_eat_true .leftBracket _).bind
      (hitems.bind ((reads_expect .rightBracket _ rest).bind (.pure _ _)))

/-- A named type is read as what its name refers to, unless it is a variable. -/
theorem reads_namedType (scope : List String) (inner : Parse TypeExpr) (name : TypeName)
    (args : List TypeExpr) (rest : List TokenKind) (hargs : ∀ arg ∈ args, arg.UnderstoodBy inner)
    (hrest : Layer.primary.ends rest = true) :
    Reads (namedType scope inner) (name.kinds ++ argKinds args ++ rest)
      (if !name.absolute && name.path.isEmpty && args.isEmpty && scope.contains name.name then
        .variable_ name.name
      else .ofName name args) rest := by
  have hcolon : startsWith (argKinds args ++ rest) .doubleColon = false := by
    rw [argKinds]
    split
    · exact Layer.startsWith_eq_false hrest .doubleColon (by decide)
    · rfl
  have hbracket := Layer.startsWith_eq_false hrest .leftBracket (by decide)
  rw [List.append_assoc]
  apply (reads_typeName name _ hcolon).bind
  apply (reads_typeArgs inner args rest hargs hbracket).bind
  split <;> exact .pure _ _

/-! ## Primary types -/

/-- A word that is not reserved has no meaning of its own. -/
theorem not_reserved {word : String} (h : reservedWords.contains word = false) :
    (word == "untyped") = false ∧ (word == "true" || word == "false") = false ∧
      (word == "singleton") = false ∧ BaseType.ofKeyword? word = none := by
  have hmem : word ∉ reservedWords := fun hmem ↦
    Bool.false_ne_true (h.symm.trans (List.contains_iff_mem.2 hmem))
  have hne : ∀ other ∈ reservedWords, (word == other) = false := fun other hother ↦
    beq_eq_false_iff_ne.2 fun heq ↦ hmem (heq ▸ hother)
  refine ⟨hne _ (by decide), ?_, hne _ (by decide), ?_⟩
  · rw [hne "true" (by decide), hne "false" (by decide)]
    rfl
  · rw [BaseType.ofKeyword?, List.find?_eq_none]
    intro base hbase heq
    apply hmem
    rw [← beq_iff_eq.1 heq]
    exact List.mem_append_right _ (List.mem_map_of_mem hbase)

/-- Only words of the language itself are told from names of types. -/
theorem reads_wordType_of_not_reserved (scope : List String) (inner : Parse TypeExpr)
    (word : String) (before after : List TokenKind) (type : TypeExpr)
    (hword : startsWith before.tail .doubleColon = true ∨ reservedWords.contains word = false)
    (h : Reads (namedType scope inner) before type after) :
    Reads (wordType scope inner word) before type after := by
  apply Returns.get_bind
  intro cursor hcursor
  rw [nextIsMark_eq cursor _ .doubleColon hcursor]
  split
  · exact h
  · next hnext =>
    obtain ⟨huntyped, hbool, hsingleton, hbase⟩ := not_reserved (hword.resolve_left hnext)
    rw [huntyped, hbool, hsingleton, hbase, if_neg Bool.false_ne_true, if_neg Bool.false_ne_true,
      Bool.false_and, if_neg Bool.false_ne_true]
    exact h

/-- A name is read as a primary type if it is not a bare reserved word. -/
theorem reads_primaryWith_named (scope : List String) (inner : Parse TypeExpr) (name : TypeName)
    (args : List TypeExpr) (rest : List TokenKind) (hargs : ∀ arg ∈ args, arg.UnderstoodBy inner)
    (hrest : Layer.primary.ends rest = true)
    (hname : (name.absolute || !name.path.isEmpty || !reservedWords.contains name.name) = true) :
    Reads (primaryWith scope inner) (name.kinds ++ argKinds args ++ rest)
      (if !name.absolute && name.path.isEmpty && args.isEmpty && scope.contains name.name then
        .variable_ name.name
      else .ofName name args) rest := by
  have hnamed := reads_namedType scope inner name args rest hargs hrest
  obtain ⟨path, last, absolute⟩ := name
  apply (reads_currentKind _).bind
  cases absolute with
  | true => exact hnamed
  | false =>
    cases path with
    | nil =>
      apply reads_wordType_of_not_reserved scope inner last _ _ _ (.inr _) hnamed
      simpa using hname
    | cons first path =>
      have hkinds : TypeName.kinds ⟨first :: path, last, false⟩ = .ident first ::
          ((path ++ [last]).map fun segment ↦ [TokenKind.ident segment]).flatMap
            fun group ↦ .mark .doubleColon :: group :=
        joined_cons .doubleColon [.ident first] _
      rw [hkinds] at hnamed ⊢
      apply reads_wordType_of_not_reserved scope inner first _ _ _ (.inl _) hnamed
      cases path <;> rfl

theorem reads_primaryWith_word (scope : List String) (inner : Parse TypeExpr) (word : String)
    (rest after : List TokenKind) (type : TypeExpr)
    (h : Reads (wordType scope inner word) (.ident word :: rest) type after) :
    Reads (primaryWith scope inner) (.ident word :: rest) type after :=
  (reads_currentKind _).bind h

theorem reads_primaryWith_any (scope : List String) (inner : Parse TypeExpr)
    (rest : List TokenKind) (hrest : Layer.primary.ends rest = true) :
    Reads (primaryWith scope inner) (.ident "untyped" :: rest) .any rest := by
  apply reads_primaryWith_word
  apply Returns.get_bind
  intro cursor hcursor
  rw [nextIsMark_eq cursor _ .doubleColon hcursor, List.tail_cons,
    Layer.startsWith_eq_false hrest .doubleColon (by decide), if_neg Bool.false_ne_true]
  exact (reads_advance _ rest).bind (.pure _ _)

theorem reads_primaryWith_bool (scope : List String) (inner : Parse TypeExpr) (value : Bool)
    (rest : List TokenKind) (hrest : Layer.primary.ends rest = true) :
    Reads (primaryWith scope inner) (.ident (if value then "true" else "false") :: rest)
      (.literal (.bool value)) rest := by
  apply reads_primaryWith_word
  apply Returns.get_bind
  intro cursor hcursor
  rw [nextIsMark_eq cursor _ .doubleColon hcursor, List.tail_cons,
    Layer.startsWith_eq_false hrest .doubleColon (by decide), if_neg Bool.false_ne_true]
  cases value with
  | false => exact (reads_advance _ rest).bind (.pure _ _)
  | true => exact (reads_advance _ rest).bind (.pure _ _)

theorem reads_primaryWith_base (scope : List String) (inner : Parse TypeExpr) (base : BaseType)
    (rest : List TokenKind) (hrest : Layer.primary.ends rest = true) :
    Reads (primaryWith scope inner) (.ident base.keyword :: rest) (.base base) rest := by
  apply reads_primaryWith_word
  apply Returns.get_bind
  intro cursor hcursor
  rw [nextIsMark_eq cursor _ .doubleColon hcursor, List.tail_cons,
    Layer.startsWith_eq_false hrest .doubleColon (by decide), if_neg Bool.false_ne_true]
  cases base <;> exact (reads_advance _ rest).bind (.pure _ _)

/-- The brackets around the name end it. -/
theorem reads_primaryWith_singleton (scope : List String) (inner : Parse TypeExpr)
    (name : TypeName) (rest : List TokenKind) :
    Reads (primaryWith scope inner)
      ([.ident "singleton", .mark .leftParen] ++ name.kinds ++ [.mark .rightParen] ++ rest)
      (.singleton name) rest := by
  rw [List.append_assoc, List.append_assoc]
  apply reads_primaryWith_word
  apply Returns.get_bind
  intro cursor hcursor
  rw [nextIsMark_eq cursor _ .doubleColon hcursor, nextIsMark_eq cursor _ .leftParen hcursor]
  exact (reads_advance _ _).bind ((reads_advance _ _).bind ((reads_typeName name _ rfl).bind
    ((reads_expect .rightParen _ rest).bind (.pure _ _))))

/-- A type in parentheses is a primary type. -/
theorem reads_primaryWith_enclosed (scope : List String) (inner : Parse TypeExpr)
    (kinds rest : List TokenKind) (type : TypeExpr) (h : ReadsAt inner .union kinds type) :
    Reads (primaryWith scope inner) (enclosedIf true kinds ++ rest) type rest := by
  rw [enclosedIf, if_pos rfl, List.append_assoc, List.append_assoc]
  exact (reads_currentKind _).bind ((reads_advance _ _).bind
    ((h (.mark .rightParen :: rest) rfl).bind
      ((reads_expect .rightParen _ rest).bind (.pure _ _))))

theorem ends_of_comma_or_close {after : List TokenKind} {close : Mark}
    (h : startsWith after .comma = true ∨ startsWith after close = true)
    (hclose : close ∉ Layer.union.marks) : Layer.union.ends after = true := by
  rcases h with hcomma | hclosed
  · exact Layer.ends_of_startsWith hcomma (by decide)
  · exact Layer.ends_of_startsWith hclosed hclose

theorem isMark_eq_false_of_startsType {first : TokenKind} {mark : Mark}
    (hfirst : first.startsType = true) (hmark : (TokenKind.mark mark).startsType = false) :
    first.isMark mark = false := by
  cases first with
  | mark found =>
    apply beq_eq_false_iff_ne.2
    rintro rfl
    rw [hfirst] at hmark
    cases hmark
  | _ => rfl

theorem Opens.exists_not_isMark {kinds : List TokenKind} (h : Opens kinds) {close : Mark}
    (hclose : (TokenKind.mark close).startsType = false) :
    ∃ first tail, kinds = first :: tail ∧ first.isMark close = false := by
  obtain ⟨first, tail, hkinds, hfirst, -⟩ := h
  exact ⟨first, tail, hkinds, isMark_eq_false_of_startsType hfirst hclose⟩

/-- The items of a tuple end at a comma or at the closing bracket. -/
theorem reads_primaryWith_tuple (scope : List String) (inner : Parse TypeExpr)
    (items : List TypeExpr) (rest : List TokenKind)
    (hitems : ∀ item ∈ items, item.UnderstoodBy inner) :
    Reads (primaryWith scope inner)
      ([.mark .leftBracket] ++ joined .comma (items.map TypeExpr.kinds) ++ [.mark .rightBracket] ++
        rest) (.tuple items) rest := by
  have haccumulates : Accumulates .rightBracket
      (fun items ↦ do return items ++ [← fullType inner]) [] (items.map TypeExpr.kinds) items := by
    apply accumulates_map TypeExpr.kinds id
    · exact fun item hitem ↦ (hitems item hitem).opens.exists_not_isMark rfl
    · intro before item hitem after hafter
      exact ((hitems item hitem).union after (ends_of_comma_or_close hafter (by decide))).bind
        (.pure _ _)
  rw [List.append_assoc, List.append_assoc]
  exact (reads_currentKind _).bind ((reads_advance _ _).bind
    ((haccumulates.reads_itemsUntil (by decide) rest).bind
      ((reads_expect .rightBracket _ rest).bind (.pure _ _))))

theorem reads_label (key : String) (rest : List TokenKind) :
    Reads label? (.ident key :: .mark .colon :: rest) (some key) rest := by
  apply Returns.get_bind
  intro cursor hcursor
  rw [cursor.kind_current, nextIsMark_eq cursor _ .colon hcursor, hcursor]
  exact (reads_advance _ _).bind ((reads_advance _ _).bind (.pure _ _))

/-- A field is a label and a type, and fields end like items of a tuple. -/
theorem reads_primaryWith_record (scope : List String) (inner : Parse TypeExpr)
    (fields : List (String × TypeExpr)) (rest : List TokenKind)
    (hfields : ∀ field ∈ fields, field.2.UnderstoodBy inner) :
    Reads (primaryWith scope inner)
      ([.mark .leftBrace] ++
        joined .comma (fields.map fun field ↦ [.ident field.1, .mark .colon] ++ field.2.kinds) ++
        [.mark .rightBrace] ++ rest) (.record fields) rest := by
  have haccumulates : Accumulates .rightBrace (fun fields ↦ do
      let _ ← Parse.eat .question
      let key ← Parse.recordKey
      return fields ++ [(key, ← fullType inner)]) []
      (fields.map fun field ↦ [.ident field.1, .mark .colon] ++ field.2.kinds) fields := by
    apply accumulates_map _ id
    · exact fun field _ ↦ ⟨_, _, rfl, rfl⟩
    · intro before field hfield after hafter
      have htype := (hfields field hfield).union after (ends_of_comma_or_close hafter (by decide))
      have hkey : Reads Parse.recordKey (.ident field.1 :: .mark .colon :: (field.2.kinds ++ after))
          field.1 (field.2.kinds ++ after) :=
        (reads_label field.1 _).bind (.pure _ _)
      exact (reads_eat_false .question _ rfl).bind (hkey.bind (htype.bind (.pure _ _)))
  rw [List.append_assoc, List.append_assoc]
  exact (reads_currentKind _).bind ((reads_advance _ _).bind
    ((haccumulates.reads_itemsUntil (by decide) rest).bind
      ((reads_expect .rightBrace _ rest).bind (.pure _ _))))

/-- The parameters with one more behind them. -/
def Params.add (params : Params) : Role → Param → Params
  | .required, param => { params with required := params.required ++ [param] }
  | .optional, param => { params with optional := params.optional ++ [param] }
  | .rest, param => { params with rest := some param }
  | .trailing, param => { params with trailing := params.trailing ++ [param] }
  | .keyword key, param =>
    { params with requiredKeywords := params.requiredKeywords ++ [(key, param)] }
  | .optionalKeyword key, param =>
    { params with optionalKeywords := params.optionalKeywords ++ [(key, param)] }
  | .restKeywords, param => { params with restKeywords := some param }

/-- Whether a parameter without a mark would be taken to be in the given role. -/
def Params.admits (params : Params) : Role → Bool
  | .required => !(params.rest.isSome || !params.optional.isEmpty)
  | .trailing => params.rest.isSome || !params.optional.isEmpty
  | _ => true

theorem headKind_eq_of_startsWith {kinds : List TokenKind} {mark : Mark}
    (h : startsWith kinds mark = true) : headKind kinds = .mark mark := by
  unfold startsWith at h
  cases hhead : headKind kinds with
  | mark found =>
    rw [hhead] at h
    rw [beq_iff_eq.1 h]
  | _ => rw [hhead] at h; cases h

/-- A word behind the type is the name of the parameter. -/
theorem reads_param (inner : Parse TypeExpr) (param : Param) (after : List TokenKind)
    (htype : param.type.UnderstoodBy inner)
    (hafter : startsWith after .comma = true ∨ startsWith after .rightParen = true) :
    Reads (Parse.param inner) (param.kinds ++ after) param after := by
  obtain ⟨type, name⟩ := param
  rw [Param.kinds, List.append_assoc]
  cases name with
  | none =>
    apply (htype.union after (ends_of_comma_or_close hafter (by decide))).bind
    apply (reads_currentKind after).bind
    rcases hafter with hcomma | hclosed
    · rw [headKind_eq_of_startsWith hcomma]
      exact .pure _ _
    · rw [headKind_eq_of_startsWith hclosed]
      exact .pure _ _
  | some name =>
    exact (htype.union _ rfl).bind ((reads_currentKind _).bind ((reads_advance _ after).bind
      (.pure _ _)))

/-- What opens a type is not read as a label. -/
theorem reads_label_none {kinds : List TokenKind} (h : Opens kinds) :
    Reads label? kinds none kinds := by
  apply Returns.get_bind
  intro cursor hcursor
  obtain ⟨first, tail, rfl, -, hcolon⟩ := h
  rw [cursor.kind_current, nextIsMark_eq cursor _ .colon hcursor, hcursor, List.tail_cons]
  cases first with
  | ident name =>
    have hnext : startsWith tail .colon = false := by
      rw [Bool.eq_false_iff]
      intro hstarts
      cases tail with
      | nil => cases hstarts
      | cons second tail => exact hcolon rfl (congrArg some (headKind_eq_of_startsWith hstarts))
    rw [hnext]
    exact .pure _ _
  | _ => exact .pure _ _

theorem Opens.startsWith_eq_false {kinds : List TokenKind} (h : Opens kinds) {mark : Mark}
    (hmark : (TokenKind.mark mark).startsType = false) : startsWith kinds mark = false := by
  obtain ⟨first, tail, rfl, hfirst, -⟩ := h
  exact isMark_eq_false_of_startsType hfirst hmark

theorem opens_param {param : Param} {after : List TokenKind} (hopens : Opens param.type.kinds)
    (hafter : startsWith after .comma = true ∨ startsWith after .rightParen = true) :
    Opens (param.kinds ++ after) := by
  rw [Param.kinds, List.append_assoc]
  apply hopens.append
  cases param.name with
  | none =>
    intro hcolon
    obtain ⟨tail, rfl⟩ := List.head?_eq_some_iff.1 hcolon
    rcases hafter with hcomma | hclosed
    · cases hcomma
    · cases hclosed
  | some name => exact fun hcolon ↦ absurd hcolon (by simp)

/-- A parameter is added in the role in which it is written. -/
theorem reads_addParam (inner : Parse TypeExpr) (params : Params) (role : Role) (param : Param)
    (after : List TokenKind) (htype : param.type.UnderstoodBy inner)
    (hadmits : params.admits role = true)
    (hafter : startsWith after .comma = true ∨ startsWith after .rightParen = true) :
    Reads (Parse.addParam inner params) (role.kinds ++ param.kinds ++ after)
      (params.add role param) after := by
  have hparam := reads_param inner param after htype hafter
  have hopensParam := opens_param htype.opens hafter
  have hdoubleStar := reads_eat_false .doubleStar _ (hopensParam.startsWith_eq_false rfl)
  have hstar := reads_eat_false .star _ (hopensParam.startsWith_eq_false rfl)
  have hquestion := reads_eat_false .question _ (hopensParam.startsWith_eq_false rfl)
  have hlabel := reads_label_none hopensParam
  rw [List.append_assoc]
  cases role with
  | required =>
    rw [Params.admits, Bool.not_eq_true'] at hadmits
    refine hdoubleStar.bind (hstar.bind (hquestion.bind (hlabel.bind (hparam.bind ?_))))
    rw [hadmits]
    exact .pure _ _
  | trailing =>
    rw [Params.admits] at hadmits
    refine hdoubleStar.bind (hstar.bind (hquestion.bind (hlabel.bind (hparam.bind ?_))))
    rw [hadmits]
    exact .pure _ _
  | optional =>
    exact (reads_eat_false .doubleStar _ rfl).bind ((reads_eat_false .star _ rfl).bind
      ((reads_eat_true .question _).bind (hlabel.bind (hparam.bind (.pure _ _)))))
  | rest =>
    exact (reads_eat_false .doubleStar _ rfl).bind ((reads_eat_true .star _).bind
      (hparam.bind (.pure _ _)))
  | keyword key =>
    exact (reads_eat_false .doubleStar _ rfl).bind ((reads_eat_false .star _ rfl).bind
      ((reads_eat_false .question _ rfl).bind ((reads_label key _).bind (hparam.bind (.pure _ _)))))
  | optionalKeyword key =>
    exact (reads_eat_false .doubleStar _ rfl).bind ((reads_eat_false .star _ rfl).bind
      ((reads_eat_true .question _).bind ((reads_label key _).bind (hparam.bind (.pure _ _)))))
  | restKeywords =>
    exact (reads_eat_true .doubleStar _).bind (hparam.bind (.pure _ _))

/-- Parameters in one role are added one by one. -/
theorem accumulates_role {β : Type} (inner : Parse TypeExpr) (role : β → Role) (param : β → Param)
    (state : List β → Params) (items : List β)
    (htypes : ∀ item ∈ items, (param item).type.UnderstoodBy inner)
    (hadmits : ∀ before, ∀ item ∈ items, (state before).admits (role item) = true)
    (hadd : ∀ before item, (state before).add (role item) (param item) = state (before ++ [item])) :
    Accumulates .rightParen (Parse.addParam inner) (state [])
      (items.map fun item ↦ (role item).kinds ++ (param item).kinds) (state items) := by
  apply accumulates_map
  · intro item hitem
    obtain ⟨first, tail, hkinds, hfirst⟩ :=
      (htypes item hitem).opens.exists_not_isMark
        (rfl : (TokenKind.mark .rightParen).startsType = false)
    cases role item with
    | required | trailing =>
      exact ⟨first, tail ++ (param item).name.toList.map .ident, by
        rw [Param.kinds, hkinds]; rfl, hfirst⟩
    | _ => exact ⟨_, _, rfl, rfl⟩
  · intro before item hitem after hafter
    rw [← hadd]
    exact reads_addParam inner _ _ _ after (htypes item hitem) (hadmits before item hitem) hafter

/-- The entries of a parameter list are added up to the list. -/
theorem accumulates_params (inner : Parse TypeExpr) (params : Params) (hfits : params.fits = true)
    (htypes : ∀ type ∈ params.types, type.UnderstoodBy inner) :
    Accumulates .rightParen (Parse.addParam inner) .none
      (params.entries.map fun entry ↦ entry.1.kinds ++ entry.2.kinds) params := by
  have hentries : ∀ entry ∈ params.entries, entry.2.type.UnderstoodBy inner :=
    fun entry hentry ↦ htypes _ (List.mem_map_of_mem hentry)
  rw [Params.fits, Bool.and_eq_true] at hfits
  obtain ⟨required, optional, rest, trailing, requiredKeywords, optionalKeywords, restKeywords⟩ :=
    params
  have hrequired := accumulates_role inner (fun _ ↦ .required) id
    (fun before ↦ ⟨before, [], none, [], [], [], none⟩) required
    (fun param hparam ↦ hentries (.required, param) (by simp [Params.entries, hparam]))
    (fun _ _ _ ↦ rfl) (fun _ _ ↦ rfl)
  have hoptional := accumulates_role inner (fun _ ↦ .optional) id
    (fun before ↦ ⟨required, before, none, [], [], [], none⟩) optional
    (fun param hparam ↦ hentries (.optional, param) (by simp [Params.entries, hparam]))
    (fun _ _ _ ↦ rfl) (fun _ _ ↦ rfl)
  have hrest := accumulates_role inner (fun _ ↦ .rest) id
    (fun before ↦ ⟨required, optional, before.getLast?, [], [], [], none⟩) rest.toList
    (fun param hparam ↦ hentries (.rest, param) (by simp_all [Params.entries]))
    (fun _ _ _ ↦ rfl) (fun _ _ ↦ by rw [List.getLast?_concat]; rfl)
  have htrailing := accumulates_role inner (fun _ ↦ .trailing) id
    (fun before ↦ ⟨required, optional, rest, before, [], [], none⟩) trailing
    (fun param hparam ↦ hentries (.trailing, param) (by simp [Params.entries, hparam]))
    (fun _ param hparam ↦ by
      have hnonempty := List.isEmpty_eq_false_iff.2 (List.ne_nil_of_mem hparam)
      rw [hnonempty, Bool.false_or] at hfits
      exact hfits.2)
    (fun _ _ ↦ rfl)
  have hkeywords := accumulates_role inner (fun entry ↦ .keyword entry.1) Prod.snd
    (fun before ↦ ⟨required, optional, rest, trailing, before, [], none⟩) requiredKeywords
    (fun entry hentry ↦ hentries (.keyword entry.1, entry.2) (by
      simp only [Params.entries, List.mem_append, List.mem_map]
      exact .inl (.inl (.inr ⟨entry, hentry, rfl⟩))))
    (fun _ _ _ ↦ rfl) (fun _ _ ↦ rfl)
  have hoptionalKeywords := accumulates_role inner (fun entry ↦ .optionalKeyword entry.1) Prod.snd
    (fun before ↦ ⟨required, optional, rest, trailing, requiredKeywords, before, none⟩)
    optionalKeywords
    (fun entry hentry ↦ hentries (.optionalKeyword entry.1, entry.2) (by
      simp only [Params.entries, List.mem_append, List.mem_map]
      exact .inl (.inr ⟨entry, hentry, rfl⟩)))
    (fun _ _ _ ↦ rfl) (fun _ _ ↦ rfl)
  have hrestKeywords := accumulates_role inner (fun _ ↦ .restKeywords) id
    (fun before ↦ ⟨required, optional, rest, trailing, requiredKeywords, optionalKeywords,
      before.getLast?⟩) restKeywords.toList
    (fun param hparam ↦ hentries (.restKeywords, param) (by simp_all [Params.entries]))
    (fun _ _ _ ↦ rfl) (fun _ _ ↦ by rw [List.getLast?_concat]; rfl)
  have hlast : ∀ param : Option Param, param.toList.getLast? = param := fun param ↦ by
    cases param <;> rfl
  rw [hlast] at hrest hrestKeywords
  simp only [Params.entries, List.map_append, List.map_map]
  exact (((((hrequired.append hoptional).append hrest).append htrailing).append hkeywords).append
    hoptionalKeywords).append hrestKeywords

end DeclaredMethods.Signature
