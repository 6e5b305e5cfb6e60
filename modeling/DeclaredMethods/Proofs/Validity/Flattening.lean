import DeclaredMethods.Proofs.RoundTrip.Tokens
import DeclaredMethods.Proofs.Validity.Plain

/-!
# The canonical form of a plain type

Different types can have one text: a union inside a union is written like a flat one, and a bare
name is written like a variable. Of all plain types with one text, one is canonical. Rebuilding a
type with `flatten` gives it, unless the text stands for something else: a question mark behind an
optional type or a symbol, or a reserved word as a name.
-/

namespace DeclaredMethods.Signature

def TypeName.isReserved (name : TypeName) : Bool :=
  !name.absolute && name.path.isEmpty && reservedWords.contains name.name

/-- Whether the text of a type with these parts stands for such a type: an optional type is neither
of an optional type nor of a symbol, and a name is not reserved. -/
def TypeExpr.isClear : TypeExpr → Bool
  | .optional inner => !inner.isOptional && !inner.isSymbol
  | .instance_ name _ | .interface name _ | .alias_ name _ => !name.isReserved
  | .variable_ name => !reservedWords.contains name
  | _ => true

def TypeExpr.Clear (type : TypeExpr) : Prop :=
  type.Every fun part ↦ part.isClear = true

/-- A method type all of whose types are clear, with type parameters that can be told. -/
structure MethodType.Clear (method : MethodType) : Prop where
  typeParams : method.typeParams.all isTypeParam = true
  types : ∀ type ∈ method.types, type.Clear

namespace TypeExpr

/-- The types that a union is made of; any other type is one. -/
def unionMembers : TypeExpr → List TypeExpr
  | union members => members
  | type => [type]

def intersectionMembers : TypeExpr → List TypeExpr
  | intersection members => members
  | type => [type]

/-- The type that a name stands for where the given type parameters are in scope. -/
def named (scope : List String) (name : TypeName) (args : List TypeExpr) : TypeExpr :=
  if !name.absolute && name.path.isEmpty && args.isEmpty && scope.contains name.name then
    .variable_ name.name
  else .ofName name args

/-- A type that is written the same way and holds neither a union in a union nor a bare name in
scope, given that its parts do not. -/
def flatten (scope : List String) : TypeExpr → TypeExpr
  | union members => union (members.flatMap unionMembers)
  | intersection members => intersection (members.flatMap intersectionMembers)
  | instance_ name args | interface name args | alias_ name args => named scope name args
  | variable_ name => named scope ⟨[], name, false⟩ []
  | type => type

/-- What shows of a type where it stands in another one. -/
structure SameShape (type form : TypeExpr) : Prop where
  isUnion : form.isUnion = type.isUnion
  isIntersection : form.isIntersection = type.isIntersection
  isOptional : form.isOptional = type.isOptional
  isSymbol : form.isSymbol = type.isSymbol
  isCompound : form.isCompound = type.isCompound

/-- A canonical type that is written like another one, also where it stands in a third. -/
structure CanonicalFormOf (scope : List String) (type form : TypeExpr) : Prop where
  canonical : form.Canonical scope
  text : form.text = type.text
  shape : type.SameShape form

end TypeExpr

/-- Groups of texts with a separator between all of them. -/
theorem intercalate_flatMap {α : Type} (separator : String) (texts : α → List String)
    (text : α → String) (items : List α) (hne : ∀ item ∈ items, texts item ≠ [])
    (htext : ∀ item ∈ items, separator.intercalate (texts item) = text item) :
    separator.intercalate (items.flatMap texts) = separator.intercalate (items.map text) := by
  induction items with
  | nil => rfl
  | cons item items ih =>
    have hrest := ih (fun item hitem ↦ hne item (List.mem_cons_of_mem _ hitem))
      fun item hitem ↦ htext item (List.mem_cons_of_mem _ hitem)
    rw [List.flatMap_cons, List.map_cons]
    cases items with
    | nil => simpa using htext item List.mem_cons_self
    | cons second items =>
      have hsecond : (second :: items).flatMap texts ≠ [] := by
        simp [hne second (by simp)]
      rw [String.intercalate_append_of_ne_nil (hne item List.mem_cons_self) hsecond, hrest,
        htext item List.mem_cons_self, String.intercalate_cons_of_ne_nil (by simp)]

namespace TypeExpr

variable {scope : List String}

theorem text_ofName (name : TypeName) (args : List TypeExpr) :
    (ofName name args).text = name.text ++ bracketed (texts args) := by
  unfold ofName
  cases name.kind <;> simp only [TypeExpr.text]

theorem text_named (name : TypeName) (args : List TypeExpr) :
    (named scope name args).text = name.text ++ bracketed (texts args) := by
  unfold named
  split
  next hvariable =>
    obtain ⟨path, last, absolute⟩ := name
    simp only [Bool.and_eq_true, Bool.not_eq_true', List.isEmpty_iff] at hvariable
    obtain ⟨⟨⟨rfl, rfl⟩, rfl⟩, -⟩ := hvariable
    have htext : TypeName.text ⟨[], last, false⟩ = last := by
      simp [TypeName.text, TypeName.segments, joinSegments]
    rw [TypeExpr.text, texts, htext]
    exact String.append_empty.symm
  next => exact text_ofName name args

/-- Names are printed like variables, with no brackets around them. -/
theorem sameShape_named (name : TypeName) (args : List TypeExpr) {type : TypeExpr}
    (h : type.SameShape (variable_ name.name)) : type.SameShape (named scope name args) := by
  have hshape : ∀ form : TypeExpr, form = variable_ name.name ∨ form = instance_ name args ∨
      form = interface name args ∨ form = alias_ name args → type.SameShape form := by
    rintro form (rfl | rfl | rfl | rfl)
    · exact h
    · exact ⟨h.isUnion, h.isIntersection, h.isOptional, h.isSymbol, h.isCompound⟩
    · exact ⟨h.isUnion, h.isIntersection, h.isOptional, h.isSymbol, h.isCompound⟩
    · exact ⟨h.isUnion, h.isIntersection, h.isOptional, h.isSymbol, h.isCompound⟩
  apply hshape
  unfold named ofName
  split
  · exact .inl rfl
  · cases name.kind <;> simp

theorem canonical_named {name : TypeName} {args : List TypeExpr} (hwords : name.hasWords = true)
    (hreserved : name.isReserved = false) (hargs : ∀ arg ∈ args, arg.Canonical scope) :
    (named scope name args).Canonical scope := by
  unfold named
  split
  next hvariable =>
    rw [Bool.and_eq_true] at hvariable
    exact .intro _ hvariable.2 fun _ hpart ↦ absurd hpart List.not_mem_nil
  next hvariable =>
    have hbare : (name.absolute || !name.path.isEmpty || (!reservedWords.contains name.name &&
        !(args.isEmpty && scope.contains name.name))) = true := by
      rw [TypeName.isReserved] at hreserved
      cases habsolute : name.absolute with
      | true => rfl
      | false =>
        cases hpath : name.path.isEmpty with
        | false => rfl
        | true =>
          rw [habsolute, hpath] at hreserved hvariable
          have hfree : reservedWords.contains name.name = false := hreserved
          have hscope : (args.isEmpty && scope.contains name.name) = false :=
            Bool.not_eq_true _ ▸ hvariable
          rw [hfree, hscope]
          rfl
    have hfits : ∀ kind, name.kind = kind → name.fits scope kind args = true := by
      rintro kind rfl
      rw [TypeName.fits, hwords, beq_self_eq_true, hbare]
      rfl
    unfold ofName
    cases hkind : name.kind with
    | class_ => exact .intro _ (hfits _ hkind) hargs
    | interface => exact .intro _ (hfits _ hkind) hargs
    | alias_ => exact .intro _ (hfits _ hkind) hargs

theorem Canonical.fits_here {type : TypeExpr} (h : type.Canonical scope) :
    type.fits scope = true := by
  cases h with
  | intro _ fits _ => exact fits

theorem Canonical.components {type : TypeExpr} (h : type.Canonical scope) :
    ∀ part ∈ type.components, part.Canonical scope := by
  cases h with
  | intro _ _ components => exact components

/-- The members of a canonical union are no unions, and there is one. -/
theorem Canonical.unionMembers {type : TypeExpr} (h : type.Canonical scope) :
    type.unionMembers ≠ [] ∧
      ∀ member ∈ type.unionMembers, member.Canonical scope ∧ member.isUnion = false := by
  have hfits := h.fits_here
  cases type with
  | union members =>
    rw [fits, Bool.and_eq_true, decide_eq_true_iff] at hfits
    refine ⟨List.ne_nil_of_length_pos (Nat.zero_lt_of_lt hfits.1), fun member hmember ↦ ?_⟩
    exact ⟨h.components member hmember,
      Bool.not_eq_true' _ ▸ List.all_eq_true.1 hfits.2 member hmember⟩
  | _ => exact ⟨List.cons_ne_nil _ _, List.forall_mem_singleton.2 ⟨h, rfl⟩⟩

/-- The members of a canonical intersection are no intersections, and there is one. -/
theorem Canonical.intersectionMembers {type : TypeExpr} (h : type.Canonical scope) :
    type.intersectionMembers ≠ [] ∧
      ∀ member ∈ type.intersectionMembers,
        member.Canonical scope ∧ member.isIntersection = false := by
  have hfits := h.fits_here
  cases type with
  | intersection members =>
    rw [fits, Bool.and_eq_true, decide_eq_true_iff] at hfits
    refine ⟨List.ne_nil_of_length_pos (Nat.zero_lt_of_lt hfits.1), fun member hmember ↦ ?_⟩
    exact ⟨h.components member hmember,
      Bool.not_eq_true' _ ▸ List.all_eq_true.1 hfits.2 member hmember⟩
  | _ => exact ⟨List.cons_ne_nil _ _, List.forall_mem_singleton.2 ⟨h, rfl⟩⟩

theorem length_le_flatMap {α β : Type} {items : List α} {split : α → List β}
    (h : ∀ item ∈ items, split item ≠ []) : items.length ≤ (items.flatMap split).length := by
  induction items with
  | nil => exact Nat.le_refl 0
  | cons item items ih =>
    have hrest := ih fun item hitem ↦ h item (List.mem_cons_of_mem _ hitem)
    have hitem := List.length_pos_of_ne_nil (h item List.mem_cons_self)
    rw [List.flatMap_cons, List.length_append, List.length_cons]
    omega

/-- A union in a union is printed without brackets, so flattening keeps the text. -/
theorem intercalate_unionMembers (type : TypeExpr) :
    " | ".intercalate (type.unionMembers.map TypeExpr.text) = type.text := by
  cases type with
  | union members => rw [unionMembers, TypeExpr.text, texts_eq_map]
  | _ => exact String.intercalate_singleton

/-- How a type is written as a member of an intersection. -/
def memberText (type : TypeExpr) : String :=
  parenthesizedIf type.isUnion type.text

/-- The same for intersections, whose members need brackets if they are unions. -/
theorem intercalate_intersectionMembers (type : TypeExpr) :
    " & ".intercalate (type.intersectionMembers.map memberText) = type.memberText := by
  cases type with
  | intersection members =>
    rw [memberText, intersectionMembers, TypeExpr.text, memberTexts_eq_map]
    rfl
  | _ => exact String.intercalate_singleton

section Chains

variable {g : TypeExpr → TypeExpr} {members : List TypeExpr}

/-- Splitting the members of a chain leaves at least as many. -/
theorem split_members {split : TypeExpr → List TypeExpr} {P : TypeExpr → Prop}
    (hlength : 2 ≤ members.length)
    (h : ∀ member ∈ members, split (g member) ≠ [] ∧ ∀ part ∈ split (g member), P part) :
    2 ≤ ((members.map g).flatMap split).length ∧
      ∀ part ∈ (members.map g).flatMap split, P part := by
  rw [List.flatMap_map]
  constructor
  · exact hlength.trans (length_le_flatMap fun member hmember ↦ (h member hmember).1)
  · exact List.forall_mem_flatMap.2 fun member hmember ↦ (h member hmember).2

/-- Flattening members that are unions keeps the text and leaves no union among them. -/
theorem canonicalFormOf_union (hlength : 2 ≤ members.length)
    (h : ∀ member ∈ members, CanonicalFormOf scope member (g member)) :
    CanonicalFormOf scope (union members)
      (union ((members.map g).flatMap TypeExpr.unionMembers)) := by
  have hparts := fun member hmember ↦ (h member hmember).canonical.unionMembers
  obtain ⟨htwo, hmem⟩ := split_members hlength hparts
  refine ⟨.intro _ ?_ fun part hpart ↦ (hmem part hpart).1, ?_, ⟨rfl, rfl, rfl, rfl, rfl⟩⟩
  · rw [fits, Bool.and_eq_true, decide_eq_true_iff, List.all_eq_true]
    exact ⟨htwo, fun part hpart ↦ Bool.not_eq_true' _ ▸ (hmem part hpart).2⟩
  · rw [TypeExpr.text, TypeExpr.text, texts_eq_map, texts_eq_map, List.flatMap_map,
      List.map_flatMap]
    apply intercalate_flatMap
    · exact fun member hmember ↦ mt List.map_eq_nil_iff.1 (hparts member hmember).1
    · intro member hmember
      rw [intercalate_unionMembers, (h member hmember).text]

theorem canonicalFormOf_intersection (hlength : 2 ≤ members.length)
    (h : ∀ member ∈ members, CanonicalFormOf scope member (g member)) :
    CanonicalFormOf scope (intersection members)
      (intersection ((members.map g).flatMap TypeExpr.intersectionMembers)) := by
  have hparts := fun member hmember ↦ (h member hmember).canonical.intersectionMembers
  obtain ⟨htwo, hmem⟩ := split_members hlength hparts
  refine ⟨.intro _ ?_ fun part hpart ↦ (hmem part hpart).1, ?_, ⟨rfl, rfl, rfl, rfl, rfl⟩⟩
  · rw [fits, Bool.and_eq_true, decide_eq_true_iff, List.all_eq_true]
    exact ⟨htwo, fun part hpart ↦ Bool.not_eq_true' _ ▸ (hmem part hpart).2⟩
  · rw [TypeExpr.text, TypeExpr.text, memberTexts_eq_map, memberTexts_eq_map, List.flatMap_map,
      List.map_flatMap]
    apply intercalate_flatMap
    · exact fun member hmember ↦ mt List.map_eq_nil_iff.1 (hparts member hmember).1
    · intro member hmember
      have hmember' := h member hmember
      refine (intercalate_intersectionMembers (g member)).trans ?_
      rw [memberText, hmember'.shape.isUnion, hmember'.text]

end Chains

end TypeExpr

section Functions

variable {scope : List String} {g : TypeExpr → TypeExpr}

theorem Params.text_mapParts {params : Params}
    (h : ∀ type ∈ params.types, (g type).text = type.text) :
    (params.mapParts g).text = params.text := by
  rw [Params.text_eq, Params.text_eq, Params.entries_mapParts, List.map_map]
  congr 1
  apply List.map_congr_left
  intro entry hentry
  have htype := h entry.2.type (List.mem_map_of_mem hentry)
  obtain ⟨role, type, name⟩ := entry
  cases name with
  | none => simp [Param.mapPart, Param.text, htype]
  | some name => simp [Param.mapPart, Param.text, htype]

theorem TypeExpr.CanonicalFormOf.parenthesizedIf {type form : TypeExpr}
    (h : type.CanonicalFormOf scope form) :
    Signature.parenthesizedIf form.isCompound form.text =
      Signature.parenthesizedIf type.isCompound type.text := by
  rw [h.shape.isCompound, h.text]

/-- The text of a method type depends on those of its types and on which of them need brackets. -/
theorem MethodType.text_mapParts {method : MethodType}
    (h : ∀ type ∈ method.types, type.CanonicalFormOf scope (g type)) :
    (method.mapParts g).text = method.text := by
  obtain ⟨typeParams, params, block, returnType⟩ := method
  have hparams : (params.mapParts g).text = params.text := by
    apply Params.text_mapParts
    exact fun type htype ↦ (h type (by simp [MethodType.types, htype])).text
  have hreturn := (h returnType (by simp [MethodType.types])).parenthesizedIf
  have hblock : BlockType.text? (block.map (BlockType.mapParts g)) = BlockType.text? block := by
    cases block with
    | none => rfl
    | some block =>
      obtain ⟨blockParams, blockReturn, required⟩ := block
      have hblockParams : (blockParams.mapParts g).text = blockParams.text := by
        apply Params.text_mapParts
        exact fun type htype ↦ (h type (by simp [MethodType.types, htype])).text
      have hblockReturn := (h blockReturn (by simp [MethodType.types])).parenthesizedIf
      rw [Option.map_some, BlockType.text?, BlockType.text?, BlockType.mapParts, BlockType.text,
        BlockType.text, hblockParams, hblockReturn]
  rw [MethodType.mapParts, MethodType.text, MethodType.text, hparams, hblock, hreturn]

end Functions

namespace TypeExpr

variable {scope : List String} {g : TypeExpr → TypeExpr}

theorem texts_map {types : List TypeExpr}
    (h : ∀ type ∈ types, CanonicalFormOf scope type (g type)) :
    texts (types.map g) = texts types := by
  rw [texts_eq_map, texts_eq_map, List.map_map]
  exact List.map_congr_left fun type htype ↦ (h type htype).text

theorem canonicalFormOf_named {type : TypeExpr} {name : TypeName} {args : List TypeExpr}
    (hwords : name.hasWords = true) (hreserved : name.isReserved = false)
    (hargs : ∀ arg ∈ args, CanonicalFormOf scope arg (g arg))
    (htext : type.text = name.text ++ bracketed (texts args))
    (hshape : type.SameShape (variable_ name.name)) :
    CanonicalFormOf scope type (named scope name (args.map g)) := by
  refine ⟨canonical_named hwords hreserved ?_, ?_, sameShape_named name _ hshape⟩
  · exact List.forall_mem_map.2 fun arg harg ↦ (hargs arg harg).canonical
  · rw [text_named, texts_map hargs, htext]

/-- One step gives a canonical form if the steps for the parts do. -/
theorem canonicalFormOf_flatten {type : TypeExpr} (hplain : type.isPlain = true)
    (hclear : type.isClear = true)
    (hparts : ∀ part ∈ type.components, CanonicalFormOf scope part (g part)) :
    CanonicalFormOf scope type (flatten scope (type.mapParts g)) := by
  have hcanonical : ∀ part ∈ (type.mapParts g).components, part.Canonical scope := by
    rw [components_mapParts]
    exact List.forall_mem_map.2 fun part hpart ↦ (hparts part hpart).canonical
  cases type with
  | any | base | singleton | literal =>
    exact ⟨.intro _ hplain hcanonical, rfl, ⟨rfl, rfl, rfl, rfl, rfl⟩⟩
  | instance_ name args | interface name args | alias_ name args =>
    refine canonicalFormOf_named hplain (Bool.not_eq_true' _ ▸ hclear) hparts ?_
      ⟨rfl, rfl, rfl, rfl, rfl⟩
    rw [TypeExpr.text]
  | variable_ name =>
    have hwords : TypeName.hasWords ⟨[], name, false⟩ = true := by
      rw [TypeName.hasWords, TypeName.segments, List.nil_append, List.all_cons, List.all_nil,
        Bool.and_true]
      exact hplain
    have htext : (variable_ name).text =
        TypeName.text ⟨[], name, false⟩ ++ bracketed (texts []) := by
      simp [TypeExpr.text, TypeName.text, TypeName.segments, joinSegments, bracketed, texts]
    exact canonicalFormOf_named hwords (Bool.not_eq_true' _ ▸ hclear) hparts htext
      ⟨rfl, rfl, rfl, rfl, rfl⟩
  | optional inner =>
    have hinner := hparts inner List.mem_cons_self
    have hfits : (optional (g inner)).fits scope = true := by
      rw [fits, hinner.shape.isOptional, hinner.shape.isSymbol]
      exact hclear
    have htext : (optional (g inner)).text = (optional inner).text := by
      rw [TypeExpr.text, TypeExpr.text, hinner.parenthesizedIf]
    exact ⟨.intro _ hfits hcanonical, htext, ⟨rfl, rfl, rfl, rfl, rfl⟩⟩
  | union members => exact canonicalFormOf_union (decide_eq_true_iff.1 hplain) hparts
  | intersection members => exact canonicalFormOf_intersection (decide_eq_true_iff.1 hplain) hparts
  | tuple items =>
    have htexts : texts (items.map g) = texts items := texts_map hparts
    have htext : (tuple (items.map g)).text = (tuple items).text := by
      rw [TypeExpr.text, TypeExpr.text, htexts, List.isEmpty_map]
    exact ⟨.intro _ rfl hcanonical, htext, ⟨rfl, rfl, rfl, rfl, rfl⟩⟩
  | record fields =>
    have hfits : (record (fields.map fun field ↦ (field.1, g field.2))).fits scope = true := by
      rw [fits, List.all_map]
      exact hplain
    have htexts : fieldTexts (fields.map fun field ↦ (field.1, g field.2)) = fieldTexts fields := by
      rw [fieldTexts_eq_map, fieldTexts_eq_map, List.map_map]
      apply List.map_congr_left
      intro field hfield
      exact congrArg (field.1 ++ ": " ++ ·) (hparts field.2 (List.mem_map_of_mem hfield)).text
    have htext : (record (fields.map fun field ↦ (field.1, g field.2))).text =
        (record fields).text := by
      rw [TypeExpr.text, TypeExpr.text, htexts, List.isEmpty_map]
    exact ⟨.intro _ hfits hcanonical, htext, ⟨rfl, rfl, rfl, rfl, rfl⟩⟩
  | proc method =>
    have hfits : (proc (method.mapParts g)).fits scope = true := by
      rw [fits, MethodType.paramsFit_mapParts]
      exact hplain
    have htext : (proc (method.mapParts g)).text = (proc method).text := by
      rw [TypeExpr.text, TypeExpr.text, MethodType.text_mapParts hparts]
    exact ⟨.intro _ hfits hcanonical, htext, ⟨rfl, rfl, rfl, rfl, rfl⟩⟩

/-- The flattened form of a plain and clear type is canonical and written the same way. -/
theorem Plain.canonicalFormOf {type : TypeExpr} (h : type.Plain) (hclear : type.Clear) :
    CanonicalFormOf scope type (type.map (flatten scope)) := by
  induction h with
  | intro hplain _ ih =>
    rw [TypeExpr.map_eq]
    exact canonicalFormOf_flatten hplain hclear.here fun part hpart ↦
      ih part hpart (hclear.parts part hpart)

end TypeExpr

/-- The text of a plain and clear method type is that of a canonical one. -/
theorem MethodType.Plain.exists_canonical {method : MethodType} (h : method.Plain)
    (hclear : method.Clear) : ∃ form : MethodType, form.Canonical ∧ form.text = method.text := by
  have hforms : ∀ type ∈ method.types, TypeExpr.CanonicalFormOf method.typeParams type
      (type.map (TypeExpr.flatten method.typeParams)) :=
    fun type htype ↦ (h.types type htype).canonicalFormOf (hclear.types type htype)
  refine ⟨method.mapParts (TypeExpr.map (TypeExpr.flatten method.typeParams)), ⟨?_, ?_, ?_⟩, ?_⟩
  · exact hclear.typeParams
  · rw [MethodType.paramsFit_mapParts, h.params]
  · rw [MethodType.types_mapParts]
    exact List.forall_mem_map.2 fun type htype ↦ (hforms type htype).canonical
  · exact MethodType.text_mapParts hforms

end DeclaredMethods.Signature
