import DeclaredMethods.Proofs.Scoping.Capture

/-!
# Replacing type variables twice

A method that is inherited over two steps has its type variables replaced twice. The same comes out
of replacing them once, by what the first replacements become under the second ones and else by the
second ones, as long as the method binds no variable that the first replacements bring in.

Each type variable is replaced once: replacing does not go on inside what stands for a variable. So
it is enough to follow the variables, and two replacements that agree on the variables of a type do
the same to it. In the same way the replacements of variables that the method binds need to be left
out only where there are some.
-/

namespace DeclaredMethods.Signature

section Parts

variable {g g' : TypeExpr → TypeExpr}

theorem Param.mapPart_congr {param : Param} (h : g param.type = g' param.type) :
    param.mapPart g = param.mapPart g' :=
  congrArg (Param.mk · param.name) h

/-- Only what becomes of the types of the parameters counts. -/
theorem Params.mapParts_congr {params : Params} (h : ∀ type ∈ params.types, g type = g' type) :
    params.mapParts g = params.mapParts g' := by
  have hentries := Params.forall_mem_entries.1 (List.forall_mem_map.1 h)
  obtain ⟨hrequired, hoptional, hrest, htrailing, hkeywords, hoptionalKeywords, hrestKeywords⟩ :=
    hentries
  simp only [Params.mapParts, Params.mk.injEq]
  refine ⟨?_, ?_, ?_, ?_, ?_, ?_, ?_⟩
  · exact List.map_congr_left fun param hparam ↦ Param.mapPart_congr (hrequired param hparam)
  · exact List.map_congr_left fun param hparam ↦ Param.mapPart_congr (hoptional param hparam)
  · exact Option.map_congr fun param hparam ↦
      Param.mapPart_congr (hrest param (Option.mem_toList.2 hparam))
  · exact List.map_congr_left fun param hparam ↦ Param.mapPart_congr (htrailing param hparam)
  · exact List.map_congr_left fun entry hentry ↦
      congrArg (entry.1, ·) (Param.mapPart_congr (hkeywords entry hentry))
  · exact List.map_congr_left fun entry hentry ↦
      congrArg (entry.1, ·) (Param.mapPart_congr (hoptionalKeywords entry hentry))
  · exact Option.map_congr fun param hparam ↦
      Param.mapPart_congr (hrestKeywords param (Option.mem_toList.2 hparam))

theorem MethodType.mapParts_congr {method : MethodType}
    (h : ∀ type ∈ method.types, g type = g' type) : method.mapParts g = method.mapParts g' := by
  simp only [MethodType.types, List.forall_mem_append, List.forall_mem_singleton,
    List.forall_mem_flatMap, Option.mem_toList] at h
  obtain ⟨⟨hparams, hblock⟩, hreturn⟩ := h
  simp only [MethodType.mapParts, MethodType.mk.injEq, true_and]
  refine ⟨Params.mapParts_congr hparams, Option.map_congr fun block hmem ↦ ?_, hreturn⟩
  obtain ⟨hblockParams, hblockReturn⟩ := hblock block hmem
  rw [BlockType.mapParts, BlockType.mapParts, Params.mapParts_congr hblockParams, hblockReturn]

/-- Only the components are changed. -/
theorem TypeExpr.mapParts_congr {type : TypeExpr}
    (h : ∀ part ∈ type.components, g part = g' part) : type.mapParts g = type.mapParts g' := by
  cases type with
  | instance_ | interface | alias_ | union | intersection | tuple =>
    exact congrArg _ (List.map_congr_left h)
  | optional inner => exact congrArg TypeExpr.optional (h inner List.mem_cons_self)
  | record fields =>
    refine congrArg TypeExpr.record (List.map_congr_left fun field hfield ↦ ?_)
    exact congrArg (field.1, ·) (h field.2 (List.mem_map_of_mem hfield))
  | proc method => exact congrArg TypeExpr.proc (MethodType.mapParts_congr h)
  | any | base | singleton | literal | variable_ => rfl

theorem Param.mapPart_id : Param.mapPart (fun type ↦ type) = id := by
  funext param
  cases param
  rfl

theorem Params.mapParts_id (params : Params) : params.mapParts (fun type ↦ type) = params := by
  cases params
  simp [Params.mapParts, Param.mapPart_id]

theorem MethodType.mapParts_id (method : MethodType) :
    method.mapParts (fun type ↦ type) = method := by
  have hblock : BlockType.mapParts (fun type ↦ type) = id := by
    funext block
    cases block
    rw [BlockType.mapParts, Params.mapParts_id, id_eq]
  cases method
  rw [MethodType.mapParts, Params.mapParts_id, hblock, Option.map_id, id_eq]

theorem TypeExpr.mapParts_id (type : TypeExpr) : type.mapParts (fun part ↦ part) = type := by
  cases type with
  | proc method => exact congrArg TypeExpr.proc method.mapParts_id
  | _ => simp [TypeExpr.mapParts]

end Parts

namespace TypeExpr

@[simp] theorem substitute_variable (bound : Substitution) (name : String) :
    (variable_ name).substitute bound = (bound.get? name).getD (.variable_ name) := by
  rw [substitute, map]
  rfl

/-- In a type that is no variable, the variables are replaced in its parts. -/
theorem substitute_eq_mapParts (bound : Substitution) {type : TypeExpr}
    (h : ∀ name, type ≠ .variable_ name) :
    type.substitute bound = type.mapParts (substitute bound) := by
  have happly : ∀ other : TypeExpr, (∀ name, other ≠ .variable_ name) →
      bound.apply other = other := by
    intro other hother
    cases other with
    | variable_ name => exact absurd rfl (hother name)
    | _ => rfl
  rw [substitute, map_eq, happly _ (mapParts_ne_variable _ h)]
  rfl

/-- Only the replacements of the variables that occur in a type count. -/
theorem substitute_congr {bound bound' : Substitution} {type : TypeExpr}
    (h : ∀ name, type.HasVariable name → bound.get? name = bound'.get? name) :
    type.substitute bound = type.substitute bound' := by
  induction type using variable_induction with
  | hvariable name => rw [substitute_variable, substitute_variable, h name .here]
  | hother type hvariable ih =>
    rw [substitute_eq_mapParts bound hvariable, substitute_eq_mapParts bound' hvariable]
    apply mapParts_congr
    intro part hpart
    exact ih part hpart fun name hname ↦ h name (.inside hpart hname)

theorem substitute_empty (type : TypeExpr) : type.substitute .empty = type := by
  induction type using variable_induction with
  | hvariable name => rw [substitute_variable, OrderedMap.get?_empty, Option.getD_none]
  | hother type hvariable ih =>
    rw [substitute_eq_mapParts _ hvariable, mapParts_congr ih, mapParts_id]

end TypeExpr

namespace Substitution

/-- Replaces by `first` and then by `second`: a variable of the first becomes what it stands for,
with the variables of the second replaced there, and the other variables of the second become what
they stand for. -/
def andThen (first second : Substitution) : Substitution :=
  ⟨first.entries.map (fun entry ↦ (entry.1, entry.2.substitute second)) ++
    second.entries.filter fun entry ↦ !first.contains entry.1⟩

/-- The second substitution goes into what the first one has put in place, and binds what that
leaves free. -/
theorem get?_andThen (first second : Substitution) (name : String) :
    (first.andThen second).get? name =
      ((first.get? name).map (TypeExpr.substitute second)).or (second.get? name) := by
  rw [andThen, OrderedMap.get?, OrderedMap.lookup_append, OrderedMap.lookup_map]
  cases hfirst : first.get? name with
  | some value =>
    rw [OrderedMap.get?] at hfirst
    rw [hfirst]
    rfl
  | none =>
    have hkept : ∀ value : TypeExpr, (!first.contains (name, value).1) = true := by
      intro value
      rw [OrderedMap.contains, hfirst]
      rfl
    rw [OrderedMap.lookup_filter hkept]
    rw [OrderedMap.get?] at hfirst
    rw [hfirst]
    rfl

end Substitution

/-- Replacing twice in a type is replacing once. -/
theorem TypeExpr.substitute_andThen (first second : Substitution) (type : TypeExpr) :
    (type.substitute first).substitute second = type.substitute (first.andThen second) := by
  induction type using variable_induction with
  | hvariable name =>
    rw [substitute_variable, substitute_variable, Substitution.get?_andThen]
    cases first.get? name with
    | some value => rfl
    | none => exact substitute_variable second name
  | hother type hvariable ih =>
    calc (type.substitute first).substitute second
      _ = (type.mapParts (substitute first)).substitute second := by
        rw [substitute_eq_mapParts first hvariable]
      _ = (type.mapParts (substitute first)).mapParts (substitute second) :=
        substitute_eq_mapParts second (mapParts_ne_variable _ hvariable)
      _ = type.mapParts fun part ↦ (part.substitute first).substitute second :=
        mapParts_mapParts _ _ type
      _ = type.mapParts (substitute (first.andThen second)) := mapParts_congr ih
      _ = type.substitute (first.andThen second) := (substitute_eq_mapParts _ hvariable).symm

/-- Names that the first replacements do not bring in can be left out before or after putting the
two together. -/
theorem Substitution.get?_without_andThen {first second : Substitution} {names : List String}
    (h : ∀ name value, first.get? name = some value → ∀ other ∈ names, ¬value.HasVariable other)
    (name : String) :
    ((first.without names).andThen (second.without names)).get? name =
      ((first.andThen second).without names).get? name := by
  rw [get?_andThen, get?_without, get?_without, get?_without, get?_andThen]
  by_cases hname : name ∈ names
  · simp [hname]
  · simp only [hname, if_false]
    cases hvalue : first.get? name with
    | none => rfl
    | some value =>
      have hsame : value.substitute (second.without names) = value.substitute second := by
        apply TypeExpr.substitute_congr
        intro other hother
        rw [get?_without, if_neg fun hmem ↦ h name value hvalue other hmem hother]
      rw [Option.map_some, Option.map_some, hsame]

namespace MethodType

/-- The parameters of a method hide those that are replaced. -/
theorem substitute_eq_mapParts (bound : Substitution) (method : MethodType) :
    method.substitute bound =
      method.mapParts (TypeExpr.substitute (bound.without method.typeParams)) :=
  map_eq_mapParts _ method

/-- Replaces the type variables that the method does not bind itself, along the shortest way:
without any replacement the method type stays as it is, and the replacements are filtered only if
the method binds one of the variables. -/
def substituteShortest (bound : Substitution) (method : MethodType) : MethodType :=
  if bound.isEmpty then method
  else if method.typeParams.any bound.contains then
    method.map (bound.without method.typeParams).apply
  else method.map bound.apply

/-- All ways lead to the same method type. -/
theorem substitute_eq_substituteShortest (bound : Substitution) (method : MethodType) :
    method.substitute bound = method.substituteShortest bound := by
  unfold substituteShortest
  split
  next hempty =>
    obtain rfl : bound = .empty := congrArg OrderedMap.mk (List.isEmpty_iff.1 hempty)
    calc method.substitute .empty
      _ = method.mapParts (TypeExpr.substitute .empty) := substitute_eq_mapParts _ method
      _ = method.mapParts fun type ↦ type :=
        mapParts_congr fun type _ ↦ type.substitute_empty
      _ = method := method.mapParts_id
  next =>
    split
    next => rfl
    next hnone =>
      rw [substitute_eq_mapParts, map_eq_mapParts]
      apply mapParts_congr
      intro type _
      apply TypeExpr.substitute_congr
      intro name _
      rw [Substitution.get?_without]
      split
      next hparam =>
        -- A type parameter has no replacement here, so nothing is left out.
        have habsent : ¬(bound.get? name).isSome = true := fun hcontains ↦
          hnone (List.any_eq_true.2 ⟨name, hparam, hcontains⟩)
        exact (Option.not_isSome_iff_eq_none.1 habsent).symm
      next => rfl

/-- Replacing type variables twice in a method type is replacing them once, if the method binds no
variable of what the first replacements bring in. This holds along all ways to replace them. -/
theorem substitute_substitute_eq_andThen (method : MethodType) (first second : Substitution)
    (h : ∀ name value, first.get? name = some value →
      ∀ param ∈ method.typeParams, ¬value.HasVariable param) :
    (method.substitute first).substitute second = method.substitute (first.andThen second) ∧
      ∀ bound, method.substitute bound = method.substituteShortest bound := by
  refine ⟨?_, fun bound ↦ method.substitute_eq_substituteShortest bound⟩
  let inner := first.without method.typeParams
  let outer := second.without method.typeParams
  calc (method.substitute first).substitute second
    _ = (method.mapParts (TypeExpr.substitute inner)).mapParts (TypeExpr.substitute outer) := by
      rw [substitute_eq_mapParts second, typeParams_substitute, substitute_eq_mapParts first]
    _ = method.mapParts fun type ↦ (type.substitute inner).substitute outer :=
      mapParts_mapParts _ _ method
    _ = method.mapParts
        (TypeExpr.substitute ((first.andThen second).without method.typeParams)) := by
      apply mapParts_congr
      intro type _
      rw [TypeExpr.substitute_andThen]
      exact TypeExpr.substitute_congr fun name _ ↦ Substitution.get?_without_andThen h name
    _ = method.substitute (first.andThen second) := (substitute_eq_mapParts _ method).symm

/-- A method with a type parameter of its own, which both replacements have a type for, and a
variable that is replaced by a type with a variable of the second. -/
theorem substitute_substitute_eq_andThen_of_shadowing :
    ∃ method : MethodType, ∃ first second : Substitution,
      method.text = "[U] (Elem) \x7b (U) -> Key \x7d -> Array[U]" ∧
      first = .ofParams ["Elem", "U"] [.instance_ ⟨[], "Array", false⟩ [.variable_ "T"], .any] ∧
      second = .ofParams ["T", "U", "Key"]
        [.base .bool, .base .void, .instance_ ⟨[], "String", false⟩ []] ∧
      (method.substitute first).text = "[U] (Array[T]) \x7b (U) -> Key \x7d -> Array[U]" ∧
      ((method.substitute first).substitute second).text =
        "[U] (Array[bool]) \x7b (U) -> String \x7d -> Array[U]" ∧
      (method.substitute first).substitute second = method.substitute (first.andThen second) := by
  let array (item : TypeExpr) : TypeExpr := .instance_ ⟨[], "Array", false⟩ [item]
  let method : MethodType := ⟨["U"], .single ⟨.variable_ "Elem", none⟩,
    some ⟨.single ⟨.variable_ "U", none⟩, .variable_ "Key", true⟩, array (.variable_ "U")⟩
  let first : Substitution := .ofParams ["Elem", "U"] [array (.variable_ "T"), .any]
  let second : Substitution := .ofParams ["T", "U", "Key"]
    [.base .bool, .base .void, .instance_ ⟨[], "String", false⟩ []]
  have htexts : method.text = "[U] (Elem) \x7b (U) -> Key \x7d -> Array[U]" ∧
      (method.substitute first).text = "[U] (Array[T]) \x7b (U) -> Key \x7d -> Array[U]" ∧
      ((method.substitute first).substitute second).text =
        "[U] (Array[bool]) \x7b (U) -> String \x7d -> Array[U]" := by
    decide +kernel
  have hfree : ∀ name value, first.get? name = some value →
      ∀ param ∈ method.typeParams, ¬value.HasVariable param := by
    intro name value hvalue param hparam
    obtain rfl := List.mem_singleton.1 hparam
    obtain rfl | rfl : value = array (.variable_ "T") ∨ value = .any := by
      simp only [first, Substitution.ofParams, Substitution.get?_bindAll, argument?,
        OrderedMap.get?_empty, Option.or_none, Option.none_or] at hvalue
      grind
    · simp [array, TypeExpr.hasVariable_iff, TypeExpr.components]
    · simp [TypeExpr.hasVariable_iff, TypeExpr.components]
  exact ⟨method, first, second, htexts.1, rfl, rfl, htexts.2.1, htexts.2.2,
    (substitute_substitute_eq_andThen method first second hfree).1⟩

end MethodType

end DeclaredMethods.Signature
