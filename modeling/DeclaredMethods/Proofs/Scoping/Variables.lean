import DeclaredMethods.Proofs.Lookup.Precedence
import DeclaredMethods.Proofs.Spelling.Types

/-!
# The type variables of a type

A type has the variables that occur anywhere inside it. Rebuilding a type with a function that
changes the variables of nothing but variables gives the variables of what the function makes of
each of them. Renaming changes no variables, and replacing the type parameters of a class by
arguments leaves the variables that are no parameters and brings in those of the arguments.
-/

namespace DeclaredMethods.Signature

section Size

theorem Param.sizeOf_type_lt (param : Param) : sizeOf param.type < sizeOf param := by
  cases param
  simp only [Param.mk.sizeOf_spec]
  omega

theorem Param.sizeOf_lt_of_mem_toList {param : Param} {found : Option Param}
    (h : param ∈ found.toList) : sizeOf param.type < sizeOf found := by
  obtain rfl := Option.mem_toList.1 h
  have htype := param.sizeOf_type_lt
  rw [Option.some.sizeOf_spec]
  omega

theorem Param.sizeOf_lt_of_mem {param : Param} {params : List Param} (h : param ∈ params) :
    sizeOf param.type < sizeOf params :=
  Nat.lt_trans param.sizeOf_type_lt (List.sizeOf_lt_of_mem h)

theorem Param.sizeOf_lt_of_mem_keywords {entry : String × Param} {entries : List (String × Param)}
    (h : entry ∈ entries) : sizeOf entry.2.type < sizeOf entries := by
  obtain ⟨key, param⟩ := entry
  have htype := param.sizeOf_type_lt
  have hentry := List.sizeOf_lt_of_mem h
  rw [Prod.mk.sizeOf_spec] at hentry
  dsimp only
  omega

theorem Params.sizeOf_lt_of_mem_types (params : Params) :
    ∀ type ∈ params.types, sizeOf type < sizeOf params := by
  refine List.forall_mem_map.2 ?_
  rw [Params.forall_mem_entries]
  obtain ⟨required, optional, rest, trailing, requiredKeywords, optionalKeywords, restKeywords⟩ :=
    params
  simp only [Params.mk.sizeOf_spec]
  refine ⟨?_, ?_, ?_, ?_, ?_, ?_, ?_⟩ <;> intro entry hentry
  · have hlt := Param.sizeOf_lt_of_mem hentry
    omega
  · have hlt := Param.sizeOf_lt_of_mem hentry
    omega
  · have hlt := Param.sizeOf_lt_of_mem_toList hentry
    omega
  · have hlt := Param.sizeOf_lt_of_mem hentry
    omega
  · have hlt := Param.sizeOf_lt_of_mem_keywords hentry
    omega
  · have hlt := Param.sizeOf_lt_of_mem_keywords hentry
    omega
  · have hlt := Param.sizeOf_lt_of_mem_toList hentry
    omega

theorem MethodType.sizeOf_lt_of_mem_types (method : MethodType) :
    ∀ type ∈ method.types, sizeOf type < sizeOf method := by
  obtain ⟨typeParams, params, block, returnType⟩ := method
  simp only [MethodType.mk.sizeOf_spec]
  refine MethodType.forall_mem_types (fun type htype ↦ ?_) ?_ ?_
  · have hlt := params.sizeOf_lt_of_mem_types type htype
    omega
  · rintro inner rfl
    obtain ⟨params, returnType, required⟩ := inner
    simp only [Option.some.sizeOf_spec, BlockType.mk.sizeOf_spec]
    refine ⟨fun type htype ↦ ?_, by omega⟩
    have hlt := params.sizeOf_lt_of_mem_types type htype
    omega
  · dsimp only
    omega

/-- Components are smaller, which is what recursion through them needs. -/
theorem TypeExpr.sizeOf_lt_of_mem_components {type : TypeExpr} :
    ∀ part ∈ type.components, sizeOf part < sizeOf type := by
  intro part hpart
  cases type with
  | instance_ name types | interface name types | alias_ name types | union types
  | intersection types | tuple types =>
    have hlt : sizeOf part < sizeOf types := List.sizeOf_lt_of_mem hpart
    simp only [TypeExpr.instance_.sizeOf_spec, TypeExpr.interface.sizeOf_spec,
      TypeExpr.alias_.sizeOf_spec, TypeExpr.union.sizeOf_spec, TypeExpr.intersection.sizeOf_spec,
      TypeExpr.tuple.sizeOf_spec]
    omega
  | optional inner =>
    obtain rfl := List.mem_singleton.1 hpart
    rw [TypeExpr.optional.sizeOf_spec]
    omega
  | record fields =>
    obtain ⟨⟨key, type⟩, hfield, rfl⟩ := List.mem_map.1 hpart
    have hlt := List.sizeOf_lt_of_mem hfield
    rw [Prod.mk.sizeOf_spec] at hlt
    rw [TypeExpr.record.sizeOf_spec]
    dsimp only
    omega
  | proc method =>
    have hlt := method.sizeOf_lt_of_mem_types part hpart
    rw [TypeExpr.proc.sizeOf_spec]
    omega
  | any | base | singleton | literal | variable_ => cases hpart

/-- What holds of a type as soon as it holds of its parts holds of every type. -/
theorem TypeExpr.components_induction {P : TypeExpr → Prop}
    (h : ∀ type : TypeExpr, (∀ part ∈ type.components, P part) → P type) (type : TypeExpr) :
    P type :=
  h type fun part hpart ↦
    have := sizeOf_lt_of_mem_components part hpart
    components_induction h part
termination_by sizeOf type

/-- By induction, with variables apart from all other types. -/
theorem TypeExpr.variable_induction {P : TypeExpr → Prop} (hvariable : ∀ name, P (.variable_ name))
    (hother : ∀ type : TypeExpr, (∀ name, type ≠ .variable_ name) →
      (∀ part ∈ type.components, P part) → P type) (type : TypeExpr) : P type := by
  induction type using components_induction with
  | h type ih =>
    by_cases h : ∃ name, type = .variable_ name
    · obtain ⟨name, rfl⟩ := h
      exact hvariable name
    · exact hother type (fun name hname ↦ h ⟨name, hname⟩) ih

end Size

inductive TypeExpr.HasVariable (name : String) : TypeExpr → Prop
  | here : HasVariable name (.variable_ name)
  | inside {type part : TypeExpr} (hpart : part ∈ type.components)
      (h : HasVariable name part) : HasVariable name type

def MethodType.HasVariable (name : String) (method : MethodType) : Prop :=
  ∃ type ∈ method.types, type.HasVariable name

namespace TypeExpr

variable {name other : String} {type : TypeExpr}

@[simp] theorem hasVariable_variable : (variable_ other).HasVariable name ↔ name = other := by
  constructor
  · intro h
    cases h with
    | here => rfl
    | inside hpart => cases hpart
  · rintro rfl
    exact .here

/-- The variables of a type that is none itself are those of its parts. -/
theorem hasVariable_iff (h : ∀ other, type ≠ .variable_ other) :
    type.HasVariable name ↔ ∃ part ∈ type.components, part.HasVariable name := by
  constructor
  · intro hname
    cases hname with
    | here => exact absurd rfl (h name)
    | inside hpart hname => exact ⟨_, hpart, hname⟩
  · rintro ⟨part, hpart, hname⟩
    exact .inside hpart hname

theorem mapParts_ne_variable (g : TypeExpr → TypeExpr) (h : ∀ other, type ≠ .variable_ other)
    (other : String) : type.mapParts g ≠ .variable_ other := by
  cases type with
  | variable_ name => exact absurd rfl (h name)
  | _ => exact TypeExpr.noConfusion

/-- A function on types that changes the variables of nothing but variables. -/
def KeepsVariables (f : TypeExpr → TypeExpr) : Prop :=
  ∀ type : TypeExpr, (∀ other, type ≠ .variable_ other) → ∀ name,
    (f type).HasVariable name ↔ type.HasVariable name

/-- The variables of a rebuilt type are those of what its variables become. -/
theorem hasVariable_map {f : TypeExpr → TypeExpr} (hf : KeepsVariables f) (type : TypeExpr)
    (name : String) :
    (type.map f).HasVariable name ↔
      ∃ other, type.HasVariable other ∧ (f (.variable_ other)).HasVariable name := by
  induction type using variable_induction with
  | hvariable other =>
    rw [map_eq]
    simp only [hasVariable_variable, exists_eq_left]
    rfl
  | hother type hvariable ih =>
    rw [map_eq]
    have hparts := mapParts_ne_variable (TypeExpr.map f) hvariable
    rw [hf _ hparts, hasVariable_iff hparts, components_mapParts]
    simp only [hasVariable_iff hvariable, List.mem_map, exists_exists_and_eq_and]
    constructor
    · rintro ⟨part, hpart, hname⟩
      obtain ⟨other, hother, hname⟩ := (ih part hpart).1 hname
      exact ⟨other, ⟨part, hpart, hother⟩, hname⟩
    · rintro ⟨other, ⟨part, hpart, hother⟩, hname⟩
      exact ⟨part, hpart, (ih part hpart).2 ⟨other, hother, hname⟩⟩

end TypeExpr

/-- The variables of a rebuilt method type are those of what its variables become. -/
theorem MethodType.hasVariable_map {f : TypeExpr → TypeExpr} (hf : TypeExpr.KeepsVariables f)
    (method : MethodType) (name : String) :
    (method.map f).HasVariable name ↔
      ∃ other, method.HasVariable other ∧ (f (.variable_ other)).HasVariable name := by
  rw [MethodType.map_eq_mapParts]
  simp only [HasVariable, MethodType.types_mapParts, List.mem_map, exists_exists_and_eq_and,
    TypeExpr.hasVariable_map hf]
  constructor
  · rintro ⟨type, htype, other, hother, hname⟩
    exact ⟨other, ⟨type, htype, hother⟩, hname⟩
  · rintro ⟨other, ⟨type, htype, hother⟩, hname⟩
    exact ⟨type, htype, other, hother, hname⟩

theorem TypeExpr.keepsVariables_rename (f : TypeName → TypeName) :
    KeepsVariables (TypeExpr.rename f) := by
  intro type hvariable name
  have hrenamed : ∀ other, type.rename f ≠ .variable_ other := by
    cases type with
    | variable_ other => exact absurd rfl (hvariable other)
    | _ => exact fun _ ↦ TypeExpr.noConfusion
  have hparts : (type.rename f).components = type.components := by
    cases type <;> rfl
  rw [hasVariable_iff hrenamed, hasVariable_iff hvariable, hparts]

/-- Changing names leaves the variables alone. -/
theorem TypeExpr.hasVariable_mapNames (f : TypeName → TypeName) (type : TypeExpr) (name : String) :
    (type.mapNames f).HasVariable name ↔ type.HasVariable name := by
  rw [mapNames, hasVariable_map (keepsVariables_rename f)]
  simp only [rename, hasVariable_variable, exists_eq_right']

theorem MethodType.hasVariable_mapNames (f : TypeName → TypeName) (method : MethodType)
    (name : String) : (method.mapNames f).HasVariable name ↔ method.HasVariable name := by
  rw [mapNames, hasVariable_map (TypeExpr.keepsVariables_rename f)]
  simp only [TypeExpr.rename, TypeExpr.hasVariable_variable, exists_eq_right']

/-- What a type parameter stands for has the variables of an argument. -/
theorem exists_of_argument?_hasVariable {params : List String} {args : List TypeExpr}
    {param name : String} {value : TypeExpr} (h : argument? params args param = some value)
    (hname : value.HasVariable name) : ∃ arg ∈ args, arg.HasVariable name := by
  induction params generalizing args with
  | nil => cases h
  | cons first params ih =>
    rw [argument?] at h
    rcases Option.or_eq_some_iff.1 h with hrest | ⟨-, hfirst⟩
    · obtain ⟨arg, harg, hname⟩ := ih hrest
      exact ⟨arg, List.mem_of_mem_tail harg, hname⟩
    · obtain ⟨-, hvalue⟩ := Option.ite_none_right_eq_some.1 hfirst
      cases args with
      | nil =>
        obtain rfl := Option.some.inj hvalue
        cases hname with
        | inside hpart => cases hpart
      | cons arg args =>
        obtain rfl := Option.some.inj hvalue
        exact ⟨_, List.mem_cons_self, hname⟩

/-- Only names that are no parameters stand for nothing. -/
theorem not_mem_of_argument?_eq_none {params : List String} {args : List TypeExpr} {name : String}
    (h : argument? params args name = none) : name ∉ params := by
  induction params generalizing args with
  | nil => exact List.not_mem_nil
  | cons first params ih =>
    rw [argument?, Option.or_eq_none_iff] at h
    intro hmem
    rcases List.mem_cons.1 hmem with rfl | hmem
    · rw [if_pos rfl] at h
      cases h.2
    · exact ih h.1 hmem

/-- Changing the types of a method leaves its parameters alone. -/
theorem MethodType.typeParams_map (f : TypeExpr → TypeExpr) (method : MethodType) :
    (method.map f).typeParams = method.typeParams := by
  rw [MethodType.map_eq_mapParts]
  rfl

/-- After replacing the type parameters of a class, the variables of a method type that the method
does not bind are free ones from before that are no parameters of the class, or come from an
argument. -/
theorem MethodType.hasVariable_substitute {params : List String} {args : List TypeExpr}
    {method : MethodType} {name : String}
    (h : (method.substitute (.ofParams params args)).HasVariable name) :
    name ∈ method.typeParams ∨ (method.HasVariable name ∧ name ∉ params) ∨
      ∃ arg ∈ args, arg.HasVariable name := by
  rw [substitute_ofParams, instantiate, hasVariable_map ?_] at h
  · obtain ⟨other, hother, hname⟩ := h
    dsimp only at hname
    split at hname
    next hbound =>
      obtain rfl := TypeExpr.hasVariable_variable.1 hname
      exact .inl hbound
    next =>
      cases hvalue : argument? params args other with
      | none =>
        rw [hvalue] at hname
        obtain rfl := TypeExpr.hasVariable_variable.1 hname
        exact .inr (.inl ⟨hother, not_mem_of_argument?_eq_none hvalue⟩)
      | some value =>
        rw [hvalue] at hname
        exact .inr (.inr (exists_of_argument?_hasVariable hvalue hname))
  · intro type hvariable name
    cases type with
    | variable_ other => exact absurd rfl (hvariable other)
    | _ => exact Iff.rfl

end DeclaredMethods.Signature
