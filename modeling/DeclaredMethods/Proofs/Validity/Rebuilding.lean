import DeclaredMethods.Proofs.RoundTrip.Canonical
import DeclaredMethods.Signature.Substitution

/-!
# What rebuilding a type keeps

Rebuilding a type applies a function to what is made of the rebuilt parts of the type. One step of
this, `mapParts`, changes the parts and nothing else: roles, names and keys of parameters and fields
stay. So a condition on every type inside a type is kept if one step keeps it.
-/

namespace DeclaredMethods.Signature

def Param.mapPart (g : TypeExpr → TypeExpr) (param : Param) : Param :=
  ⟨g param.type, param.name⟩

def Params.mapParts (g : TypeExpr → TypeExpr) (params : Params) : Params :=
  ⟨params.required.map (Param.mapPart g), params.optional.map (Param.mapPart g),
    params.rest.map (Param.mapPart g), params.trailing.map (Param.mapPart g),
    params.requiredKeywords.map fun entry ↦ (entry.1, entry.2.mapPart g),
    params.optionalKeywords.map fun entry ↦ (entry.1, entry.2.mapPart g),
    params.restKeywords.map (Param.mapPart g)⟩

def BlockType.mapParts (g : TypeExpr → TypeExpr) (block : BlockType) : BlockType :=
  ⟨block.params.mapParts g, g block.returnType, block.required⟩

def MethodType.mapParts (g : TypeExpr → TypeExpr) (method : MethodType) : MethodType :=
  ⟨method.typeParams, method.params.mapParts g, method.block.map (BlockType.mapParts g),
    g method.returnType⟩

def TypeExpr.mapParts (g : TypeExpr → TypeExpr) : TypeExpr → TypeExpr
  | .instance_ name args => .instance_ name (args.map g)
  | .interface name args => .interface name (args.map g)
  | .alias_ name args => .alias_ name (args.map g)
  | .optional inner => .optional (g inner)
  | .union members => .union (members.map g)
  | .intersection members => .intersection (members.map g)
  | .tuple items => .tuple (items.map g)
  | .record fields => .record (fields.map fun field ↦ (field.1, g field.2))
  | .proc method => .proc (method.mapParts g)
  | type => type

section Steps

variable (f : TypeExpr → TypeExpr)

theorem TypeExpr.mapAll_eq_map (types : List TypeExpr) :
    TypeExpr.mapAll f types = types.map (TypeExpr.map f) := by
  induction types with
  | nil => rw [TypeExpr.mapAll, List.map_nil]
  | cons type types ih => rw [TypeExpr.mapAll, ih, List.map_cons]

theorem TypeExpr.mapFields_eq_map (fields : List (String × TypeExpr)) :
    TypeExpr.mapFields f fields = fields.map fun field ↦ (field.1, field.2.map f) := by
  induction fields with
  | nil => rw [TypeExpr.mapFields, List.map_nil]
  | cons field fields ih => rw [TypeExpr.mapFields, TypeExpr.mapField, ih, List.map_cons]

theorem Param.map_eq_mapPart (param : Param) : param.map f = param.mapPart (TypeExpr.map f) := by
  cases param
  rw [Param.map, Param.mapPart]

theorem Param.mapAll_eq_map (params : List Param) :
    Param.mapAll f params = params.map (Param.mapPart (TypeExpr.map f)) := by
  induction params with
  | nil => rw [Param.mapAll, List.map_nil]
  | cons param params ih => rw [Param.mapAll, ih, List.map_cons, Param.map_eq_mapPart]

theorem Param.map?_eq_map (param : Option Param) :
    Param.map? f param = param.map (Param.mapPart (TypeExpr.map f)) := by
  cases param with
  | none => rw [Param.map?, Option.map_none]
  | some param => rw [Param.map?, Option.map_some, Param.map_eq_mapPart]

theorem Param.mapKeywords_eq_map (entries : List (String × Param)) :
    Param.mapKeywords f entries =
      entries.map fun entry ↦ (entry.1, entry.2.mapPart (TypeExpr.map f)) := by
  induction entries with
  | nil => rw [Param.mapKeywords, List.map_nil]
  | cons entry entries ih =>
    rw [Param.mapKeywords, Param.mapKeyword, ih, List.map_cons, Param.map_eq_mapPart]

/-- The recursive map is the map over direct parts that calls itself on them. -/
theorem Params.map_eq_mapParts (params : Params) :
    params.map f = params.mapParts (TypeExpr.map f) := by
  cases params
  rw [Params.map, Param.mapAll_eq_map, Param.mapAll_eq_map, Param.map?_eq_map, Param.mapAll_eq_map,
    Param.mapKeywords_eq_map, Param.mapKeywords_eq_map, Param.map?_eq_map]
  rfl

theorem BlockType.map?_eq_map (block : Option BlockType) :
    BlockType.map? f block = block.map (BlockType.mapParts (TypeExpr.map f)) := by
  cases block with
  | none => rw [BlockType.map?, Option.map_none]
  | some block =>
    cases block
    rw [BlockType.map?, Option.map_some, BlockType.map, Params.map_eq_mapParts, BlockType.mapParts]

theorem MethodType.map_eq_mapParts (method : MethodType) :
    method.map f = method.mapParts (TypeExpr.map f) := by
  cases method
  rw [MethodType.map, Params.map_eq_mapParts, BlockType.map?_eq_map, MethodType.mapParts]

/-- A type is rebuilt by rebuilding its parts and applying the function to the result. -/
theorem TypeExpr.map_eq (type : TypeExpr) :
    type.map f = f (type.mapParts (TypeExpr.map f)) := by
  cases type with
  | instance_ | interface | alias_ | union | intersection | tuple =>
    rw [TypeExpr.map, TypeExpr.mapAll_eq_map, TypeExpr.mapParts]
  | record fields => rw [TypeExpr.map, TypeExpr.mapFields_eq_map, TypeExpr.mapParts]
  | proc method => rw [TypeExpr.map, MethodType.map_eq_mapParts, TypeExpr.mapParts]
  | _ =>
    rw [TypeExpr.map]
    rfl

end Steps

section Parts

variable (g : TypeExpr → TypeExpr)

/-- Roles and names of parameters stay as they are. -/
theorem Params.entries_mapParts (params : Params) :
    (params.mapParts g).entries =
      params.entries.map fun entry ↦ (entry.1, entry.2.mapPart g) := by
  simp only [Params.entries, Params.mapParts, List.map_append, List.map_map, Option.toList_map,
    Function.comp_def]

theorem Params.types_mapParts (params : Params) :
    (params.mapParts g).types = params.types.map g := by
  rw [Params.types, Params.entries_mapParts, List.map_map, Params.types, List.map_map]
  rfl

theorem Params.fits_mapParts (params : Params) : (params.mapParts g).fits = params.fits := by
  rw [Params.fits, Params.entries_mapParts, List.all_map, Params.fits]
  simp only [Params.mapParts, List.isEmpty_map, Option.isSome_map]
  rfl

theorem MethodType.types_mapParts (method : MethodType) :
    (method.mapParts g).types = method.types.map g := by
  obtain ⟨typeParams, params, block, returnType⟩ := method
  cases block with
  | none => simp [MethodType.types, MethodType.mapParts, Params.types_mapParts]
  | some block =>
    simp [MethodType.types, MethodType.mapParts, BlockType.mapParts, Params.types_mapParts]

theorem MethodType.paramsFit_mapParts (method : MethodType) :
    (method.mapParts g).paramsFit = method.paramsFit := by
  obtain ⟨typeParams, params, block, returnType⟩ := method
  rw [MethodType.paramsFit, MethodType.paramsFit, MethodType.mapParts, Params.fits_mapParts]
  cases block with
  | none => rfl
  | some block => exact congrArg (params.fits && ·) (block.params.fits_mapParts g)

theorem TypeExpr.components_mapParts (type : TypeExpr) :
    (type.mapParts g).components = type.components.map g := by
  cases type with
  | record fields => simp [TypeExpr.mapParts, TypeExpr.components]
  | proc method => exact method.types_mapParts g
  | _ => rfl

/-- Two steps are one. -/
theorem Params.mapParts_mapParts (h : TypeExpr → TypeExpr) (params : Params) :
    (params.mapParts g).mapParts h = params.mapParts (h ∘ g) := by
  simp only [Params.mapParts, List.map_map, Option.map_map]
  rfl

theorem MethodType.mapParts_mapParts (h : TypeExpr → TypeExpr) (method : MethodType) :
    (method.mapParts g).mapParts h = method.mapParts (h ∘ g) := by
  have hblock : BlockType.mapParts h ∘ BlockType.mapParts g = BlockType.mapParts (h ∘ g) := by
    funext block
    simp only [Function.comp_apply, BlockType.mapParts, Params.mapParts_mapParts]
  simp only [MethodType.mapParts, Params.mapParts_mapParts, Option.map_map, hblock,
    Function.comp_apply]

/-- Two changes of the parts are one. -/
theorem TypeExpr.mapParts_mapParts (h : TypeExpr → TypeExpr) (type : TypeExpr) :
    (type.mapParts g).mapParts h = type.mapParts (h ∘ g) := by
  cases type with
  | proc method => exact congrArg TypeExpr.proc (method.mapParts_mapParts g h)
  | _ => simp only [TypeExpr.mapParts, List.map_map, Function.comp_def]

end Parts

/-- A type meets a condition, and so do all types inside it. -/
inductive TypeExpr.Every (P : TypeExpr → Prop) : TypeExpr → Prop
  | intro {type : TypeExpr} (here : P type) (parts : ∀ part ∈ type.components, Every P part) :
      Every P type

namespace TypeExpr.Every

variable {P Q : TypeExpr → Prop} {type : TypeExpr}

theorem here (h : type.Every P) : P type := by
  cases h with
  | intro here _ => exact here

theorem parts (h : type.Every P) : ∀ part ∈ type.components, part.Every P := by
  cases h with
  | intro _ parts => exact parts

theorem mono (h : type.Every P) (hPQ : ∀ type, P type → Q type) : type.Every Q := by
  induction h with
  | intro here _ ih => exact .intro (hPQ _ here) ih

/-- A condition on every type inside a type comes out of rebuilding if it comes out of every
step. -/
theorem map {f : TypeExpr → TypeExpr} (h : type.Every P)
    (hstep : ∀ type : TypeExpr, P type →
      (∀ part ∈ type.components, (part.map f).Every Q) →
        (f (type.mapParts (TypeExpr.map f))).Every Q) :
    (type.map f).Every Q := by
  induction h with
  | intro here _ ih =>
    rw [TypeExpr.map_eq]
    exact hstep _ here ih

end TypeExpr.Every

end DeclaredMethods.Signature
