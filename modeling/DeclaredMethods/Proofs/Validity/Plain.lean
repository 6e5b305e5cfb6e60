import DeclaredMethods.Proofs.Lookup.Precedence
import DeclaredMethods.Proofs.Validity.Rebuilding

/-!
# Plain types

A type is plain if everything in it that is written as a word is one, and its literals can be
written. What this asks of a type does not depend on its parts, so a plain type stays plain when
other plain types are put in for its variables, and when its names are replaced.
-/

namespace DeclaredMethods.Signature

/-- Whether what a type has besides its parts can be written. -/
def TypeExpr.isPlain : TypeExpr → Bool
  | .any | .base _ | .tuple _ | .optional _ => true
  | .instance_ name _ | .interface name _ | .alias_ name _ | .singleton name => name.hasWords
  | .union members | .intersection members => 2 ≤ members.length
  | .record fields => fields.all fun field ↦ isWord field.1.toList
  | .literal value => value.fits
  | .variable_ name => isWord name.toList
  | .proc method => method.typeParams.isEmpty && method.paramsFit

def TypeExpr.Plain (type : TypeExpr) : Prop :=
  type.Every fun part ↦ part.isPlain = true

structure MethodType.Plain (method : MethodType) : Prop where
  typeParams : ∀ name ∈ method.typeParams, isWord name.toList = true
  params : method.paramsFit = true
  types : ∀ type ∈ method.types, type.Plain

namespace TypeExpr

/-- Whether a type is plain depends on its own name and literal, not on its parts. -/
theorem isPlain_mapParts (g : TypeExpr → TypeExpr) (type : TypeExpr) :
    (type.mapParts g).isPlain = type.isPlain := by
  cases type with
  | union members | intersection members =>
    rw [mapParts, isPlain, isPlain, List.length_map]
  | record fields =>
    rw [mapParts, isPlain, isPlain, List.all_map]
    rfl
  | proc method =>
    rw [mapParts, isPlain, isPlain, MethodType.paramsFit_mapParts]
    rfl
  | _ => rfl

/-- A plain type is rebuilt to a plain type if plain types are taken to plain types. -/
theorem Plain.map {f : TypeExpr → TypeExpr} (hf : ∀ type : TypeExpr, type.Plain → (f type).Plain)
    {type : TypeExpr} (h : type.Plain) : (type.map f).Plain := by
  refine Every.map h fun type hplain hparts ↦ hf _ (.intro ?_ ?_)
  · rw [isPlain_mapParts, hplain]
  · rw [components_mapParts]
    exact List.forall_mem_map.2 hparts

end TypeExpr

/-- Everything about a method but its types stays. -/
theorem MethodType.Plain.map {f : TypeExpr → TypeExpr}
    (hf : ∀ type : TypeExpr, type.Plain → (f type).Plain) {method : MethodType}
    (h : method.Plain) : (method.map f).Plain := by
  rw [MethodType.map_eq_mapParts]
  refine ⟨h.typeParams, ?_, ?_⟩
  · rw [MethodType.paramsFit_mapParts, h.params]
  · rw [MethodType.types_mapParts]
    exact List.forall_mem_map.2 fun type htype ↦ (h.types type htype).map hf

theorem TypeExpr.Plain.rename {f : TypeName → TypeName}
    (hf : ∀ name : TypeName, name.hasWords = true → (f name).hasWords = true) {type : TypeExpr}
    (h : type.Plain) : (type.rename f).Plain := by
  cases type with
  | instance_ name | interface name | alias_ name | singleton name =>
    exact .intro (hf name h.here) h.parts
  | _ => exact h

theorem TypeExpr.Plain.mapNames {f : TypeName → TypeName}
    (hf : ∀ name : TypeName, name.hasWords = true → (f name).hasWords = true) {type : TypeExpr}
    (h : type.Plain) : (type.mapNames f).Plain :=
  h.map fun _ ↦ TypeExpr.Plain.rename hf

theorem MethodType.Plain.mapNames {f : TypeName → TypeName}
    (hf : ∀ name : TypeName, name.hasWords = true → (f name).hasWords = true)
    {method : MethodType} (h : method.Plain) : (method.mapNames f).Plain :=
  h.map fun _ ↦ TypeExpr.Plain.rename hf

theorem TypeExpr.plain_any : TypeExpr.any.Plain :=
  .intro rfl (fun _ hpart ↦ absurd hpart List.not_mem_nil)

/-- What a type parameter stands for is an argument, or nothing is known about it. -/
theorem argument?_plain {params : List String} {args : List TypeExpr} {name : String}
    {value : TypeExpr} (hargs : ∀ arg ∈ args, arg.Plain)
    (h : argument? params args name = some value) : value.Plain := by
  induction params generalizing args with
  | nil => cases h
  | cons param params ih =>
    rw [argument?] at h
    rcases Option.or_eq_some_iff.1 h with hrest | ⟨-, hfirst⟩
    · exact ih (fun arg harg ↦ hargs arg (List.mem_of_mem_tail harg)) hrest
    · obtain ⟨-, hvalue⟩ := Option.ite_none_right_eq_some.1 hfirst
      cases args with
      | nil =>
        obtain rfl := Option.some.inj hvalue
        exact TypeExpr.plain_any
      | cons arg args =>
        obtain rfl := Option.some.inj hvalue
        exact hargs arg List.mem_cons_self

/-- Putting plain arguments into a plain method type gives a plain one. -/
theorem MethodType.Plain.substitute {params : List String} {args : List TypeExpr}
    (hargs : ∀ arg ∈ args, arg.Plain) {method : MethodType} (h : method.Plain) :
    (method.substitute (.ofParams params args)).Plain := by
  rw [MethodType.substitute_ofParams]
  refine h.map fun type htype ↦ ?_
  cases type with
  | variable_ name =>
    dsimp only
    split
    · exact htype
    · cases hvalue : argument? params args name with
      | none => exact htype
      | some value => exact argument?_plain hargs hvalue
  | _ => exact htype

end DeclaredMethods.Signature
