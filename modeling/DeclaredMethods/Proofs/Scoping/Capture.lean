import DeclaredMethods.Proofs.Scoping.Closure

/-!
# Replacing free type variables

Replacing the type variables of a method type leaves alone those that the method binds itself. The
free variables of the result should be the ones without a replacement and those of the replacements.
So they are, except that a variable of a replacement that bears the name of a type parameter of the
method is bound by it in the result. Nothing renames the type parameter, so replacing is right
exactly if no replacement of a free variable has such a variable.
-/

namespace DeclaredMethods.Signature

namespace MethodType

/-- A type variable occurs in a method type, which does not bind it. -/
def IsFree (name : String) (method : MethodType) : Prop :=
  method.HasVariable name ∧ name ∉ method.typeParams

/-- A type variable occurs in what a free variable of a method type is replaced by. -/
def ComesIn (bound : Substitution) (name : String) (method : MethodType) : Prop :=
  ∃ other value, method.IsFree other ∧ bound.get? other = some value ∧ value.HasVariable name

/-- A type variable that is to be free in a method type after replacing: it is free in it and not
replaced, or comes in. -/
def ToBeFree (bound : Substitution) (name : String) (method : MethodType) : Prop :=
  method.IsFree name ∧ bound.get? name = none ∨ method.ComesIn bound name

/-- A type parameter of a method type takes in a variable of a replacement. -/
def Captures (bound : Substitution) (name : String) (method : MethodType) : Prop :=
  name ∈ method.typeParams ∧ method.ComesIn bound name

end MethodType

/-- Replacing variables leaves alone what is not one. -/
theorem Substitution.keepsVariables_apply (bound : Substitution) :
    TypeExpr.KeepsVariables bound.apply := by
  intro type hvariable name
  cases type with
  | variable_ other => exact absurd rfl (hvariable other)
  | _ => exact Iff.rfl

namespace MethodType

variable {bound : Substitution} {method : MethodType} {name : String}

/-- The parameters of a method are not replaced. -/
theorem typeParams_substitute (bound : Substitution) (method : MethodType) :
    (method.substitute bound).typeParams = method.typeParams :=
  typeParams_map _ method

/-- A variable that the method does not bind occurs after replacing if it is to be free. -/
theorem hasVariable_substitute_iff (hname : name ∉ method.typeParams) :
    (method.substitute bound).HasVariable name ↔ method.ToBeFree bound name := by
  rw [substitute, hasVariable_map (Substitution.keepsVariables_apply _)]
  simp only [Substitution.apply, Substitution.get?_without]
  constructor
  · rintro ⟨other, hother, hbecomes⟩
    by_cases hparam : other ∈ method.typeParams
    · -- A type parameter is not replaced, so it would be the variable itself.
      rw [if_pos hparam, Option.getD_none, TypeExpr.hasVariable_variable] at hbecomes
      exact absurd (hbecomes ▸ hparam) hname
    · rw [if_neg hparam] at hbecomes
      cases hvalue : bound.get? other with
      | none =>
        rw [hvalue, Option.getD_none, TypeExpr.hasVariable_variable] at hbecomes
        subst hbecomes
        exact .inl ⟨⟨hother, hparam⟩, hvalue⟩
      | some value =>
        rw [hvalue, Option.getD_some] at hbecomes
        exact .inr ⟨other, value, ⟨hother, hparam⟩, hvalue, hbecomes⟩
  · rintro (⟨⟨hoccurs, hfree⟩, hnone⟩ | ⟨other, value, ⟨hother, hfree⟩, hvalue, hoccurs⟩)
    · refine ⟨name, hoccurs, ?_⟩
      rw [if_neg hfree, hnone, Option.getD_none, TypeExpr.hasVariable_variable]
    · refine ⟨other, hother, ?_⟩
      rwa [if_neg hfree, hvalue, Option.getD_some]

/-- The variables that are to be free are free after replacing, unless they are captured. -/
theorem isFree_substitute_iff :
    (method.substitute bound).IsFree name ↔
      method.ToBeFree bound name ∧ ¬method.Captures bound name := by
  rw [IsFree, typeParams_substitute]
  by_cases hname : name ∈ method.typeParams
  · refine iff_of_false (fun h ↦ h.2 hname) ?_
    rintro ⟨hfree | hcomes, hcaptures⟩
    · exact hfree.1.2 hname
    · exact hcaptures ⟨hname, hcomes⟩
  · rw [hasVariable_substitute_iff hname]
    exact and_congr_right fun _ ↦ iff_of_true hname fun hcaptures ↦ hname hcaptures.1

/-- Replacing type variables makes exactly those free that are to be free and are not captured. So
it is right for a method type exactly if the method captures nothing. -/
theorem substitute_right_iff_captures_nothing (bound : Substitution) (method : MethodType) :
    (∀ name, (method.substitute bound).IsFree name ↔
      method.ToBeFree bound name ∧ ¬method.Captures bound name) ∧
    ((∀ name, (method.substitute bound).IsFree name ↔ method.ToBeFree bound name) ↔
      ∀ name, ¬method.Captures bound name) := by
  refine ⟨fun name ↦ isFree_substitute_iff, fun hright name hcaptures ↦ ?_, fun hnone name ↦ ?_⟩
  · have hfree := (hright name).2 (.inr hcaptures.2)
    exact (isFree_substitute_iff.1 hfree).2 hcaptures
  · rw [isFree_substitute_iff]
    exact and_iff_left (hnone name)

end MethodType

/-- A class passes its type parameter `U` to a module with a method that has a type parameter of
the same name. The block of the method takes what the class holds; after replacing, it takes what
the block itself returns. -/
theorem substitute_captures_argument_of_inclusion :
    ∃ source env definition method bound,
      source = "module Each[Elem] def map: [U] () \x7b (Elem) -> U \x7d -> Array[U] end " ++
        "class Box[U] include Each[U] end" ∧
      Environment.empty.load source = .ok env ∧
      env.definition ⟨[], "Box", false⟩ = .ok definition ∧ definition.typeParams = ["U"] ∧
      definition.methodTexts = [("map", ["[U] () \x7b (U) -> U \x7d -> Array[U]"])] ∧
      bound = .ofParams ["Elem"] [.variable_ "U"] ∧
      MethodType.text method = "[U] () \x7b (Elem) -> U \x7d -> Array[U]" ∧
      (method.substitute bound).text = "[U] () \x7b (U) -> U \x7d -> Array[U]" ∧
      ¬∀ name, (method.substitute bound).IsFree name ↔ method.ToBeFree bound name := by
  let source : String :=
    "module Each[Elem] def map: [U] () \x7b (Elem) -> U \x7d -> Array[U] end " ++
      "class Box[U] include Each[U] end"
  let name : TypeName := ⟨[], "Box", false⟩
  let method : MethodType := ⟨["U"], .none,
    some ⟨.single ⟨.variable_ "Elem", none⟩, .variable_ "U", true⟩,
    .instance_ ⟨[], "Array", false⟩ [.variable_ "U"]⟩
  let bound : Substitution := .ofParams ["Elem"] [.variable_ "U"]
  have hrun : (Environment.empty.load source).toOption.map (fun env ↦
      (env.definition name).toOption.map fun definition ↦
        (definition.typeParams, definition.methodTexts)) =
      some (some (["U"], [("map", ["[U] () \x7b (U) -> U \x7d -> Array[U]"])])) := by
    decide +kernel
  have htexts : method.text = "[U] () \x7b (Elem) -> U \x7d -> Array[U]" ∧
      (method.substitute bound).text = "[U] () \x7b (U) -> U \x7d -> Array[U]" := by
    decide +kernel
  have hfree : method.IsFree "Elem" :=
    ⟨MethodType.hasVariable_of_mem (by decide), by decide⟩
  have hcaptures : method.Captures bound "U" :=
    ⟨List.mem_cons_self, "Elem", .variable_ "U", hfree, rfl, .here⟩
  obtain ⟨env, hload, hfound⟩ := exists_ok_of_map_toOption hrun
  obtain ⟨definition, hdefinition, hfound⟩ := exists_ok_of_map_toOption hfound
  obtain ⟨htypeParams, hmethods⟩ := Prod.mk.inj hfound
  refine ⟨source, env, definition, method, bound, rfl, hload, hdefinition, htypeParams,
    hmethods, rfl, htexts.1, htexts.2, fun hright ↦ ?_⟩
  have hfree := (hright "U").2 (.inr hcaptures.2)
  exact hfree.2 hcaptures.1

end DeclaredMethods.Signature
