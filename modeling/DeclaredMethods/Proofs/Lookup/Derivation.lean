import DeclaredMethods.Proofs.OrderedMap.Keys
import DeclaredMethods.Signature.Environment.Lookup
import Mathlib.Data.List.Forall2
import Mathlib.Data.List.Perm.Subperm
import Mathlib.Logic.Relation

/-!
# Derivations of definitions

A name derives a definition when its dependencies derive theirs and the definition is made from
these. A derivation is a finite tree, so a name that derives a definition does not depend on itself,
over any number of steps.

Derivations say what a lookup gives without saying how deep it goes or which names are being looked
up: a successful lookup has one, and a name that has one is found from every place that it does not
lead back to.
-/

namespace DeclaredMethods.Signature

/-- What is computed from a result shows that there is one. -/
theorem exists_ok_of_map_toOption {ε α β : Type} {result : Except ε α} {f : α → β} {value : β}
    (h : result.toOption.map f = some value) : ∃ found, result = .ok found ∧ f found = value := by
  cases result with
  | error error => cases h
  | ok found => exact ⟨found, rfl, Option.some.inj h⟩

section Step

variable (env : Environment) (lookup : TypeName → Lookup)

/-- Looking up all names succeeds with the definitions of the names in their order. -/
theorem lookupAll_eq_ok_iff (names : List TypeName) (definitions : List InstanceDefinition) :
    lookupAll (m := Id) lookup names = .ok definitions ↔
      List.Forall₂ (fun name definition ↦ lookup name = .ok definition) names definitions := by
  induction names generalizing definitions with
  | nil =>
    cases definitions with
    | nil => exact ⟨fun _ ↦ .nil, fun _ ↦ rfl⟩
    | cons => exact ⟨fun h ↦ (by cases h), fun h ↦ (by cases h)⟩
  | cons name names ih =>
    simp only [lookupAll, bind]
    cases hname : lookup name with
    | error error => simp [pure, List.forall₂_cons_left_iff, hname]
    | ok first =>
      cases hnames : lookupAll (m := Id) lookup names with
      | error error =>
        simp only [pure, reduceCtorEq, false_iff, List.forall₂_cons_left_iff]
        rintro ⟨_, rest, _, hrest, _⟩
        rw [(ih rest).2 hrest] at hnames
        cases hnames
      | ok rest =>
        have hrest := (ih rest).1 hnames
        constructor
        · intro h
          cases h
          exact .cons hname hrest
        · intro h
          cases h with
          | cons hfirst htail =>
            rw [hname] at hfirst
            rw [(ih _).2 htail] at hnames
            cases hfirst
            cases hnames
            rfl

/-- A definition is built from the definitions of the dependencies. -/
theorem buildWith_eq_ok_iff (name : TypeName) (definition : InstanceDefinition) :
    Id.run (buildWith env (fun other ↦ pure (lookup other)) name) = .ok definition ↔
      ∃ blueprint definitions,
        env.blueprint? name = some blueprint ∧
        lookupAll (m := Id) lookup blueprint.dependencies = .ok definitions ∧
        blueprint.make name definitions = .ok definition := by
  simp only [buildWith, Id.run, pure, bind]
  cases env.blueprint? name with
  | none => simp
  | some blueprint =>
    simp only [Option.some.injEq, exists_and_left, exists_eq_left']
    cases lookupAll (m := Id) lookup blueprint.dependencies with
    | error error => exact ⟨fun h ↦ (by cases h), fun ⟨_, h, _⟩ ↦ (by cases h)⟩
    | ok definitions =>
      constructor
      · exact fun h ↦ ⟨definitions, rfl, h⟩
      · rintro ⟨_, h, hmake⟩
        cases h
        exact hmake

end Step

namespace Environment

/-- Whether the definition of an absolute name is made of that of another one. -/
def DependsOn (env : Environment) (name other : TypeName) : Prop :=
  ∃ blueprint, env.blueprint? name = some blueprint ∧
    other ∈ blueprint.dependencies.map TypeName.rooted

/-- The names that have a blueprint are among these. -/
def declaredNames (env : Environment) : List TypeName :=
  env.classes.keys ++ env.interfaces.keys ++ env.aliases.keys ++ env.classAliases.keys

variable {env : Environment}

/-- Only declared names have a blueprint. -/
theorem mem_declaredNames {name : TypeName} {blueprint : Blueprint}
    (h : env.blueprint? name = some blueprint) : name ∈ env.declaredNames := by
  simp only [declaredNames, List.mem_append]
  unfold blueprint? at h
  cases hkind : name.kind with
  | class_ =>
    simp only [hkind] at h
    cases halias : env.classAliases.get? name with
    | some entry => exact .inr (OrderedMap.mem_keys_of_get? halias)
    | none =>
      simp only [halias, Option.map_eq_some_iff] at h
      obtain ⟨entry, hentry, _⟩ := h
      exact .inl (.inl (.inl (OrderedMap.mem_keys_of_get? hentry)))
  | interface =>
    simp only [hkind, Option.map_eq_some_iff] at h
    obtain ⟨entry, hentry, _⟩ := h
    exact .inl (.inl (.inr (OrderedMap.mem_keys_of_get? hentry)))
  | alias_ =>
    simp only [hkind, Option.map_eq_some_iff] at h
    obtain ⟨entry, hentry, _⟩ := h
    exact .inl (.inr (OrderedMap.mem_keys_of_get? hentry))

theorem length_declaredNames : env.declaredNames.length + 2 = env.lookupDepth := by
  simp only [declaredNames, lookupDepth, OrderedMap.keys, List.length_append, List.length_map]

/-- A name derives a definition that is made from definitions its dependencies derive. -/
inductive Derives (env : Environment) : TypeName → InstanceDefinition → Prop where
  | intro {name : TypeName} {definition : InstanceDefinition} (blueprint : Blueprint)
      (definitions : List InstanceDefinition)
      (hblueprint : env.blueprint? name = some blueprint)
      (hlength : blueprint.dependencies.length = definitions.length)
      (hderives : ∀ other part, (other, part) ∈ blueprint.dependencies.zip definitions →
        env.Derives other.rooted part)
      (hmake : blueprint.make name definitions = .ok definition) :
      env.Derives name definition

/-- The dependencies of a name that derives a definition can only be followed finitely often. -/
theorem Derives.acc {name : TypeName} {definition : InstanceDefinition}
    (h : env.Derives name definition) : Acc (fun other name ↦ env.DependsOn name other) name := by
  induction h with
  | intro blueprint definitions hblueprint hlength _ _ ih =>
    refine Acc.intro _ fun other hother ↦ ?_
    obtain ⟨blueprint', hblueprint', hmem⟩ := hother
    rw [hblueprint] at hblueprint'
    cases hblueprint'
    obtain ⟨dependency, hdependency, rfl⟩ := List.mem_map.1 hmem
    obtain ⟨index, hindex, rfl⟩ := List.mem_iff_getElem.1 hdependency
    apply ih _ definitions[index]
    rw [← List.getElem_zip (h := by simpa [hlength] using hindex)]
    exact List.getElem_mem _

/-- A name that derives a definition is not among the names it depends on. -/
theorem Derives.not_transGen {name : TypeName} {definition : InstanceDefinition}
    (h : env.Derives name definition) : ¬Relation.TransGen env.DependsOn name name := by
  have hacc := h.acc.transGen
  intro hcycle
  rw [← Relation.transGen_swap] at hcycle
  clear h
  induction hacc with
  | intro name _ ih => exact ih name hcycle hcycle

/-- A lookup that succeeds has a derivation. -/
theorem derives_of_lookupUpTo_eq_ok {depth : Nat} {visiting : List TypeName} {name : TypeName}
    {definition : InstanceDefinition}
    (h : env.lookupUpTo depth visiting name = .ok definition) :
    env.Derives name.rooted definition := by
  induction depth generalizing visiting name definition with
  | zero => cases h
  | succ depth ih =>
    rw [lookupUpTo] at h
    split at h
    next => cases h
    next =>
      obtain ⟨blueprint, definitions, hblueprint, hall, hmake⟩ :=
        (buildWith_eq_ok_iff env _ _ _).1 h
      obtain ⟨hlength, hzip⟩ := List.forall₂_iff_zip.1 ((lookupAll_eq_ok_iff _ _ _).1 hall)
      exact .intro blueprint definitions hblueprint hlength (fun _ _ hmem ↦ ih (hzip hmem)) hmake

/-- The names being looked up are declared and differ from each other, and the depth that is left
suffices for the declared names that are not among them. -/
structure Deep (env : Environment) (depth : Nat) (visiting : List TypeName) : Prop where
  nodup : visiting.Nodup
  declared : visiting ⊆ env.declaredNames
  enough : env.lookupDepth ≤ depth + visiting.length

/-- A lookup starts with a depth that suffices for all declared names. -/
theorem deep_lookupDepth (env : Environment) : env.Deep env.lookupDepth [] where
  nodup := List.nodup_nil
  declared := List.nil_subset _
  enough := Nat.le_refl _

/-- The names being looked up differ from each other, so they never use up the depth. -/
theorem Deep.depth_pos {depth : Nat} {visiting : List TypeName} (h : env.Deep depth visiting) :
    0 < depth := by
  have hlength : visiting.length ≤ env.declaredNames.length :=
    (List.Nodup.subperm h.nodup h.declared).length_le
  have hdepth := env.length_declaredNames
  have henough := h.enough
  omega

theorem Deep.cons {depth : Nat} {visiting : List TypeName} (h : env.Deep (depth + 1) visiting)
    {name : TypeName} {blueprint : Blueprint} (hblueprint : env.blueprint? name = some blueprint)
    (hname : name ∉ visiting) : env.Deep depth (name :: visiting) where
  nodup := List.nodup_cons.2 ⟨hname, h.nodup⟩
  declared := List.cons_subset.2 ⟨mem_declaredNames hblueprint, h.declared⟩
  enough := by
    have henough := h.enough
    rw [List.length_cons]
    omega

/-- A name that derives a definition is found wherever none of the names being looked up is among
the names it depends on. -/
theorem Derives.lookupUpTo_eq_ok {name : TypeName} {definition : InstanceDefinition}
    (h : env.Derives name definition) {depth : Nat} {visiting : List TypeName} {spelled : TypeName}
    (hspelled : spelled.rooted = name) (hdeep : env.Deep depth visiting)
    (havoid : ∀ other ∈ visiting, ¬Relation.ReflTransGen env.DependsOn name other) :
    env.lookupUpTo depth visiting spelled = .ok definition := by
  induction h generalizing depth visiting spelled with
  | @intro name definition blueprint definitions hblueprint hlength hderives hmake ih =>
    subst hspelled
    have hself : env.Derives spelled.rooted definition :=
      .intro blueprint definitions hblueprint hlength hderives hmake
    have hnew : spelled.rooted ∉ visiting := fun hmem ↦ havoid _ hmem .refl
    obtain ⟨depth, rfl⟩ := Nat.exists_eq_succ_of_ne_zero (Nat.ne_of_gt hdeep.depth_pos)
    rw [lookupUpTo, if_neg (by simpa using hnew)]
    refine (buildWith_eq_ok_iff env _ _ _).2 ⟨blueprint, definitions, hblueprint, ?_, hmake⟩
    refine (lookupAll_eq_ok_iff _ _ _).2 (List.forall₂_iff_zip.2 ⟨hlength, ?_⟩)
    intro other part hmem
    have hdepends : env.DependsOn spelled.rooted other.rooted :=
      ⟨blueprint, hblueprint, List.mem_map_of_mem (List.of_mem_zip hmem).1⟩
    refine ih other part hmem rfl (hdeep.cons hblueprint hnew) ?_
    intro reached hreached hpath
    rcases List.mem_cons.1 hreached with rfl | hreached
    · exact hself.not_transGen (.head' hdepends hpath)
    · exact havoid reached hreached (.head hdepends hpath)

end Environment

end DeclaredMethods.Signature
