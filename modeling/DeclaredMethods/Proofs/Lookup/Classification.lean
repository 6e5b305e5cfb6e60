import DeclaredMethods.Proofs.Lookup.Transparency

/-!
# What a lookup finds out about a name

The declarations of a name lead to other names: to what an alias stands for, to a superclass, to
modules and interfaces that are mixed in. `Depends` follows those declarations that count for the
name, which are the ones that its spelling asks for, a class alias before a class. A lookup follows
`Depends` and ends on every environment. Its answer tells declared from undeclared names, a
definition shows that no circle can be reached, and a reported circle is one.

`Mentions` follows every declaration that is filed under the name. A definition does not tell
anything about those that do not count.
-/

namespace DeclaredMethods.Signature

/-- The name of the type that an alias stands for, if that type has instances of its own. -/
def AliasEntry.target? (entry : AliasEntry) : Option TypeName :=
  match entry.type with
  | .instance_ name _ | .interface name _ | .alias_ name _ => some name
  | _ => none

/-- The first superclass that a piece of a class gives, and the namespace of that piece. -/
def ClassEntry.explicitSuperclass? (entry : ClassEntry) : Option (Parent × List String) :=
  entry.fragments.findSome? fun fragment ↦ fragment.superclass.map fun parent ↦
    (parent, fragment.context)

namespace Environment

/-- The superclass of a class, and what the pieces of a class or module include or prepend. -/
inductive HasParent (env : Environment) (name : TypeName) (entry : ClassEntry) : TypeName → Prop
  | explicit {parent : Parent} {context : List String} (hclass : entry.isModule = false)
      (hsuper : entry.explicitSuperclass? = some (parent, context)) :
      HasParent env name entry (env.resolve parent.name context)
  | object (hclass : entry.isModule = false) (hsuper : entry.explicitSuperclass? = none)
      (hobject : name ≠ objectName) (hbasic : name ≠ basicObjectName)
      (hdeclared : env.classes.contains objectName = true) :
      HasParent env name entry objectName
  | include_ {fragment : Fragment} {parent : Parent} (hfragment : fragment ∈ entry.fragments)
      (hmember : .include_ parent ∈ fragment.members) :
      HasParent env name entry (env.resolve parent.name fragment.context)
  | prepend {fragment : Fragment} {parent : Parent} (hfragment : fragment ∈ entry.fragments)
      (hmember : .prepend parent ∈ fragment.members) :
      HasParent env name entry (env.resolve parent.name fragment.context)

/-- Some declaration that is filed under an absolute name leads to another one. -/
inductive Mentions (env : Environment) (name : TypeName) : TypeName → Prop
  | classAlias {entry : ClassAliasEntry} (hentry : env.classAliases.get? name = some entry) :
      Mentions env name (env.resolve entry.oldName entry.context)
  | typeAlias {entry : AliasEntry} {target : TypeName} (hentry : env.aliases.get? name = some entry)
      (htarget : entry.target? = some target) :
      Mentions env name (env.resolve target entry.context)
  | parent {entry : ClassEntry} {other : TypeName} (hentry : env.classes.get? name = some entry)
      (hparent : env.HasParent name entry other) : Mentions env name other
  | include_ {entry : InterfaceEntry} {parent : Parent}
      (hentry : env.interfaces.get? name = some entry)
      (hmember : .include_ parent ∈ entry.members) :
      Mentions env name (env.resolve parent.name entry.context)

/-- A declaration that counts for an absolute name leads to another one. -/
inductive Depends (env : Environment) (name : TypeName) : TypeName → Prop
  | classAlias {entry : ClassAliasEntry} (hkind : name.kind = .class_)
      (hentry : env.classAliases.get? name = some entry) :
      Depends env name (env.resolve entry.oldName entry.context)
  | typeAlias {entry : AliasEntry} {target : TypeName} (hkind : name.kind = .alias_)
      (hentry : env.aliases.get? name = some entry) (htarget : entry.target? = some target) :
      Depends env name (env.resolve target entry.context)
  | parent {entry : ClassEntry} {other : TypeName} (hkind : name.kind = .class_)
      (halias : env.classAliases.get? name = none) (hentry : env.classes.get? name = some entry)
      (hparent : env.HasParent name entry other) : Depends env name other
  | include_ {entry : InterfaceEntry} {parent : Parent} (hkind : name.kind = .interface)
      (hentry : env.interfaces.get? name = some entry)
      (hmember : .include_ parent ∈ entry.members) :
      Depends env name (env.resolve parent.name entry.context)

/-- Whether an absolute name is declared as what its spelling says it is. -/
def Declared (env : Environment) (name : TypeName) : Prop :=
  match name.kind with
  | .class_ => env.classAliases.contains name = true ∨ env.classes.contains name = true
  | .interface => env.interfaces.contains name = true
  | .alias_ => env.aliases.contains name = true

end Environment

/-! ## Dependencies of blueprints -/

theorem mem_includes {members : List Member} {parent : Parent} :
    parent ∈ includes members ↔ .include_ parent ∈ members := by
  induction members with
  | nil => simp [includes]
  | cons member members ih =>
    cases member <;> simp [includes, ih]

theorem mem_prepends {members : List Member} {parent : Parent} :
    parent ∈ prepends members ↔ .prepend parent ∈ members := by
  induction members with
  | nil => simp [prepends]
  | cons member members ih =>
    cases member <;> simp [prepends, ih]

namespace Environment

variable {env : Environment}

/-- What a name stands for is absolute. -/
theorem rooted_resolve (name : TypeName) (context : List String) :
    (env.resolve name context).rooted = env.resolve name context := by
  have hrooted : ∀ other : TypeName, other.absolute = true → other.rooted = other := by
    rintro ⟨path, last, absolute⟩ rfl
    rfl
  apply hrooted
  unfold resolve
  split
  · assumption
  · next hrelative =>
    cases hfound : ((enclosing context).map name.inContext).find? env.contains with
    | none => rfl
    | some found =>
      obtain ⟨outer, -, rfl⟩ := List.mem_map.1 (List.mem_of_find?_eq_some hfound)
      rw [TypeName.inContext, if_neg hrelative]
      rfl

/-- The first superclass that a piece gives is an ancestor as seen from that piece. -/
theorem findSome?_ancestor (entry : ClassEntry) :
    (entry.fragments.findSome? fun fragment ↦
        fragment.superclass.map (env.ancestor fragment.context)) =
      entry.explicitSuperclass?.map fun found ↦ env.ancestor found.2 found.1 := by
  unfold ClassEntry.explicitSuperclass?
  induction entry.fragments with
  | nil => rfl
  | cons fragment fragments ih =>
    cases hsuper : fragment.superclass with
    | none => simp only [List.findSome?_cons, hsuper, Option.map_none, ih]
    | some parent => simp only [List.findSome?_cons, hsuper, Option.map_some]

/-- Modules have no superclass. A class without a written one gets the root class, if that is
declared and the class is neither the root nor the empty class above it. -/
theorem mem_superclass {name : TypeName} {entry : ClassEntry} {other : TypeName} :
    other ∈ (env.superclass name entry).map Ancestor.name ↔
      entry.isModule = false ∧
        ((∃ parent context, entry.explicitSuperclass? = some (parent, context) ∧
            other = env.resolve parent.name context) ∨
          (entry.explicitSuperclass? = none ∧ name ≠ objectName ∧ name ≠ basicObjectName ∧
            env.classes.contains objectName = true ∧ other = objectName)) := by
  rw [superclass, findSome?_ancestor]
  cases entry.isModule with
  | true => simp
  | false =>
    cases entry.explicitSuperclass? with
    | some found =>
      obtain ⟨parent, context⟩ := found
      simp [ancestor]
    | none =>
      by_cases h : name ≠ objectName ∧ name ≠ basicObjectName ∧ env.classes.contains objectName
      · simp [h]
      · simp only [Bool.false_eq_true, if_false, Option.map_none, if_neg h]
        simp only [List.map_nil, List.not_mem_nil, false_iff]
        rintro ⟨-, ⟨_, _, hsuper, _⟩ | ⟨-, hobject, hbasic, hdeclared, -⟩⟩
        · cases hsuper
        · exact h ⟨hobject, hbasic, hdeclared⟩

/-- The parents of a class are the ancestors that its definition is made of. -/
theorem hasParent_iff {name : TypeName} {entry : ClassEntry} {other : TypeName} :
    env.HasParent name entry other ↔
      other ∈ (Blueprint.made (env.classParts name entry)).dependencies := by
  simp only [Blueprint.dependencies, classParts, List.map_append, List.mem_append, mem_superclass]
  simp only [List.mem_map, List.mem_flatMap, mem_includes, mem_prepends]
  constructor
  · intro h
    cases h with
    | explicit hclass hsuper => exact .inl (.inl ⟨hclass, .inl ⟨_, _, hsuper, rfl⟩⟩)
    | object hclass hsuper hobject hbasic hdeclared =>
      exact .inl (.inl ⟨hclass, .inr ⟨hsuper, hobject, hbasic, hdeclared, rfl⟩⟩)
    | include_ hfragment hmember => exact .inl (.inr ⟨_, ⟨_, hfragment, _, hmember, rfl⟩, rfl⟩)
    | prepend hfragment hmember => exact .inr ⟨_, ⟨_, hfragment, _, hmember, rfl⟩, rfl⟩
  · rintro ((⟨hclass, ⟨parent, context, hsuper, rfl⟩ | ⟨hsuper, hobject, hbasic, hdeclared, rfl⟩⟩ |
      ⟨_, ⟨fragment, hfragment, parent, hmember, rfl⟩, rfl⟩) |
      ⟨_, ⟨fragment, hfragment, parent, hmember, rfl⟩, rfl⟩)
    · exact .explicit hclass hsuper
    · exact .object hclass hsuper hobject hbasic hdeclared
    · exact .include_ hfragment hmember
    · exact .prepend hfragment hmember

/-- An interface depends only on the interfaces it includes. -/
theorem mem_interfaceParts {entry : InterfaceEntry} {other : TypeName} :
    other ∈ (Blueprint.made (env.interfaceParts entry)).dependencies ↔
      ∃ parent, .include_ parent ∈ entry.members ∧
        other = env.resolve parent.name entry.context := by
  simp [Blueprint.dependencies, interfaceParts, mem_includes, ancestor, eq_comm]

/-- An alias depends on the type it names, if it names one. -/
theorem mem_aliasBlueprint {entry : AliasEntry} {other : TypeName} :
    other ∈ (env.aliasBlueprint entry).dependencies ↔
      ∃ target, entry.target? = some target ∧ other = env.resolve target entry.context := by
  unfold aliasBlueprint AliasEntry.target?
  cases entry.type <;> simp [Blueprint.dependencies]

/-- The declarations that count for a name are the ones that its definition is made of. -/
theorem depends_iff_mem_dependencies {name other : TypeName} :
    env.Depends name other ↔
      ∃ blueprint, env.blueprint? name = some blueprint ∧ other ∈ blueprint.dependencies := by
  unfold blueprint?
  constructor
  · intro h
    cases h with
    | classAlias hkind hentry => simp [hkind, hentry, Blueprint.dependencies]
    | typeAlias hkind hentry htarget =>
      simp only [hkind, hentry, Option.map_some, Option.some.injEq, exists_eq_left']
      exact mem_aliasBlueprint.2 ⟨_, htarget, rfl⟩
    | parent hkind halias hentry hparent =>
      simp only [hkind, halias, hentry, Option.map_some, Option.some.injEq, exists_eq_left']
      exact hasParent_iff.1 hparent
    | include_ hkind hentry hmember =>
      simp only [hkind, hentry, Option.map_some, Option.some.injEq, exists_eq_left']
      exact mem_interfaceParts.2 ⟨_, hmember, rfl⟩
  · rintro ⟨blueprint, hblueprint, hother⟩
    cases hkind : name.kind with
    | class_ =>
      simp only [hkind] at hblueprint
      cases halias : env.classAliases.get? name with
      | some entry =>
        simp only [halias, Option.some.injEq] at hblueprint
        subst hblueprint
        obtain rfl := List.mem_singleton.1 hother
        exact .classAlias hkind halias
      | none =>
        simp only [halias, Option.map_eq_some_iff] at hblueprint
        obtain ⟨entry, hentry, rfl⟩ := hblueprint
        exact .parent hkind halias hentry (hasParent_iff.2 hother)
    | interface =>
      simp only [hkind, Option.map_eq_some_iff] at hblueprint
      obtain ⟨entry, hentry, rfl⟩ := hblueprint
      obtain ⟨parent, hmember, rfl⟩ := mem_interfaceParts.1 hother
      exact .include_ hkind hentry hmember
    | alias_ =>
      simp only [hkind, Option.map_eq_some_iff] at hblueprint
      obtain ⟨entry, hentry, rfl⟩ := hblueprint
      obtain ⟨target, htarget, rfl⟩ := mem_aliasBlueprint.1 hother
      exact .typeAlias hkind hentry htarget

theorem HasParent.rooted {name other : TypeName} {entry : ClassEntry}
    (h : env.HasParent name entry other) : other.rooted = other := by
  cases h with
  | object => rfl
  | explicit | include_ | prepend => exact rooted_resolve _ _

/-- Dependencies are resolved names, so they are absolute. -/
theorem Depends.rooted {name other : TypeName} (h : env.Depends name other) :
    other.rooted = other := by
  cases h with
  | parent _ _ _ hparent => exact hparent.rooted
  | classAlias | typeAlias | include_ => exact rooted_resolve _ _

/-- The dependencies that a lookup follows are those read off the declarations. -/
theorem dependsOn_eq_depends : env.DependsOn = env.Depends := by
  funext name other
  apply propext
  constructor
  · rintro ⟨blueprint, hblueprint, hother⟩
    obtain ⟨dependency, hdependency, rfl⟩ := List.mem_map.1 hother
    have hdepends := depends_iff_mem_dependencies.2 ⟨blueprint, hblueprint, hdependency⟩
    rwa [hdepends.rooted]
  · intro h
    obtain ⟨blueprint, hblueprint, hother⟩ := depends_iff_mem_dependencies.1 h
    exact ⟨blueprint, hblueprint, List.mem_map.2 ⟨other, hother, h.rooted⟩⟩

/-- A name is declared if there is something to build for it. -/
theorem declared_iff {name : TypeName} :
    env.Declared name ↔ (env.blueprint? name).isSome = true := by
  unfold Declared blueprint? OrderedMap.contains
  cases name.kind with
  | class_ => cases env.classAliases.get? name <;> simp
  | interface => simp
  | alias_ => simp

end Environment

/-! ## Failed lookups -/

section Step

variable {env : Environment} {lookup : TypeName → Lookup}

/-- Looking up names one after the other fails with the error of one of them. -/
theorem exists_of_lookupAll_eq_error {names : List TypeName} {error : LookupError}
    (h : lookupAll (m := Id) lookup names = .error error) :
    ∃ name ∈ names, lookup name = .error error := by
  induction names with
  | nil => cases h
  | cons name names ih =>
    simp only [lookupAll, bind] at h
    cases hname : lookup name with
    | error first =>
      simp only [hname] at h
      cases h
      exact ⟨name, List.mem_cons_self, hname⟩
    | ok definition =>
      simp only [hname] at h
      cases hnames : lookupAll (m := Id) lookup names with
      | error rest =>
        simp only [hnames] at h
        cases h
        obtain ⟨other, hother, hlookup⟩ := ih hnames
        exact ⟨other, List.mem_cons_of_mem _ hother, hlookup⟩
      | ok definitions =>
        simp only [hnames] at h
        cases h

/-- An alias of a method that is not there is the only thing that goes wrong with aliases. -/
theorem exists_malformed_of_foldlM_addAlias {owner : TypeName} {names : List (String × String)}
    {methods : Methods} {error : LookupError}
    (h : names.foldlM (Methods.addAlias owner) methods = .error error) :
    ∃ defect, error = .malformed owner defect := by
  induction names generalizing methods with
  | nil => cases h
  | cons pair names ih =>
    rw [List.foldlM_cons, Methods.addAlias] at h
    cases hget : methods.get? pair.2 with
    | none =>
      rw [hget] at h
      cases h
      exact ⟨_, rfl⟩
    | some method =>
      rw [hget] at h
      exact ih h

/-- Putting a definition together fails only because the declarations are malformed. -/
theorem exists_malformed_of_make {blueprint : Blueprint} {name : TypeName}
    {definitions : List InstanceDefinition} {error : LookupError}
    (h : blueprint.make name definitions = .error error) :
    ∃ defect, error = .malformed name defect := by
  cases blueprint with
  | sameAs target =>
    cases definitions with
    | nil => cases h; exact ⟨_, rfl⟩
    | cons => cases h
  | unnamed type => cases h; exact ⟨_, rfl⟩
  | made parts =>
    simp only [Blueprint.make, Parts.assemble, bind, Except.bind] at h
    split at h
    next hfold =>
      cases h
      exact exists_malformed_of_foldlM_addAlias hfold
    next => cases h

/-- A step of a lookup fails on an undeclared name, with the error of a dependency, or because the
declarations are malformed. -/
theorem buildWith_eq_error {name : TypeName} {error : LookupError}
    (h : Id.run (buildWith env (fun other ↦ pure (lookup other)) name) = .error error) :
    (env.blueprint? name = none ∧ error = .unknownType name) ∨
      (∃ other failure, env.Depends name other ∧ lookup other = .error failure ∧
        error = failure.ofAncestor name) ∨
      ∃ defect, error = .malformed name defect := by
  simp only [buildWith, Id.run, pure, bind] at h
  cases hblueprint : env.blueprint? name with
  | none =>
    simp only [hblueprint] at h
    cases h
    exact .inl ⟨rfl, rfl⟩
  | some blueprint =>
    simp only [hblueprint] at h
    cases hall : lookupAll (m := Id) lookup blueprint.dependencies with
    | error failure =>
      simp only [hall] at h
      cases h
      obtain ⟨other, hother, hlookup⟩ := exists_of_lookupAll_eq_error hall
      exact .inr (.inl ⟨other, failure,
        Environment.depends_iff_mem_dependencies.2 ⟨blueprint, hblueprint, hother⟩, hlookup, rfl⟩)
    | ok definitions =>
      simp only [hall] at h
      exact .inr (.inr (exists_malformed_of_make h))

/-- A step of a lookup asks only for dependencies of the name. -/
theorem buildWith_congr {lookup' : TypeName → Lookup} {name : TypeName}
    (h : ∀ other, env.Depends name other → lookup other = lookup' other) :
    Id.run (buildWith env (fun other ↦ pure (lookup other)) name) =
      Id.run (buildWith env (fun other ↦ pure (lookup' other)) name) := by
  have hall : ∀ names : List TypeName, (∀ other ∈ names, lookup other = lookup' other) →
      lookupAll (m := Id) lookup names = lookupAll (m := Id) lookup' names := by
    intro names hnames
    induction names with
    | nil => rfl
    | cons first names ih =>
      simp only [lookupAll]
      rw [hnames first List.mem_cons_self, ih fun other hother ↦ hnames other (.tail _ hother)]
  simp only [buildWith, Id.run, pure, bind]
  cases hblueprint : env.blueprint? name with
  | none => rfl
  | some blueprint =>
    dsimp only
    rw [hall blueprint.dependencies fun other hother ↦
      h other (Environment.depends_iff_mem_dependencies.2 ⟨blueprint, hblueprint, hother⟩)]

end Step

namespace Environment

variable {env : Environment}

/-- Looking up a name while the names `visiting` are being looked up ends with an answer. There is
no bound on the depth: the lookups of the dependencies end, and the answer is made of theirs. -/
inductive Settles (env : Environment) : List TypeName → TypeName → Lookup → Prop
  | circle {visiting : List TypeName} {name : TypeName} (hvisited : name.rooted ∈ visiting) :
      Settles env visiting name (.error (.cyclic name.rooted))
  | built {visiting : List TypeName} {name : TypeName} (answers : TypeName → Lookup)
      (hnew : name.rooted ∉ visiting)
      (hanswers : ∀ other, env.Depends name.rooted other →
        Settles env (name.rooted :: visiting) other (answers other)) :
      Settles env visiting name
        (Id.run (buildWith env (fun other ↦ pure (answers other)) name.rooted))

/-- A name that is being looked up already closes a circle. -/
theorem lookupUpTo_of_mem {depth : Nat} {visiting : List TypeName} {name : TypeName}
    (hvisited : name.rooted ∈ visiting) :
    env.lookupUpTo (depth + 1) visiting name = .error (.cyclic name.rooted) := by
  rw [lookupUpTo, if_pos (by simpa using hvisited)]

theorem lookupUpTo_of_not_mem {depth : Nat} {visiting : List TypeName} {name : TypeName}
    (hnew : name.rooted ∉ visiting) :
    env.lookupUpTo (depth + 1) visiting name =
      Id.run (buildWith env
        (fun other ↦ pure (env.lookupUpTo depth (name.rooted :: visiting) other)) name.rooted) := by
  rw [lookupUpTo, if_neg (by simpa using hnew)]

/-- A name that is not being looked up takes one level, and one declared name less is left. -/
theorem Deep.cons_of_depends {depth : Nat} {visiting : List TypeName}
    (h : env.Deep (depth + 1) visiting) {name other : TypeName} (hdepends : env.Depends name other)
    (hnew : name ∉ visiting) : env.Deep depth (name :: visiting) := by
  obtain ⟨blueprint, hblueprint, -⟩ := depends_iff_mem_dependencies.1 hdepends
  exact h.cons hblueprint hnew

/-- A lookup that may go deep enough ends before it reaches its bound. -/
theorem settles_lookupUpTo {depth : Nat} {visiting : List TypeName} (name : TypeName)
    (hdeep : env.Deep depth visiting) :
    env.Settles visiting name (env.lookupUpTo depth visiting name) := by
  induction depth generalizing visiting name with
  | zero => exact absurd hdeep.depth_pos (Nat.lt_irrefl 0)
  | succ depth ih =>
    by_cases hvisited : name.rooted ∈ visiting
    · rw [lookupUpTo_of_mem hvisited]
      exact .circle hvisited
    · rw [lookupUpTo_of_not_mem hvisited]
      exact .built _ hvisited fun other hother ↦
        ih other (hdeep.cons_of_depends hother hvisited)

/-- The answer of a lookup does not depend on how deep it may go, if that is deep enough. -/
theorem Settles.lookupUpTo_eq {visiting : List TypeName} {name : TypeName} {answer : Lookup}
    (h : env.Settles visiting name answer) {depth : Nat} (hdeep : env.Deep depth visiting) :
    env.lookupUpTo depth visiting name = answer := by
  induction h generalizing depth with
  | circle hvisited =>
    obtain ⟨depth, rfl⟩ := Nat.exists_eq_succ_of_ne_zero (Nat.ne_of_gt hdeep.depth_pos)
    exact lookupUpTo_of_mem hvisited
  | built answers hnew _ ih =>
    obtain ⟨depth, rfl⟩ := Nat.exists_eq_succ_of_ne_zero (Nat.ne_of_gt hdeep.depth_pos)
    rw [lookupUpTo_of_not_mem hnew]
    exact buildWith_congr fun other hother ↦ ih other hother (hdeep.cons_of_depends hother hnew)

/-- A circle is reported only where the names being looked up close one, and then it is reached from
the name that was asked for. -/
theorem Settles.cyclic {visiting : List TypeName} {name circle : TypeName} {answer : Lookup}
    (h : env.Settles visiting name answer) (hanswer : answer = .error (.cyclic circle))
    (hchain : ∀ other ∈ visiting, Relation.TransGen env.Depends other name.rooted) :
    Relation.ReflTransGen env.Depends name.rooted circle ∧
      Relation.TransGen env.Depends circle circle := by
  induction h with
  | circle hvisited =>
    cases hanswer
    exact ⟨.refl, hchain _ hvisited⟩
  | @built visiting name answers hnew _ ih =>
    rcases buildWith_eq_error hanswer with
      ⟨-, hunknown⟩ | ⟨other, failure, hother, hlookup, herror⟩ |
      ⟨defect, hmalformed⟩
    · cases hunknown
    · obtain rfl : failure = .cyclic circle := by
        cases failure <;> simp_all [LookupError.ofAncestor]
      -- The chain of names being looked up goes on with the name at hand.
      have hnext : ∀ visited ∈ name.rooted :: visiting,
          Relation.TransGen env.Depends visited other.rooted := by
        rw [hother.rooted]
        intro visited hvisited
        rcases List.mem_cons.1 hvisited with rfl | hvisited
        · exact .single hother
        · exact (hchain visited hvisited).tail hother
      obtain ⟨hreached, hcircle⟩ := ih other hother hlookup hnext
      rw [hother.rooted] at hreached
      exact ⟨.head hother hreached, hcircle⟩
    · cases hmalformed

/-- Only the name that was asked for is reported as unknown. -/
theorem Settles.unknownType_iff {visiting : List TypeName} {name missing : TypeName}
    {answer : Lookup} (h : env.Settles visiting name answer) (hnew : name.rooted ∉ visiting) :
    answer = .error (.unknownType missing) ↔ missing = name.rooted ∧ ¬env.Declared missing := by
  cases h with
  | circle hvisited => exact absurd hvisited hnew
  | built answers _ _ =>
    rw [declared_iff]
    constructor
    · intro hanswer
      rcases buildWith_eq_error hanswer with ⟨hnone, hunknown⟩ | ⟨_, failure, _, _, herror⟩ |
        ⟨defect, hmalformed⟩
      · cases hunknown
        exact ⟨rfl, by simp [hnone]⟩
      · cases failure <;> cases herror
      · cases hmalformed
    · rintro ⟨rfl, hundeclared⟩
      have hnone : env.blueprint? name.rooted = none := by simpa using hundeclared
      simp only [buildWith, hnone]
      rfl

/-- Every name that a name with a derivation leads to has one too. -/
theorem Derives.exists_of_reachable {name other : TypeName} {definition : InstanceDefinition}
    (h : env.Derives name definition) (hreached : Relation.ReflTransGen env.Depends name other) :
    ∃ definition, env.Derives other definition := by
  induction hreached with
  | refl => exact ⟨definition, h⟩
  | @tail middle other _ hstep ih =>
    obtain ⟨_, hmiddle⟩ := ih
    cases hmiddle with
    | intro blueprint definitions hblueprint hlength hderives _ =>
      obtain ⟨blueprint', hblueprint', hother⟩ := depends_iff_mem_dependencies.1 hstep
      rw [hblueprint] at hblueprint'
      cases hblueprint'
      obtain ⟨index, hindex, rfl⟩ := List.mem_iff_getElem.1 hother
      refine ⟨definitions[index], ?_⟩
      rw [← hstep.rooted]
      apply hderives
      rw [← List.getElem_zip (h := by simpa [hlength] using hindex)]
      exact List.getElem_mem _

theorem Derives.declared {name : TypeName} {definition : InstanceDefinition}
    (h : env.Derives name definition) : env.Declared name := by
  cases h with
  | intro blueprint _ hblueprint _ _ _ => exact declared_iff.2 (by simp [hblueprint])

/-- A definition shows that every name it leads to is declared and on no circle. -/
theorem Derives.sound_below {name : TypeName} {definition : InstanceDefinition}
    (h : env.Derives name definition) {other : TypeName}
    (hreached : Relation.ReflTransGen env.Depends name other) :
    env.Declared other ∧ ¬Relation.TransGen env.Depends other other := by
  obtain ⟨_, hother⟩ := h.exists_of_reachable hreached
  refine ⟨hother.declared, ?_⟩
  rw [← dependsOn_eq_depends]
  exact hother.not_transGen

end Environment

namespace Repository

/-- Whatever a repository was asked before, a lookup ends, with the same answer however deep it may
go. A definition is found only if no circle can be reached and all names that are reached are
declared; a name is reported as unknown exactly if it is the one asked for and not declared; a
circle is reported only if it is one and can be reached. -/
theorem lookup_classifies (env : Environment) (requests : List Request) (name : TypeName) :
    let repository := (ofEnvironment env).performAll requests
    let env := repository.environment
    let answer := (repository.lookup name).1
    (env.Settles [] name answer ∧
      ∀ depth, env.lookupDepth ≤ depth →
        ((env.cachedLookupUpTo depth [] name).run repository.cache).1 = answer) ∧
    (∀ definition, answer = .ok definition →
      ∀ other, Relation.ReflTransGen env.Depends name.rooted other →
        env.Declared other ∧ ¬Relation.TransGen env.Depends other other) ∧
    (∀ missing, answer = .error (.unknownType missing) ↔
      missing = name.rooted ∧ ¬env.Declared missing) ∧
    (∀ circle, answer = .error (.cyclic circle) →
      Relation.ReflTransGen env.Depends name.rooted circle ∧
        Relation.TransGen env.Depends circle circle) := by
  intro repository env answer
  obtain ⟨hsound, -⟩ := (sound_ofEnvironment _).performAll requests
  have hanswer : answer = env.definition name := (hsound.lookup name).1
  have hsettles : env.Settles [] name answer := by
    rw [hanswer]
    exact Environment.settles_lookupUpTo name (Environment.deep_lookupDepth env)
  refine ⟨⟨hsettles, fun depth hdepth ↦ ?_⟩, fun definition hok other hreached ↦ ?_,
    fun missing ↦ ?_, fun circle hcyclic ↦ ?_⟩
  · have hdeep : env.Deep depth [] := ⟨List.nodup_nil, List.nil_subset _, hdepth⟩
    obtain ⟨cache, hrun, -⟩ := Environment.gives_cachedLookupUpTo name hdeep
      (fun _ hmem ↦ (by cases hmem)) repository.cache hsound
    rw [hrun]
    exact hsettles.lookupUpTo_eq hdeep
  · rw [hanswer] at hok
    exact (Environment.derives_of_lookupUpTo_eq_ok hok).sound_below hreached
  · exact hsettles.unknownType_iff List.not_mem_nil
  · exact hsettles.cyclic hcyclic fun _ hmem ↦ (by cases hmem)

/-- Declarations that do not count say nothing about a lookup: a class alias hides the class of the
same name, and a class that is spelled like a type alias is none. Both names have a definition,
although a superclass that is filed under them is not declared. -/
theorem lookup_despite_undeclared_mention :
    ∃ env, Environment.empty.load ("class B end class A = B class A < Missing end " ++
        "type foo = B class foo < Missing end") = .ok env ∧
      ¬env.Declared ⟨[], "Missing", true⟩ ∧
      ∀ name ∈ [(⟨[], "A", true⟩ : TypeName), ⟨[], "foo", true⟩],
        env.Mentions name ⟨[], "Missing", true⟩ ∧
          ∃ definition, ((ofEnvironment env).lookup name).1 = .ok definition := by
  let missing : Parent := ⟨⟨[], "Missing", false⟩, []⟩
  let env := Environment.empty.addDeclarations
    [.class_ ⟨[], "B", false⟩ [] none [], .classAlias ⟨[], "A", false⟩ ⟨[], "B", false⟩ false,
      .class_ ⟨[], "A", false⟩ [] (some missing) [],
      .typeAlias ⟨[], "foo", false⟩ [] (.instance_ ⟨[], "B", false⟩ []),
      .class_ ⟨[], "foo", false⟩ [] (some missing) []]
  have hparent : ∀ name, env.HasParent name ⟨false, [], [⟨name.segments, some missing, []⟩]⟩
      (env.resolve missing.name name.segments) := fun _ ↦ .explicit rfl rfl
  have hfound : ∀ name ∈ [(⟨[], "A", true⟩ : TypeName), ⟨[], "foo", true⟩],
      ((ofEnvironment env).lookup name).1.isOk = true := by
    decide +kernel
  refine ⟨env, rfl, ?_, fun name hname ↦ ⟨?_, ?_⟩⟩
  · rintro (halias | hclass)
    · exact Bool.false_ne_true halias
    · exact Bool.false_ne_true hclass
  · rcases List.mem_cons.1 hname with rfl | hname
    · exact .parent rfl (hparent ⟨[], "A", true⟩)
    · obtain rfl := List.mem_singleton.1 hname
      exact .parent rfl (hparent ⟨[], "foo", true⟩)
  · have hok := hfound name hname
    cases hlookup : ((ofEnvironment env).lookup name).1 with
    | ok definition => exact ⟨definition, rfl⟩
    | error error =>
      rw [hlookup] at hok
      cases hok

end Repository

end DeclaredMethods.Signature
