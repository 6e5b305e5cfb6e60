import DeclaredMethods.Proofs.Lookup.Classification

/-!
# The order of independent declarations

A declaration changes what is filed under the names that it declares, itself or by a declaration
inside it, and what it files under a name depends on nothing but what was there before. So two
declarations that have no name in common can be added in either order: the tables list the names in
another order, and that is all.

Names are resolved and definitions are made by looking names up in the tables. Two environments that
have the same filed under every name therefore give the same answers. The bounds on the depth of
lookups do not matter, since no lookup reaches them.
-/

namespace DeclaredMethods.Signature

structure Filed where
  class? : Option ClassEntry
  interface? : Option InterfaceEntry
  alias? : Option AliasEntry
  classAlias? : Option ClassAliasEntry

namespace Environment

def filed (env : Environment) (name : TypeName) : Filed :=
  ⟨env.classes.get? name, env.interfaces.get? name, env.aliases.get? name,
    env.classAliases.get? name⟩

/-- Two environments have the same filed under every name. -/
def Agrees (env env' : Environment) : Prop :=
  ∀ name, env.filed name = env'.filed name

/-- A change that files nothing under other names than the given ones, and under a name something
that depends only on what was there. -/
structure FilesUnder (names : List TypeName) (change : Environment → Environment) : Prop where
  frame : ∀ env name, name ∉ names → (change env).filed name = env.filed name
  depends : ∀ env env' name, env.filed name = env'.filed name →
    (change env).filed name = (change env').filed name

namespace FilesUnder

theorem id : FilesUnder [] fun env ↦ env :=
  ⟨fun _ _ _ ↦ rfl, fun _ _ _ h ↦ h⟩

/-- Changes one after another file under the names of both. -/
theorem comp {names names' : List TypeName} {change change' : Environment → Environment}
    (h : FilesUnder names change) (h' : FilesUnder names' change') :
    FilesUnder (names ++ names') fun env ↦ change' (change env) := by
  refine ⟨fun env name hname ↦ ?_, fun env env' name hsame ↦ ?_⟩
  · rw [List.mem_append, not_or] at hname
    rw [h'.frame _ _ hname.2, h.frame _ _ hname.1]
  · exact h'.depends _ _ name (h.depends env env' name hsame)

/-- Changes under different names can be made in either order. -/
theorem agrees_comm {names names' : List TypeName} {change change' : Environment → Environment}
    (h : FilesUnder names change) (h' : FilesUnder names' change')
    (hdisjoint : names.Disjoint names') (env : Environment) :
    (change' (change env)).Agrees (change (change' env)) := by
  intro name
  by_cases hname : name ∈ names
  · have hname' : name ∉ names' := fun hmem ↦ hdisjoint hname hmem
    calc (change' (change env)).filed name
      _ = (change env).filed name := h'.frame _ name hname'
      _ = (change (change' env)).filed name := h.depends _ _ name (h'.frame env name hname').symm
  · calc (change' (change env)).filed name
      _ = (change' env).filed name := h'.depends _ _ name (h.frame env name hname)
      _ = (change (change' env)).filed name := (h.frame _ name hname).symm

/-- A change keeps two environments alike if they were. -/
theorem agrees {names : List TypeName} {change : Environment → Environment}
    (h : FilesUnder names change) {env env' : Environment} (hsame : env.Agrees env') :
    (change env).Agrees (change env') :=
  fun name ↦ h.depends env env' name (hsame name)

end FilesUnder

section Tables

variable {ν : Type} {m m' : OrderedMap TypeName ν} {name other : TypeName} {f : Option ν → ν}

theorem get?_alter_of_not_mem (h : other ∉ [name]) :
    (m.alter name f).get? other = m.get? other := by
  rw [OrderedMap.get?_alter, if_neg fun heq ↦ h (List.mem_singleton.2 heq.symm)]

theorem get?_alter_congr (h : m.get? other = m'.get? other) :
    (m.alter name f).get? other = (m'.alter name f).get? other := by
  rw [OrderedMap.get?_alter, OrderedMap.get?_alter, h]
  split
  next heq => rw [heq, h]
  next => rfl

end Tables

/-- A piece of a class is added to the pieces filed under the name of the class. -/
theorem filesUnder_addFragment (name : TypeName) (isModule : Bool) (typeParams : List TypeParam)
    (superclass : Option Parent) (members : List Member) :
    FilesUnder [name] fun env ↦ env.addFragment name isModule typeParams superclass members := by
  refine ⟨fun env other hother ↦ ?_, fun env env' other hsame ↦ ?_⟩
  · exact congrArg (Filed.mk · _ _ _) (get?_alter_of_not_mem hother)
  · rw [filed, filed, Filed.mk.injEq] at hsame ⊢
    exact ⟨get?_alter_congr hsame.1, hsame.2⟩

theorem filesUnder_interface (name : TypeName) (entry : InterfaceEntry) :
    FilesUnder [name] fun env ↦ { env with interfaces := env.interfaces.insert name entry } := by
  refine ⟨fun env other hother ↦ ?_, fun env env' other hsame ↦ ?_⟩
  · exact congrArg (Filed.mk _ · _ _) (get?_alter_of_not_mem hother)
  · rw [filed, filed, Filed.mk.injEq] at hsame ⊢
    exact ⟨hsame.1, get?_alter_congr hsame.2.1, hsame.2.2⟩

theorem filesUnder_alias (name : TypeName) (entry : AliasEntry) :
    FilesUnder [name] fun env ↦ { env with aliases := env.aliases.insert name entry } := by
  refine ⟨fun env other hother ↦ ?_, fun env env' other hsame ↦ ?_⟩
  · exact congrArg (Filed.mk _ _ · _) (get?_alter_of_not_mem hother)
  · rw [filed, filed, Filed.mk.injEq] at hsame ⊢
    exact ⟨hsame.1, hsame.2.1, get?_alter_congr hsame.2.2.1, hsame.2.2.2⟩

theorem filesUnder_classAlias (name : TypeName) (entry : ClassAliasEntry) :
    FilesUnder [name] fun env ↦
      { env with classAliases := env.classAliases.insert name entry } := by
  refine ⟨fun env other hother ↦ ?_, fun env env' other hsame ↦ ?_⟩
  · exact congrArg (Filed.mk _ _ _ ·) (get?_alter_of_not_mem hother)
  · rw [filed, filed, Filed.mk.injEq] at hsame ⊢
    exact ⟨hsame.1, hsame.2.1, hsame.2.2.1, get?_alter_congr hsame.2.2.2⟩

end Environment

mutual

/-- The absolute names of a declaration that is written in the namespace `outer` and of the
declarations inside it. Those inside an interface are not kept, so they declare nothing. -/
def Declaration.names (outer : List String) : Declaration → List TypeName
  | .class_ name _ _ members | .module_ name _ _ members =>
    name.inContext outer :: Member.namesAll (name.inContext outer).segments members
  | .interface name _ _ | .typeAlias name _ _ | .classAlias name _ _ => [name.inContext outer]

def Member.namesAll (outer : List String) : List Member → List TypeName
  | [] => []
  | member :: members => Member.names outer member ++ Member.namesAll outer members

def Member.names (outer : List String) : Member → List TypeName
  | .declaration declaration => declaration.names outer
  | .method .. | .attribute .. | .alias_ .. | .include_ _ | .prepend _ | .extend _ => []

end

namespace Environment

mutual

/-- A declaration files something under its names only. -/
theorem filesUnder_addDeclaration (outer : List String) :
    ∀ declaration : Declaration,
      FilesUnder (declaration.names outer) fun env ↦ env.addDeclaration outer declaration
  | .class_ name typeParams superclass members => by
    simp only [Declaration.names, addDeclaration]
    exact (filesUnder_addFragment _ false typeParams superclass members).comp
      (filesUnder_addNested _ members)
  | .module_ name typeParams selfTypes members => by
    simp only [Declaration.names, addDeclaration]
    exact (filesUnder_addFragment _ true typeParams none members).comp
      (filesUnder_addNested _ members)
  | .interface name typeParams members => by
    simp only [Declaration.names, addDeclaration]
    exact filesUnder_interface _ _
  | .typeAlias name typeParams type => by
    simp only [Declaration.names, addDeclaration]
    exact filesUnder_alias _ _
  | .classAlias newName oldName isModule => by
    simp only [Declaration.names, addDeclaration]
    exact filesUnder_classAlias _ _

theorem filesUnder_addNested (outer : List String) :
    ∀ members : List Member,
      FilesUnder (Member.namesAll outer members) fun env ↦ env.addNested outer members
  | [] => by
    simp only [Member.namesAll, addNested]
    exact .id
  | member :: members => by
    simp only [Member.namesAll, addNested]
    exact (filesUnder_addMember outer member).comp (filesUnder_addNested outer members)

/-- Members that are not declarations file nothing. -/
theorem filesUnder_addMember (outer : List String) :
    ∀ member : Member, FilesUnder (member.names outer) fun env ↦ env.addMember outer member
  | .declaration declaration => by
    simp only [Member.names, addMember]
    exact filesUnder_addDeclaration outer declaration
  | .method .. | .attribute .. | .alias_ .. | .include_ _ | .prepend _ | .extend _ => by
    simp only [Member.names, addMember]
    exact .id

end

/-- Adding the same declarations to environments that agree keeps them so. -/
theorem Agrees.addDeclarations {env env' : Environment} (h : env.Agrees env')
    (declarations : List Declaration) :
    (env.addDeclarations declarations).Agrees (env'.addDeclarations declarations) := by
  induction declarations generalizing env env' with
  | nil => exact h
  | cons declaration declarations ih =>
    exact ih ((filesUnder_addDeclaration [] declaration).agrees h)

/-- Declarations that have no name in common can be added in either order. -/
theorem agrees_swap (env : Environment) (before after : List Declaration)
    {first second : Declaration} (h : (first.names []).Disjoint (second.names [])) :
    (env.addDeclarations (before ++ first :: second :: after)).Agrees
      (env.addDeclarations (before ++ second :: first :: after)) := by
  have hsplit : ∀ one other : Declaration,
      env.addDeclarations (before ++ one :: other :: after) =
        (((env.addDeclarations before).addDeclaration [] one).addDeclaration []
          other).addDeclarations after := by
    intro one other
    simp only [addDeclarations, List.foldl_append, List.foldl_cons]
  rw [hsplit, hsplit]
  exact Agrees.addDeclarations ((filesUnder_addDeclaration [] first).agrees_comm
    (filesUnder_addDeclaration [] second) h _) after

namespace Agrees

variable {env env' : Environment} (h : env.Agrees env')
include h

theorem get?_classes : env.classes.get? = env'.classes.get? :=
  funext fun name ↦ congrArg Filed.class? (h name)

theorem get?_interfaces : env.interfaces.get? = env'.interfaces.get? :=
  funext fun name ↦ congrArg Filed.interface? (h name)

theorem get?_aliases : env.aliases.get? = env'.aliases.get? :=
  funext fun name ↦ congrArg Filed.alias? (h name)

theorem get?_classAliases : env.classAliases.get? = env'.classAliases.get? :=
  funext fun name ↦ congrArg Filed.classAlias? (h name)

theorem contains_eq : env.contains = env'.contains := by
  funext name
  simp only [contains, OrderedMap.contains, h.get?_classes, h.get?_interfaces, h.get?_aliases,
    h.get?_classAliases]

theorem isModule_eq (name : TypeName) : env.isModule name = env'.isModule name := by
  rw [isModule, isModule, h.get?_classes]

/-- Resolution asks only whether names are declared. -/
theorem resolve_eq : env.resolve = env'.resolve := by
  funext name context
  rw [resolve, resolve, h.contains_eq]

theorem qualify_eq : env.qualify = env'.qualify := by
  funext context name
  simp only [qualify, h.resolve_eq, h.contains_eq]

theorem qualifyType_eq : env.qualifyType = env'.qualifyType := by
  funext context type
  rw [qualifyType, qualifyType, h.qualify_eq]

theorem qualifyMethod_eq : env.qualifyMethod = env'.qualifyMethod := by
  funext context method
  rw [qualifyMethod, qualifyMethod, h.qualify_eq]

theorem ancestor_eq : env.ancestor = env'.ancestor := by
  funext context parent
  rw [ancestor, ancestor, h.resolve_eq, h.qualifyType_eq]

theorem memberMethods_eq : env.memberMethods = env'.memberMethods := by
  funext context member
  unfold memberMethods
  rw [h.qualifyType_eq, h.qualifyMethod_eq]

theorem superclass_eq : env.superclass = env'.superclass := by
  funext name entry
  have hobject : env.classes.contains objectName = env'.classes.contains objectName := by
    rw [OrderedMap.contains, OrderedMap.contains, h.get?_classes]
  rw [superclass, superclass, h.ancestor_eq, hobject]

/-- What is built for a name depends only on what is filed under names. -/
theorem blueprint?_eq (name : TypeName) : env.blueprint? name = env'.blueprint? name := by
  have hclass : env.classParts = env'.classParts := by
    funext name entry
    rw [classParts, classParts, h.superclass_eq, h.ancestor_eq, h.memberMethods_eq]
  have hinterface : env.interfaceParts = env'.interfaceParts := by
    funext entry
    rw [interfaceParts, interfaceParts, h.ancestor_eq, h.memberMethods_eq]
  have halias : env.aliasBlueprint = env'.aliasBlueprint := by
    funext entry
    rw [aliasBlueprint, aliasBlueprint, h.resolve_eq]
  rw [blueprint?, blueprint?, h.get?_classes, h.get?_interfaces, h.get?_aliases,
    h.get?_classAliases, h.resolve_eq, hclass, hinterface, halias]

/-- Environments that agree on every name give the same answers. -/
theorem lookupUpTo_eq (depth : Nat) (visiting : List TypeName) (name : TypeName) :
    env.lookupUpTo depth visiting name = env'.lookupUpTo depth visiting name := by
  induction depth generalizing visiting name with
  | zero => rfl
  | succ depth ih => simp only [lookupUpTo, buildWith, h.blueprint?_eq, ih]

/-- The two bounds on the depth can differ, but a lookup ends before it reaches either of them. -/
theorem definition_eq (name : TypeName) : env.definition name = env'.definition name := by
  let depth := max env.lookupDepth env'.lookupDepth
  have hdeep : env.Deep depth [] := ⟨List.nodup_nil, List.nil_subset _, Nat.le_max_left _ _⟩
  have hdeep' : env'.Deep depth [] := ⟨List.nodup_nil, List.nil_subset _, Nat.le_max_right _ _⟩
  calc env.definition name
    _ = env.lookupUpTo depth [] name :=
      ((settles_lookupUpTo name env.deep_lookupDepth).lookupUpTo_eq hdeep).symm
    _ = env'.lookupUpTo depth [] name := h.lookupUpTo_eq depth [] name
    _ = env'.definition name := (settles_lookupUpTo name env'.deep_lookupDepth).lookupUpTo_eq hdeep'

end Agrees

end Environment

namespace Repository

/-- Requests keep environments in agreement. -/
theorem agrees_performAll {repository repository' : Repository} (hsound : repository.Sound)
    (hsound' : repository'.Sound) (h : repository.environment.Agrees repository'.environment)
    (requests : List Request) :
    (repository.performAll requests).environment.Agrees
      (repository'.performAll requests).environment := by
  induction requests generalizing repository repository' with
  | nil => exact h
  | cons request requests ih =>
    refine ih (hsound.perform request).1 (hsound'.perform request).1 ?_
    cases request with
    | lookup name => exact h
    | load source =>
      cases hparse : parseSignature source with
      | error error =>
        simpa only [perform, load, Environment.load, hparse, Except.map, Except.toOption,
          Option.getD_none] using h
      | ok declarations =>
        simpa only [perform, load, Environment.load, hparse, Except.map, Except.toOption,
          Option.getD_some, ofEnvironment] using h.addDeclarations declarations

/-- Two declarations next to each other that have no declared name in common can be swapped. After
any further requests, every lookup gives the same answer, every name is resolved to the same one,
and the same names are declared and are modules. -/
theorem answers_swap_declarations (env : Environment) (before after : List Declaration)
    (first second : Declaration) (h : (first.names []).Disjoint (second.names []))
    (requests : List Request) :
    let written := (ofEnvironment
      (env.addDeclarations (before ++ first :: second :: after))).performAll requests
    let swapped := (ofEnvironment
      (env.addDeclarations (before ++ second :: first :: after))).performAll requests
    (∀ name, (written.lookup name).1 = (swapped.lookup name).1) ∧
    (∀ name context,
      written.environment.resolve name context = swapped.environment.resolve name context) ∧
    (∀ name, written.environment.contains name = swapped.environment.contains name) ∧
    ∀ name, written.environment.isModule name = swapped.environment.isModule name := by
  intro written swapped
  have hsound : written.Sound := ((sound_ofEnvironment _).performAll requests).1
  have hsound' : swapped.Sound := ((sound_ofEnvironment _).performAll requests).1
  have hagrees : written.environment.Agrees swapped.environment :=
    agrees_performAll (sound_ofEnvironment _) (sound_ofEnvironment _)
      (env.agrees_swap before after h) requests
  refine ⟨fun name ↦ ?_, fun name context ↦ ?_, fun name ↦ ?_, hagrees.isModule_eq⟩
  · rw [(hsound.lookup name).1, (hsound'.lookup name).1, hagrees.definition_eq name]
  · rw [hagrees.resolve_eq]
  · rw [hagrees.contains_eq]

/-- A class with another one inside it that inherits from a class declared behind it: the parent can
be declared first. -/
theorem answers_swap_declarations_of_parent :
    ∃ first second : Declaration,
      first.names [] = [⟨[], "List", true⟩, ⟨["List"], "Node", true⟩] ∧
      second.names [] = [⟨[], "Link", true⟩] ∧
      (((ofEnvironment (Environment.empty.addDeclarations [first, second])).lookup
        ⟨["List"], "Node", false⟩).1.toOption.map fun definition ↦ definition.methods.keys) =
        some ["next"] ∧
      ∀ name,
        ((ofEnvironment (Environment.empty.addDeclarations [first, second])).lookup name).1 =
          ((ofEnvironment (Environment.empty.addDeclarations [second, first])).lookup name).1 := by
  let node : Declaration :=
    .class_ ⟨[], "Node", false⟩ [] (some ⟨⟨[], "Link", false⟩, [.any]⟩) []
  let first : Declaration := .class_ ⟨[], "List", false⟩ [] none [.declaration node]
  let second : Declaration := .class_ ⟨[], "Link", false⟩ [⟨"T", none⟩] none
    [.method "next" .instance_ [.returning (.variable_ "T")] false]
  have hdisjoint : (first.names []).Disjoint (second.names []) := by
    have hnames : second.names [] = [⟨[], "Link", true⟩] := rfl
    rw [hnames, List.disjoint_singleton]
    decide
  refine ⟨first, second, rfl, rfl, by decide +kernel, ?_⟩
  exact (answers_swap_declarations .empty [] [] first second hdisjoint []).1

end Repository

end DeclaredMethods.Signature
