import DeclaredMethods.Proofs.Lookup.Classification
import DeclaredMethods.Proofs.Scoping.Variables
import DeclaredMethods.Proofs.Spelling.Declarations
import DeclaredMethods.Proofs.Validity.Definitions

/-!
# Which type variables a definition can have

The members of a declaration can use the type parameters of its header and those of the
declarations around it. A definition has only the type parameters of the first declaration of its
type, and those are the only ones that are replaced when it is inherited from. So the variables of
a definition are closed unless a declaration of a type it is made of has a type parameter in scope
that the type does not keep: another piece of the type names its parameters differently, or the type
stands inside a generic one.
-/

namespace DeclaredMethods.Signature

/-- The name of a declared type, and the type parameters that are in scope in its members. -/
structure Header where
  name : TypeName
  scope : List String
deriving DecidableEq

mutual

/-- The headers of a declaration that is written in the namespace `outer`, and of those inside it
that are declared with it. -/
def Declaration.headers (outer scope : List String) : Declaration → List Header
  | .class_ name typeParams _ members | .module_ name typeParams _ members =>
    let name := name.inContext outer
    let scope := scope ++ typeParams.map TypeParam.name
    ⟨name, scope⟩ :: Member.headersAll name.segments scope members
  | .interface name typeParams _ =>
    [⟨name.inContext outer, scope ++ typeParams.map TypeParam.name⟩]
  | .typeAlias .. | .classAlias .. => []

def Member.headersAll (outer scope : List String) : List Member → List Header
  | [] => []
  | member :: members => member.headers outer scope ++ Member.headersAll outer scope members

def Member.headers (outer scope : List String) : Member → List Header
  | .declaration declaration => declaration.headers outer scope
  | .method .. | .attribute .. | .alias_ .. | .include_ _ | .prepend _ | .extend _ => []

end

def declaredHeaders (sources : List String) : List Header :=
  sources.flatMap fun source ↦
    ((parseSignature source).toOption.getD []).flatMap (Declaration.headers [] [])

namespace Environment

/-- The type parameters of the definition of a declared type. -/
def keptParams (env : Environment) (name : TypeName) : List String :=
  match name.kind with
  | .class_ => ((env.classes.get? name).map ClassEntry.typeParams).getD []
  | .interface => ((env.interfaces.get? name).map InterfaceEntry.typeParams).getD []
  | .alias_ => []

/-- A declaration of a type that the definition of a name is made of has a type parameter in scope
that the type does not keep. -/
def Escapes (env : Environment) (headers : List Header) (name : TypeName) (param : String) : Prop :=
  ∃ header ∈ headers, Relation.ReflTransGen env.Depends name header.name ∧
    param ∈ header.scope ∧ param ∉ env.keptParams header.name

end Environment

/-- The type variables in the overloads of a definition are bound by the overload or listed in the
definition, up to those that meet a condition. -/
def InstanceDefinition.ClosedUpTo (others : String → Prop) (definition : InstanceDefinition) :
    Prop :=
  ∀ entry ∈ definition.methods.entries, ∀ overload ∈ entry.2.overloads, ∀ name,
    overload.HasVariable name →
      name ∈ overload.typeParams ∨ name ∈ definition.typeParams ∨ others name

/-- The type variables in the overloads of a definition are bound by the overload or listed in the
definition. -/
def InstanceDefinition.Closed (definition : InstanceDefinition) : Prop :=
  definition.ClosedUpTo fun _ ↦ False

/-! ## Scoped environments -/

/-- Nothing is asked of tokens. -/
def AnyToken (_ : TokenKind) : Prop := True

/-- A piece of a class whose types are scoped by one of the headers of the class. -/
def Fragment.ScopedBy (headers : List Header) (name : TypeName) (fragment : Fragment) : Prop :=
  ∃ scope, ⟨name, scope⟩ ∈ headers ∧
    (∀ parent ∈ fragment.superclass, parent.Spelled AnyToken scope) ∧
    ∀ member ∈ fragment.members, member.Spelled AnyToken scope

def InterfaceEntry.ScopedBy (headers : List Header) (name : TypeName) (entry : InterfaceEntry) :
    Prop :=
  ∃ scope, ⟨name, scope⟩ ∈ headers ∧ ∀ member ∈ entry.members, member.Spelled AnyToken scope

/-- An environment in which the types of all declarations are scoped by their headers. -/
structure Environment.ScopedBy (headers : List Header) (env : Environment) : Prop where
  classes : ∀ name, ∀ entry ∈ env.classes.get? name, ∀ fragment ∈ entry.fragments,
    fragment.ScopedBy headers name
  interfaces : ∀ name, ∀ entry ∈ env.interfaces.get? name, entry.ScopedBy headers name

namespace Environment.ScopedBy

variable {headers : List Header}

theorem empty : Environment.empty.ScopedBy headers :=
  ⟨fun _ ↦ forall_mem_none _, fun _ ↦ forall_mem_none _⟩

/-- A piece of a class has the parameters of its own heading in scope. -/
theorem addFragment {env : Environment} (h : env.ScopedBy headers) {name : TypeName}
    {scope : List String} (hheader : ⟨name, scope⟩ ∈ headers) (isModule : Bool)
    (typeParams : List TypeParam) {superclass : Option Parent}
    (hsuperclass : ∀ parent ∈ superclass, parent.Spelled AnyToken scope) {members : List Member}
    (hmembers : ∀ member ∈ members, member.Spelled AnyToken scope) :
    (env.addFragment name isModule typeParams superclass members).ScopedBy headers := by
  have hfragment : Fragment.ScopedBy headers name
      ⟨name.segments, superclass, members.filter fun member ↦ !member.isDeclaration⟩ :=
    ⟨scope, hheader, hsuperclass, fun member hmember ↦
      hmembers member (List.mem_of_mem_filter hmember)⟩
  refine ⟨fun other entry hentry ↦ ?_, h.interfaces⟩
  simp only [Environment.addFragment, OrderedMap.get?_alter] at hentry
  split at hentry
  next hother =>
    subst hother
    cases hpresent : env.classes.get? name with
    | none =>
      rw [hpresent] at hentry
      obtain rfl := Option.some.inj hentry
      exact List.forall_mem_singleton.2 hfragment
    | some present =>
      rw [hpresent] at hentry
      obtain rfl := Option.some.inj hentry
      exact forall_mem_snoc (h.classes name present hpresent) hfragment
  next => exact h.classes other entry hentry

mutual

/-- Adding a declaration whose headers are known keeps an environment scoped. -/
theorem addDeclaration {env : Environment} {outer scope : List String} (h : env.ScopedBy headers) :
    ∀ declaration : Declaration, declaration.Spelled AnyToken scope →
      declaration.headers outer scope ⊆ headers →
      (env.addDeclaration outer declaration).ScopedBy headers
  | .class_ name typeParams superclass members, .class_ _ _ hsuperclass hmembers, hheaders => by
    rw [Declaration.headers, List.cons_subset] at hheaders
    rw [Environment.addDeclaration]
    exact addNested (h.addFragment hheaders.1 false typeParams hsuperclass hmembers)
      members hmembers
      hheaders.2
  | .module_ name typeParams selfTypes members, .module_ _ _ _ hmembers, hheaders => by
    rw [Declaration.headers, List.cons_subset] at hheaders
    rw [Environment.addDeclaration]
    exact addNested (h.addFragment hheaders.1 true typeParams (forall_mem_none _) hmembers) members
      hmembers hheaders.2
  | .interface name typeParams members, .interface _ _ hmembers, hheaders => by
    rw [Declaration.headers, List.cons_subset] at hheaders
    refine ⟨h.classes, fun other entry hentry ↦ ?_⟩
    simp only [Environment.addDeclaration, OrderedMap.get?_insert] at hentry
    split at hentry
    next hother =>
      subst hother
      obtain rfl := Option.some.inj hentry
      exact ⟨_, hheaders.1, hmembers⟩
    next => exact h.interfaces other entry hentry
  | .typeAlias name typeParams type, _, _ => ⟨h.classes, h.interfaces⟩
  | .classAlias newName oldName isModule, _, _ => ⟨h.classes, h.interfaces⟩

theorem addNested {env : Environment} {outer scope : List String} (h : env.ScopedBy headers) :
    ∀ members : List Member, (∀ member ∈ members, member.Spelled AnyToken scope) →
      Member.headersAll outer scope members ⊆ headers →
      (env.addNested outer members).ScopedBy headers
  | [], _, _ => by
    rw [Environment.addNested]
    exact h
  | member :: members, hmembers, hheaders => by
    obtain ⟨hmember, hmembers⟩ := List.forall_mem_cons.1 hmembers
    rw [Member.headersAll, List.append_subset] at hheaders
    rw [Environment.addNested]
    exact addNested (addMember h member hmember hheaders.1) members hmembers hheaders.2

/-- Only declarations among the members are filed. -/
theorem addMember {env : Environment} {outer scope : List String} (h : env.ScopedBy headers) :
    ∀ member : Member, member.Spelled AnyToken scope → member.headers outer scope ⊆ headers →
      (env.addMember outer member).ScopedBy headers
  | .declaration declaration, .declaration hdeclaration, hheaders => by
    rw [Member.headers] at hheaders
    rw [Environment.addMember]
    exact addDeclaration h declaration hdeclaration hheaders
  | .method .., _, _ | .attribute .., _, _ | .alias_ .., _, _ | .include_ _, _, _
  | .prepend _, _, _ | .extend _, _, _ => h

end

/-- An environment into which texts are loaded is scoped by their headers. -/
theorem foldlM_load {sources : List String} {env : Environment}
    (hload : sources.foldlM Environment.load .empty = .ok env) :
    env.ScopedBy (declaredHeaders sources) := by
  refine foldlM_load_induction hload empty fun source hsource declarations hparse env henv ↦ ?_
  have hspelled : ∀ declaration ∈ declarations, declaration.Spelled AnyToken [] :=
    spelled_of_parseSignature trivial (fun _ _ ↦ trivial) hparse
  refine List.foldlRecOn declarations _ henv fun env henv declaration hdeclaration ↦ ?_
  refine henv.addDeclaration declaration (hspelled declaration hdeclaration) fun header hheader ↦ ?_
  refine List.mem_flatMap.2 ⟨source, hsource, ?_⟩
  rw [hparse]
  exact List.mem_flatMap.2 ⟨declaration, hdeclaration, hheader⟩

end Environment.ScopedBy

section Scoped

variable {scope : List String}

/-- The variables of a type that was read are in scope. -/
theorem TypeExpr.Spelled.mem_scope {tokens : TokenKind → Prop} {type : TypeExpr}
    (h : type.Spelled tokens scope) {name : String} (hname : type.HasVariable name) :
    name ∈ scope := by
  induction hname with
  | here => exact h.here.2
  | inside hpart _ ih => exact ih (h.parts _ hpart)

/-- The variables of a method type are bound by the method or meet a condition. -/
def MethodType.ClosedUpTo (others : String → Prop) (method : MethodType) : Prop :=
  ∀ name, method.HasVariable name → name ∈ method.typeParams ∨ others name

theorem MethodType.ClosedUpTo.mono {others weaker : String → Prop} {method : MethodType}
    (h : method.ClosedUpTo others) (hmono : ∀ name, others name → weaker name) :
    method.ClosedUpTo weaker :=
  fun name hname ↦ (h name hname).imp_right (hmono name)

/-- What is written uses the parameters in scope and those of the method itself. -/
theorem MethodType.Spelled.closedUpTo {tokens : TokenKind → Prop} {method : MethodType}
    (h : method.Spelled tokens scope) : method.ClosedUpTo (· ∈ scope) := by
  rintro name ⟨type, htype, hname⟩
  exact (List.mem_append.1 ((h.types type htype).mem_scope hname)).symm

/-- Names are no variables, so qualifying them opens nothing. -/
theorem MethodType.ClosedUpTo.mapNames {others : String → Prop} {method : MethodType}
    (h : method.ClosedUpTo others) (f : TypeName → TypeName) :
    (method.mapNames f).ClosedUpTo others := by
  intro name hname
  rw [MethodType.mapNames, MethodType.typeParams_map]
  exact h name ((method.hasVariable_mapNames f name).1 hname)

/-- After replacing the type parameters of a class, only the variables of the arguments are
added to those that are no parameters of the class. -/
theorem MethodType.ClosedUpTo.substitute {params : List String} {args : List TypeExpr}
    {before after : String → Prop} {method : MethodType}
    (h : method.ClosedUpTo fun name ↦ name ∈ params ∨ before name)
    (hbefore : ∀ name, before name → after name)
    (hargs : ∀ arg ∈ args, ∀ name, arg.HasVariable name → after name) :
    (method.substitute (.ofParams params args)).ClosedUpTo after := by
  intro name hname
  rw [MethodType.substitute, MethodType.typeParams_map]
  rcases MethodType.hasVariable_substitute hname with hbound | ⟨hfree, hparam⟩ | ⟨arg, harg, hfound⟩
  · exact .inl hbound
  · exact (h name hfree).imp_right fun hother ↦ hbefore name (hother.resolve_left hparam)
  · exact .inr (hargs arg harg name hfound)

variable {env : Environment} {context : List String}

theorem Parent.Spelled.ancestor_args {tokens : TokenKind → Prop} {parent : Parent}
    (h : parent.Spelled tokens scope) :
    ∀ arg ∈ (env.ancestor context parent).args, ∀ name, arg.HasVariable name → name ∈ scope :=
  List.forall_mem_map.2 fun arg harg name hname ↦
    (h.args arg harg).mem_scope ((arg.hasVariable_mapNames _ name).1 hname)

/-- Attributes give methods whose types are written in the class. -/
theorem Member.Spelled.memberMethods {tokens : TokenKind → Prop} {member : Member}
    (h : member.Spelled tokens scope) :
    ∀ method ∈ env.memberMethods context member,
      ∀ overload ∈ method.overloads, overload.ClosedUpTo (· ∈ scope) := by
  refine Environment.forall_mem_memberMethods ?_ ?_
  · rintro name belonging overloads overloading rfl overload hoverload
    cases h with
    | method hoverloads => exact (hoverloads overload hoverload).closedUpTo.mapNames _
  · rintro kind name type belonging rfl
    rcases h with _ | ⟨-, htype⟩
    have hvariable : ∀ name, (env.qualifyType context type).HasVariable name → name ∈ scope :=
      fun name hname ↦ htype.mem_scope ((type.hasVariable_mapNames _ name).1 hname)
    constructor
    · rintro name ⟨_, hmem, hname⟩
      obtain rfl := List.mem_singleton.1 hmem
      exact .inr (hvariable name hname)
    · rintro name ⟨_, hmem, hname⟩
      obtain rfl | hmem := List.mem_cons.1 hmem
      · exact .inr (hvariable name hname)
      · obtain rfl := List.mem_singleton.1 hmem
        exact .inr (hvariable name hname)

end Scoped

/-! ## Variables of blueprints -/

/-- The variables that the parts of a definition bring in meet a condition. -/
structure Parts.ClosedUpTo (others : String → Prop) (parts : Parts) : Prop where
  ancestors : ∀ ancestor ∈ parts.inherited ++ parts.prepended, ∀ arg ∈ ancestor.args, ∀ name,
    arg.HasVariable name → others name
  own : ∀ method ∈ parts.own, ∀ overload ∈ method.overloads, overload.ClosedUpTo others

def InScope (headers : List Header) (name : TypeName) (param : String) : Prop :=
  ∃ scope, ⟨name, scope⟩ ∈ headers ∧ param ∈ scope

theorem Fragment.ScopedBy.exists_scope {headers : List Header} {name : TypeName}
    {fragment : Fragment} (h : fragment.ScopedBy headers name) :
    ∃ scope, (∀ param ∈ scope, InScope headers name param) ∧
      (∀ parent, fragment.Names parent → parent.Spelled AnyToken scope) ∧
      ∀ member ∈ fragment.members, member.Spelled AnyToken scope := by
  obtain ⟨scope, hheader, hsuperclass, hmembers⟩ := h
  refine ⟨scope, fun param hparam ↦ ⟨scope, hheader, hparam⟩, fun parent hparent ↦ ?_, hmembers⟩
  rcases hparent with hparent | hincluded | hprepended
  · exact hsuperclass parent hparent
  · cases hmembers _ hincluded with
    | include_ hspelled => exact hspelled
  · cases hmembers _ hprepended with
    | prepend hspelled => exact hspelled

namespace Environment

variable {env : Environment} {headers : List Header} {name : TypeName}

/-- Pieces of one class may have different parameters in scope; each method is closed in its own. -/
theorem closedUpTo_classParts {entry : ClassEntry}
    (h : ∀ fragment ∈ entry.fragments, fragment.ScopedBy headers name) :
    (env.classParts name entry).ClosedUpTo (InScope headers name) where
  ancestors ancestor hancestor := by
    rcases exists_of_mem_classParts hancestor with
      hnone | ⟨fragment, hfragment, parent, hparent, rfl⟩
    · rw [hnone]
      exact List.forall_mem_nil _
    · obtain ⟨scope, hscope, hparents, -⟩ := (h fragment hfragment).exists_scope
      exact fun arg harg param hparam ↦
        hscope param ((hparents parent hparent).ancestor_args arg harg param hparam)
  own := List.forall_mem_flatMap.2 fun fragment hfragment ↦
    List.forall_mem_flatMap.2 fun member hmember method hmethod overload hoverload ↦ by
      obtain ⟨scope, hscope, -, hmembers⟩ := (h fragment hfragment).exists_scope
      exact ((hmembers member hmember).memberMethods method hmethod overload hoverload).mono hscope

theorem closedUpTo_interfaceParts {entry : InterfaceEntry} (h : entry.ScopedBy headers name) :
    (env.interfaceParts entry).ClosedUpTo (InScope headers name) := by
  obtain ⟨scope, hheader, hmembers⟩ := h
  have hscope : ∀ param ∈ scope, InScope headers name param :=
    fun param hparam ↦ ⟨scope, hheader, hparam⟩
  refine ⟨fun ancestor hancestor arg harg param hparam ↦ ?_, ?_⟩
  · obtain ⟨parent, hparent, rfl⟩ := exists_of_mem_interfaceParts hancestor
    cases hmembers _ hparent with
    | include_ hspelled => exact hscope param (hspelled.ancestor_args arg harg param hparam)
  · refine List.forall_mem_flatMap.2 fun member hmember method hmethod overload hoverload ↦ ?_
    exact ((hmembers member hmember).memberMethods method hmethod overload hoverload).mono hscope

/-- The parts of a definition have the type parameters that the type keeps, and bring in only
variables that are in scope in one of its declarations. -/
theorem ScopedBy.blueprint? (h : env.ScopedBy headers) {parts : Parts}
    (hblueprint : env.blueprint? name = some (.made parts)) :
    parts.typeParams = env.keptParams name ∧ parts.ClosedUpTo (InScope headers name) := by
  rcases exists_entry_of_blueprint? hblueprint with
    ⟨entry, hkind, hentry, rfl⟩ | ⟨entry, hkind, hentry, rfl⟩
  · refine ⟨?_, closedUpTo_classParts (h.classes name entry hentry)⟩
    rw [keptParams, hkind, hentry]
    rfl
  · refine ⟨?_, closedUpTo_interfaceParts (h.interfaces name entry hentry)⟩
    rw [keptParams, hkind, hentry]
    rfl

/-- A type parameter that is in scope in a declaration of a type is kept, or it escapes. -/
theorem kept_or_escapes {param : String} (h : InScope headers name param) :
    param ∈ env.keptParams name ∨ env.Escapes headers name param := by
  obtain ⟨scope, hheader, hparam⟩ := h
  by_cases hkept : param ∈ env.keptParams name
  · exact .inl hkept
  · exact .inr ⟨_, hheader, .refl, hparam, hkept⟩

/-- What escapes from a parent escapes from what depends on it. -/
theorem Escapes.of_depends {other : TypeName} {param : String} (h : env.Escapes headers other param)
    (hdepends : env.Depends name other) : env.Escapes headers name param := by
  obtain ⟨header, hheader, hreached, hparam⟩ := h
  exact ⟨header, hheader, .head hdepends hreached, hparam⟩

end Environment

/-- Methods whose overloads are closed up to a condition. -/
def Methods.ClosedUpTo (others : String → Prop) (methods : Methods) : Prop :=
  methods.Forall fun method ↦ ∀ overload ∈ method.overloads, overload.ClosedUpTo others

/-- An assembled definition is closed up to what its parts bring in and what its parents leave. -/
theorem Parts.ClosedUpTo.assemble {others : String → Prop} {parts : Parts}
    (h : parts.ClosedUpTo others) {name : TypeName} {inherited prepended : List InstanceDefinition}
    (hparents : ∀ parent ∈ inherited ++ prepended, ∃ leaves : String → Prop,
      (∀ param, leaves param → others param) ∧ parent.ClosedUpTo leaves)
    {definition : InstanceDefinition}
    (hassemble : parts.assemble name inherited prepended = .ok definition) :
    Methods.ClosedUpTo others definition.methods := by
  refine Parts.assemble_induction hassemble OrderedMap.Forall.empty ?_ ?_ ?_
  · intro methods hmethods ancestor hancestor parent hparent
    obtain ⟨leaves, hleaves, hclosed⟩ := hparents parent hparent
    refine OrderedMap.Forall.insertAll hmethods (List.forall_mem_map.2 fun entry hentry ↦ ?_)
    refine List.forall_mem_map.2 fun overload hoverload ↦ ?_
    have hbefore : overload.ClosedUpTo fun param ↦ param ∈ parent.typeParams ∨ leaves param :=
      hclosed entry hentry overload hoverload
    exact hbefore.substitute hleaves (h.ancestors ancestor hancestor)
  · intro methods hmethods own hown
    refine OrderedMap.Forall.alter hmethods own.name fun present hpresent ↦ ?_
    refine List.forall_mem_append.2 ⟨h.own own hown, ?_⟩
    split
    · cases present with
      | none => exact List.forall_mem_nil _
      | some found => exact hpresent found rfl
    · exact List.forall_mem_nil _
  · intro methods hmethods oldName found hfound newName
    have hclosed := OrderedMap.Forall.get? hmethods found hfound
    exact OrderedMap.Forall.insert hmethods newName hclosed

/-- Every definition that has a derivation in a scoped environment is closed up to the type
parameters that escape. -/
theorem Environment.Derives.closedUpTo {env : Environment} {headers : List Header}
    (henv : env.ScopedBy headers) {name : TypeName} {definition : InstanceDefinition}
    (h : env.Derives name definition) : definition.ClosedUpTo (env.Escapes headers name) := by
  induction h with
  | @intro name definition blueprint definitions hblueprint hlength _ hmake ih =>
    have hparents : ∀ part ∈ definitions, ∃ leaves : String → Prop,
        (∀ param, leaves param → env.Escapes headers name param) ∧ part.ClosedUpTo leaves := by
      intro part hpart
      rw [← List.map_snd_zip (Nat.le_of_eq hlength.symm)] at hpart
      obtain ⟨⟨other, part⟩, hmem, rfl⟩ := List.mem_map.1 hpart
      have hdepends : env.Depends name other.rooted := by
        rw [← dependsOn_eq_depends]
        exact ⟨blueprint, hblueprint, List.mem_map_of_mem (List.of_mem_zip hmem).1⟩
      exact ⟨_, fun param hparam ↦ hparam.of_depends hdepends, ih other part hmem⟩
    cases blueprint with
    | sameAs target =>
      cases definitions with
      | nil => cases hmake
      | cons first rest =>
        cases hmake
        obtain ⟨leaves, hleaves, hclosed⟩ := hparents definition List.mem_cons_self
        intro entry hentry overload hoverload
        exact MethodType.ClosedUpTo.mono (hclosed entry hentry overload hoverload) fun param ↦
          Or.imp_right (hleaves param)
    | unnamed type => cases hmake
    | made parts =>
      obtain ⟨hkept, hparts⟩ := henv.blueprint? hblueprint
      have hown : parts.ClosedUpTo fun param ↦
          param ∈ env.keptParams name ∨ env.Escapes headers name param :=
        ⟨fun ancestor hancestor arg harg param hparam ↦
          kept_or_escapes (hparts.ancestors ancestor hancestor arg harg param hparam),
        fun method hmethod overload hoverload ↦
          (hparts.own method hmethod overload hoverload).mono fun _ ↦ kept_or_escapes⟩
      have htypeParams : definition.typeParams = env.keptParams name := by
        obtain ⟨methods, -, rfl⟩ := Parts.exists_of_assemble hmake
        exact hkept
      rw [InstanceDefinition.ClosedUpTo, htypeParams]
      refine hown.assemble (fun parent hparent ↦ ?_) hmake
      rw [List.take_append_drop] at hparent
      obtain ⟨leaves, hleaves, hclosed⟩ := hparents parent hparent
      exact ⟨leaves, fun param hparam ↦ .inr (hleaves param hparam), hclosed⟩

/-- Whatever texts are loaded, each type variable in a definition is bound by its overload or listed
in the definition, unless it escapes. So a definition is closed if the types it is made of keep all
type parameters that are in scope in their declarations. -/
theorem definition_closedUpTo_escapes (sources : List String) (env : Environment)
    (hload : sources.foldlM Environment.load .empty = .ok env) (name : TypeName)
    (definition : InstanceDefinition) (hdefinition : env.definition name = .ok definition) :
    definition.ClosedUpTo (env.Escapes (declaredHeaders sources) name.rooted) ∧
    ((∀ header ∈ declaredHeaders sources,
        Relation.ReflTransGen env.Depends name.rooted header.name →
        header.scope ⊆ env.keptParams header.name) →
      definition.Closed) := by
  have hclosed : definition.ClosedUpTo (env.Escapes (declaredHeaders sources) name.rooted) :=
    (Environment.derives_of_lookupUpTo_eq_ok hdefinition).closedUpTo (.foldlM_load hload)
  refine ⟨hclosed, fun hkeeps entry hentry overload hoverload ↦ ?_⟩
  refine MethodType.ClosedUpTo.mono (hclosed entry hentry overload hoverload) fun param ↦ ?_
  rintro (hparam | ⟨header, hheader, hreached, hparam, hlost⟩)
  · exact .inl hparam
  · exact absurd (hkeeps header hheader hreached hparam) hlost

def InstanceDefinition.methodTexts (definition : InstanceDefinition) :
    List (String × List String) :=
  definition.methods.entries.map fun entry ↦ (entry.1, entry.2.overloads.map MethodType.text)

/-- A generic class that inherits from another one and includes a generic module, each with its own
type parameters. -/
theorem definition_closed_of_generic_parents :
    ∃ sources env definition,
      sources = ["class Box[T] def get: [U] (U, T) -> Array[T] end",
        "module Each[E] def each: () ?\x7b (E) -> void \x7d -> self end " ++
          "module Store class Crate[S] < Box[Array[S]] include Each[S] end end"] ∧
      sources.foldlM Environment.load .empty = .ok env ∧
      env.definition ⟨["Store"], "Crate", true⟩ = .ok definition ∧
      definition.typeParams = ["S"] ∧
      definition.methodTexts = [("get", ["[U] (U, Array[S]) -> Array[Array[S]]"]),
        ("each", ["() ?\x7b (S) -> void \x7d -> self"])] ∧
      definition.Closed := by
  let sources : List String := ["class Box[T] def get: [U] (U, T) -> Array[T] end",
    "module Each[E] def each: () ?\x7b (E) -> void \x7d -> self end " ++
      "module Store class Crate[S] < Box[Array[S]] include Each[S] end end"]
  let name : TypeName := ⟨["Store"], "Crate", true⟩
  have hrun : (sources.foldlM Environment.load .empty).toOption.map (fun env ↦
      ((env.definition name).toOption.map fun definition ↦
          (definition.typeParams, definition.methodTexts),
        (declaredHeaders sources).all fun header ↦
          header.scope.all (env.keptParams header.name).contains)) =
      some (some (["S"], [("get", ["[U] (U, Array[S]) -> Array[Array[S]]"]),
        ("each", ["() ?\x7b (S) -> void \x7d -> self"])]), true) := by
    decide +kernel
  obtain ⟨env, hload, henv⟩ := exists_ok_of_map_toOption hrun
  obtain ⟨hfound, hkeeps⟩ := Prod.mk.inj henv
  obtain ⟨definition, hdefinition, hfound⟩ := exists_ok_of_map_toOption hfound
  obtain ⟨htypeParams, htexts⟩ := Prod.mk.inj hfound
  refine ⟨sources, env, definition, rfl, hload, hdefinition, htypeParams, htexts, ?_⟩
  refine (definition_closedUpTo_escapes sources env hload name definition hdefinition).2 ?_
  intro header hheader _ param hparam
  have hkept := List.all_eq_true.1 (List.all_eq_true.1 hkeeps header hheader) param hparam
  exact List.contains_iff_mem.1 hkept

def TypeExpr.variable? : TypeExpr → Option String
  | .variable_ name => some name
  | _ => none

theorem MethodType.hasVariable_of_mem {method : MethodType} {name : String}
    (h : name ∈ method.types.filterMap TypeExpr.variable?) : method.HasVariable name := by
  obtain ⟨type, htype, hname⟩ := List.mem_filterMap.1 h
  refine ⟨type, htype, ?_⟩
  cases type with
  | variable_ other =>
    obtain rfl := Option.some.inj hname
    exact .here
  | _ => cases hname

/-- A class that is declared in two pieces with different type parameters: the second piece's one is
left behind in a class that inherits from it. -/
theorem definition_not_closed_of_reopened_parent :
    ∃ source env definition,
      source = "class Box[T]\n  def get: () -> T\nend\nclass Box[U]\n  def put: (U) -> void\nend\n" ++
        "class Texts < Box[String]\nend\n" ∧
      Environment.empty.load source = .ok env ∧
      env.definition ⟨[], "Texts", false⟩ = .ok definition ∧ definition.typeParams = [] ∧
      definition.methodTexts = [("get", ["() -> String"]), ("put", ["(U) -> void"])] ∧
      ¬definition.Closed := by
  let source : String :=
    "class Box[T]\n  def get: () -> T\nend\nclass Box[U]\n  def put: (U) -> void\nend\n" ++
      "class Texts < Box[String]\nend\n"
  let name : TypeName := ⟨[], "Texts", false⟩
  have hrun : (Environment.empty.load source).toOption.map (fun env ↦
      (env.definition name).toOption.map fun definition ↦
        (definition.typeParams, definition.methodTexts, definition.methods.entries.any fun entry ↦
          entry.2.overloads.any fun overload ↦
            overload.typeParams.isEmpty &&
              (overload.types.filterMap TypeExpr.variable?).contains "U")) =
      some (some ([], [("get", ["() -> String"]), ("put", ["(U) -> void"])], true)) := by
    decide +kernel
  obtain ⟨env, hload, hfound⟩ := exists_ok_of_map_toOption hrun
  obtain ⟨definition, hdefinition, hfound⟩ := exists_ok_of_map_toOption hfound
  obtain ⟨htypeParams, hfound⟩ := Prod.mk.inj hfound
  obtain ⟨htexts, hfree⟩ := Prod.mk.inj hfound
  refine ⟨source, env, definition, rfl, hload, hdefinition, htypeParams, htexts, ?_⟩
  intro hclosed
  obtain ⟨entry, hentry, hfree⟩ := List.any_eq_true.1 hfree
  obtain ⟨overload, hoverload, hfree⟩ := List.any_eq_true.1 hfree
  rw [Bool.and_eq_true, List.isEmpty_iff, List.contains_iff_mem] at hfree
  have hbound := hclosed entry hentry overload hoverload "U"
    (MethodType.hasVariable_of_mem hfree.2)
  rw [hfree.1, htypeParams] at hbound
  simp at hbound

end DeclaredMethods.Signature
