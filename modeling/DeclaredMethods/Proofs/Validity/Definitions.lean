import DeclaredMethods.Delegation
import DeclaredMethods.Proofs.Validity.Declared

/-!
# Definitions of plain environments

What is kept of plain declarations is plain, and so is every definition that is made from it: names
are written out in namespaces of words, type parameters are replaced by plain arguments, and methods
are taken from plain members or from other definitions.
-/

namespace DeclaredMethods

/-- All values of a map meet a condition. -/
def OrderedMap.Forall {κ ν : Type} (P : ν → Prop) (m : OrderedMap κ ν) : Prop :=
  ∀ entry ∈ m.entries, P entry.2

namespace OrderedMap.Forall

variable {κ ν : Type} {P : ν → Prop} {m : OrderedMap κ ν}

theorem empty : (OrderedMap.empty : OrderedMap κ ν).Forall P :=
  List.forall_mem_nil _

variable [DecidableEq κ]

theorem get? (h : m.Forall P) {key : κ} : ∀ value ∈ m.get? key, P value := by
  obtain ⟨entries⟩ := m
  intro value hvalue
  simp only [OrderedMap.get?] at hvalue
  induction entries with
  | nil => cases hvalue
  | cons entry rest ih =>
    obtain ⟨first, others⟩ := List.forall_mem_cons.1 h
    rw [lookup] at hvalue
    split at hvalue
    · cases hvalue
      exact first
    · exact ih others hvalue

/-- Changing an entry concerns that entry alone. -/
theorem alter (h : m.Forall P) (key : κ) {f : Option ν → ν}
    (hf : ∀ present, (∀ value ∈ present, P value) → P (f present)) : (m.alter key f).Forall P := by
  obtain ⟨entries⟩ := m
  simp only [OrderedMap.Forall, OrderedMap.alter] at h ⊢
  induction entries with
  | nil => exact List.forall_mem_singleton.2 (hf none (Signature.forall_mem_none _))
  | cons entry rest ih =>
    obtain ⟨first, others⟩ := List.forall_mem_cons.1 h
    rw [alterEntries]
    split
    · exact List.forall_mem_cons.2 ⟨hf _ (Signature.forall_mem_some first), others⟩
    · exact List.forall_mem_cons.2 ⟨first, ih others⟩

theorem insert (h : m.Forall P) (key : κ) {value : ν} (hvalue : P value) :
    (m.insert key value).Forall P :=
  h.alter key fun _ _ ↦ hvalue

theorem insertAll (h : m.Forall P) {entries : List (κ × ν)}
    (hentries : ∀ entry ∈ entries, P entry.2) : (m.insertAll entries).Forall P := by
  induction entries generalizing m with
  | nil => exact h
  | cons entry rest ih =>
    obtain ⟨first, others⟩ := List.forall_mem_cons.1 hentries
    exact ih (h.insert entry.1 first) others

end OrderedMap.Forall

namespace Signature

def IsWordPath (context : List String) : Prop :=
  ∀ segment ∈ context, isWord segment.toList = true

namespace TypeName

variable {name : TypeName} {context : List String}

theorem isWordPath_segments (h : name.hasWords = true) : IsWordPath name.segments :=
  List.all_eq_true.1 h

theorem hasWords_inContext (h : name.hasWords = true) (hcontext : IsWordPath context) :
    (name.inContext context).hasWords = true := by
  rw [inContext]
  split
  · exact h
  · rw [hasWords, List.all_eq_true, segments, List.append_assoc]
    exact List.forall_mem_append.2 ⟨hcontext, List.all_eq_true.1 h⟩

end TypeName

namespace Environment

variable {env : Environment} {name : TypeName} {context : List String}

/-- Resolution adds words of the namespace in front of a name. -/
theorem hasWords_resolve (h : name.hasWords = true) (hcontext : IsWordPath context) :
    (env.resolve name context).hasWords = true := by
  rw [resolve]
  split
  · exact h
  · cases hfound : ((enclosing context).map name.inContext).find? env.contains with
    | none => exact h
    | some found =>
      obtain ⟨outer, houter, rfl⟩ := List.mem_map.1 (List.mem_of_find?_eq_some hfound)
      obtain ⟨count, -, rfl⟩ := List.mem_map.1 houter
      exact TypeName.hasWords_inContext h fun segment hsegment ↦
        hcontext segment (List.mem_of_mem_take hsegment)

theorem hasWords_qualify (hcontext : IsWordPath context) (name : TypeName)
    (h : name.hasWords = true) : (env.qualify context name).hasWords = true := by
  rw [qualify]
  split
  · exact h
  · dsimp only
    split
    · exact h
    · exact hasWords_resolve h hcontext

end Environment

/-- What is kept by adding the declarations of each text holds of an environment into which the
texts are loaded. -/
theorem Environment.foldlM_load_induction {P : Environment → Prop} {sources : List String}
    {env loaded : Environment} (hload : sources.foldlM Environment.load env = .ok loaded)
    (h : P env)
    (hstep : ∀ source ∈ sources, ∀ declarations, parseSignature source = .ok declarations →
      ∀ env, P env → P (env.addDeclarations declarations)) : P loaded := by
  induction sources generalizing env with
  | nil =>
    cases hload
    exact h
  | cons source sources ih =>
    obtain ⟨hfirst, hothers⟩ := List.forall_mem_cons.1 hstep
    rw [List.foldlM_cons, Environment.load] at hload
    cases hparse : parseSignature source with
    | error error =>
      rw [hparse] at hload
      cases hload
    | ok declarations =>
      rw [hparse] at hload
      exact ih hload (hfirst declarations hparse env h) hothers

/-! ## Plain environments -/

/-- A piece of a class that is written in a namespace of words and whose parts are plain. -/
structure Fragment.Plain (fragment : Fragment) : Prop where
  context : IsWordPath fragment.context
  superclass : ∀ parent ∈ fragment.superclass, parent.Plain
  members : ∀ member ∈ fragment.members, member.Plain

/-- An interface that is written in a namespace of words and whose members are plain. -/
structure InterfaceEntry.Plain (entry : InterfaceEntry) : Prop where
  context : IsWordPath entry.context
  members : ∀ member ∈ entry.members, member.Plain

/-- An environment whose classes, modules and interfaces are plain. -/
structure Environment.Plain (env : Environment) : Prop where
  classes : env.classes.Forall fun entry ↦ ∀ fragment ∈ entry.fragments, fragment.Plain
  interfaces : env.interfaces.Forall InterfaceEntry.Plain

namespace Environment.Plain

variable {env : Environment} {outer : List String}

theorem empty : Environment.empty.Plain :=
  ⟨.empty, .empty⟩

theorem addFragment (h : env.Plain) {name : TypeName} (hname : name.hasWords = true)
    (isModule : Bool) (typeParams : List TypeParam) {superclass : Option Parent}
    (hsuperclass : ∀ parent ∈ superclass, parent.Plain) {members : List Member}
    (hmembers : ∀ member ∈ members, member.Plain) :
    (env.addFragment name isModule typeParams superclass members).Plain := by
  have hfragment : Fragment.Plain
      ⟨name.segments, superclass, members.filter fun member ↦ !member.isDeclaration⟩ :=
    ⟨TypeName.isWordPath_segments hname, hsuperclass, fun member hmember ↦
      hmembers member (List.mem_of_mem_filter hmember)⟩
  refine ⟨h.classes.alter name fun present hpresent ↦ ?_, h.interfaces⟩
  cases present with
  | none => exact List.forall_mem_singleton.2 hfragment
  | some entry => exact forall_mem_snoc (hpresent entry rfl) hfragment

mutual

/-- Adding a plain declaration keeps an environment plain. -/
theorem addDeclaration {env : Environment} {outer : List String} (h : env.Plain)
    (houter : IsWordPath outer) :
    ∀ declaration : Declaration, declaration.Plain → (env.addDeclaration outer declaration).Plain
  | .class_ name typeParams superclass members, .class_ hname hsuperclass hmembers => by
    have hname' := TypeName.hasWords_inContext hname houter
    rw [Environment.addDeclaration]
    exact addNested (h.addFragment hname' false typeParams hsuperclass hmembers)
      (TypeName.isWordPath_segments hname') members hmembers
  | .module_ name typeParams selfTypes members, .module_ hname hmembers => by
    have hname' := TypeName.hasWords_inContext hname houter
    rw [Environment.addDeclaration]
    exact addNested (h.addFragment hname' true typeParams (forall_mem_none _) hmembers)
      (TypeName.isWordPath_segments hname') members hmembers
  | .interface name typeParams members, .interface hmembers =>
    ⟨h.classes, h.interfaces.insert _ ⟨houter, hmembers⟩⟩
  | .typeAlias name typeParams type, _ => ⟨h.classes, h.interfaces⟩
  | .classAlias newName oldName isModule, _ => ⟨h.classes, h.interfaces⟩

theorem addNested {env : Environment} {outer : List String} (h : env.Plain)
    (houter : IsWordPath outer) :
    ∀ members : List Member, (∀ member ∈ members, member.Plain) →
      (env.addNested outer members).Plain
  | [], _ => by
    rw [Environment.addNested]
    exact h
  | member :: members, hmembers => by
    obtain ⟨hmember, hmembers⟩ := List.forall_mem_cons.1 hmembers
    rw [Environment.addNested]
    exact addNested (addMember h houter member hmember) houter members hmembers

/-- Members that are no declarations are not filed by themselves. -/
theorem addMember {env : Environment} {outer : List String} (h : env.Plain)
    (houter : IsWordPath outer) :
    ∀ member : Member, member.Plain → (env.addMember outer member).Plain
  | .declaration declaration, .declaration hdeclaration => by
    rw [Environment.addMember]
    exact addDeclaration h houter declaration hdeclaration
  | .method .., _ | .attribute .., _ | .alias_ .., _ | .include_ _, _ | .prepend _, _
  | .extend _, _ => h

end

theorem addDeclarations (h : env.Plain) {declarations : List Declaration}
    (hdeclarations : ∀ declaration ∈ declarations, declaration.Plain) :
    (env.addDeclarations declarations).Plain := by
  rw [Environment.addDeclarations]
  induction declarations generalizing env with
  | nil => exact h
  | cons declaration declarations ih =>
    obtain ⟨hdeclaration, hothers⟩ := List.forall_mem_cons.1 hdeclarations
    exact ih (h.addDeclaration (List.forall_mem_nil _) declaration hdeclaration) hothers

/-- An environment into which plain texts are loaded one after the other is plain. -/
theorem foldlM_load (h : env.Plain) {sources : List String}
    (hplain : ∀ source ∈ sources, isPlainSource source = true) {loaded : Environment}
    (hload : sources.foldlM Environment.load env = .ok loaded) : loaded.Plain :=
  foldlM_load_induction hload h fun source hsource _ hparse _ henv ↦
    henv.addDeclarations (plain_of_parseSignature (hplain source hsource) hparse)

end Environment.Plain

/-- A piece of a class names a superclass, an included or a prepended module. -/
def Fragment.Names (fragment : Fragment) (parent : Parent) : Prop :=
  fragment.superclass = some parent ∨ .include_ parent ∈ fragment.members ∨
    .prepend parent ∈ fragment.members

namespace Environment

variable {env : Environment} {name : TypeName}

/-- The superclass of a class is written in one of its pieces, or has no arguments. -/
theorem exists_of_mem_superclass {entry : ClassEntry} {ancestor : Ancestor}
    (h : ancestor ∈ env.superclass name entry) :
    ancestor.args = [] ∨ ∃ fragment ∈ entry.fragments, ∃ parent,
      fragment.superclass = some parent ∧ env.ancestor fragment.context parent = ancestor := by
  rw [superclass] at h
  split at h
  · cases h
  · split at h
    next parent hparent =>
      obtain rfl := List.mem_singleton.1 h
      obtain ⟨fragment, hfragment, hsuperclass⟩ := List.exists_of_findSome?_eq_some hparent
      obtain ⟨written, hwritten, rfl⟩ := Option.map_eq_some_iff.1 hsuperclass
      exact .inr ⟨fragment, hfragment, written, hwritten, rfl⟩
    next =>
      split at h
      · obtain rfl := List.mem_singleton.1 h
        exact .inl rfl
      · cases h

/-- The ancestors of a class are written in its pieces, or have no arguments. -/
theorem exists_of_mem_classParts {entry : ClassEntry} {ancestor : Ancestor}
    (h : ancestor ∈
      (env.classParts name entry).inherited ++ (env.classParts name entry).prepended) :
    ancestor.args = [] ∨ ∃ fragment ∈ entry.fragments, ∃ parent, fragment.Names parent ∧
      env.ancestor fragment.context parent = ancestor := by
  rcases List.mem_append.1 h with hinherited | hprepended
  · rcases List.mem_append.1 hinherited with hsuperclass | hincluded
    · rcases exists_of_mem_superclass hsuperclass with
        hnone | ⟨fragment, hfragment, parent, hparent, rfl⟩
      · exact .inl hnone
      · exact .inr ⟨fragment, hfragment, parent, .inl hparent, rfl⟩
    · obtain ⟨fragment, hfragment, hmem⟩ := List.mem_flatMap.1 hincluded
      obtain ⟨parent, hparent, rfl⟩ := List.mem_map.1 hmem
      exact .inr ⟨fragment, hfragment, parent, .inr (.inl (mem_includes.1 hparent)), rfl⟩
  · obtain ⟨fragment, hfragment, hmem⟩ := List.mem_flatMap.1 hprepended
    obtain ⟨parent, hparent, rfl⟩ := List.mem_map.1 hmem
    exact .inr ⟨fragment, hfragment, parent, .inr (.inr (mem_prepends.1 hparent)), rfl⟩

/-- The ancestors of an interface are written in it. -/
theorem exists_of_mem_interfaceParts {entry : InterfaceEntry} {ancestor : Ancestor}
    (h : ancestor ∈ (env.interfaceParts entry).inherited ++ (env.interfaceParts entry).prepended) :
    ∃ parent, .include_ parent ∈ entry.members ∧ env.ancestor entry.context parent = ancestor := by
  rw [interfaceParts, List.append_nil] at h
  obtain ⟨parent, hparent, rfl⟩ := List.mem_map.1 h
  exact ⟨parent, mem_includes.1 hparent, rfl⟩

/-- A condition on the overloads that a member stands for, by what the member is. -/
theorem forall_mem_memberMethods {P : MethodType → Prop} {context : List String} {member : Member}
    (hmethod : ∀ name scope overloads overloading,
      member = .method name scope overloads overloading →
      ∀ overload ∈ overloads, P (env.qualifyMethod context overload))
    (hattribute : ∀ kind name type scope, member = .attribute kind name type scope →
      P (.returning (env.qualifyType context type)) ∧
        P (.writing ⟨env.qualifyType context type, some name⟩ (env.qualifyType context type))) :
    ∀ method ∈ env.memberMethods context member, ∀ overload ∈ method.overloads, P overload := by
  match member with
  | .method name scope overloads overloading =>
    rw [memberMethods]
    split
    · exact List.forall_mem_singleton.2 (List.forall_mem_map.2 (hmethod _ _ _ _ rfl))
    · exact List.forall_mem_nil _
  | .attribute kind name type scope =>
    have hreader := List.forall_mem_singleton.2 (hattribute _ _ _ _ rfl).1
    have hwriter := List.forall_mem_singleton.2 (hattribute _ _ _ _ rfl).2
    rw [memberMethods]
    split
    · cases kind with
      | reader => exact List.forall_mem_singleton.2 hreader
      | writer => exact List.forall_mem_singleton.2 hwriter
      | accessor =>
        exact List.forall_mem_cons.2 ⟨hreader, List.forall_mem_singleton.2 hwriter⟩
    · exact List.forall_mem_nil _
  | .alias_ .. | .include_ _ | .prepend _ | .extend _ | .declaration _ =>
    exact List.forall_mem_nil _

/-- A definition is made of the parts of a class or of an interface. -/
theorem exists_entry_of_blueprint? {parts : Parts}
    (h : env.blueprint? name = some (.made parts)) :
    (∃ entry, name.kind = .class_ ∧ env.classes.get? name = some entry ∧
      parts = env.classParts name entry) ∨
    ∃ entry, name.kind = .interface ∧ env.interfaces.get? name = some entry ∧
      parts = env.interfaceParts entry := by
  rw [Environment.blueprint?] at h
  cases hkind : name.kind with
  | class_ =>
    simp only [hkind] at h
    cases halias : env.classAliases.get? name with
    | some entry =>
      rw [halias] at h
      cases h
    | none =>
      rw [halias] at h
      obtain ⟨entry, hentry, hparts⟩ := Option.map_eq_some_iff.1 h
      cases hparts
      exact .inl ⟨entry, rfl, hentry, rfl⟩
  | interface =>
    simp only [hkind] at h
    obtain ⟨entry, hentry, hparts⟩ := Option.map_eq_some_iff.1 h
    cases hparts
    exact .inr ⟨entry, rfl, hentry, rfl⟩
  | alias_ =>
    simp only [hkind] at h
    obtain ⟨entry, hentry, hparts⟩ := Option.map_eq_some_iff.1 h
    rw [aliasBlueprint] at hparts
    split at hparts <;> cases hparts

end Environment

/-! ## Plain blueprints -/

structure Parts.Plain (parts : Parts) : Prop where
  ancestors : ∀ ancestor ∈ parts.inherited ++ parts.prepended, ∀ arg ∈ ancestor.args, arg.Plain
  own : ∀ method ∈ parts.own, ∀ overload ∈ method.overloads, overload.Plain

theorem MethodType.plain_returning {type : TypeExpr} (h : type.Plain) :
    (MethodType.returning type).Plain :=
  ⟨List.forall_mem_nil _, rfl, List.forall_mem_singleton.2 h⟩

theorem MethodType.plain_writing {name : String} {type : TypeExpr}
    (hname : isWord name.toList = true) (h : type.Plain) :
    (MethodType.writing ⟨type, some name⟩ type).Plain := by
  refine ⟨List.forall_mem_nil _, ?_, List.forall_mem_cons.2 ⟨h, List.forall_mem_singleton.2 h⟩⟩
  have hfits : (Params.single ⟨type, some name⟩).fits =
      (true && isWord name.toList && true && true) :=
    rfl
  rw [MethodType.paramsFit, MethodType.writing, hfits, hname]
  rfl

theorem Fragment.Plain.parent {fragment : Fragment} (h : fragment.Plain) {parent : Parent}
    (hparent : fragment.Names parent) : parent.Plain := by
  rcases hparent with hsuperclass | hincluded | hprepended
  · exact h.superclass parent hsuperclass
  · cases h.members _ hincluded with
    | include_ hplain => exact hplain
  · cases h.members _ hprepended with
    | prepend hplain => exact hplain

namespace Environment

variable {env : Environment} {context : List String}

theorem plain_ancestor_args (hcontext : IsWordPath context) {parent : Parent} (h : parent.Plain) :
    ∀ arg ∈ (env.ancestor context parent).args, arg.Plain :=
  List.forall_mem_map.2 fun arg harg ↦ (h arg harg).mapNames (hasWords_qualify hcontext)

/-- The methods of a member have the types it was declared with, with names for use outside. -/
theorem plain_memberMethods (hcontext : IsWordPath context) {member : Member} (h : member.Plain) :
    ∀ method ∈ env.memberMethods context member,
      ∀ overload ∈ method.overloads, overload.Plain := by
  have hqualify : ∀ name : TypeName, name.hasWords = true →
      (env.qualify context name).hasWords = true := hasWords_qualify hcontext
  refine forall_mem_memberMethods ?_ ?_
  · rintro name scope overloads overloading rfl overload hoverload
    cases h with
    | method hoverloads => exact (hoverloads overload hoverload).mapNames hqualify
  · rintro kind name type scope rfl
    rcases h with _ | ⟨hname, htype⟩
    have htype' : (env.qualifyType context type).Plain := htype.mapNames hqualify
    exact ⟨MethodType.plain_returning htype', MethodType.plain_writing hname htype'⟩

/-- Every piece of a class adds plain methods, whatever namespace it is written in. -/
theorem plain_classParts {name : TypeName} {entry : ClassEntry}
    (h : ∀ fragment ∈ entry.fragments, fragment.Plain) : (env.classParts name entry).Plain where
  ancestors ancestor hancestor := by
    rcases exists_of_mem_classParts hancestor with
      hnone | ⟨fragment, hfragment, parent, hparent, rfl⟩
    · rw [hnone]
      exact List.forall_mem_nil _
    · have hplain := h fragment hfragment
      exact plain_ancestor_args hplain.context (hplain.parent hparent)
  own := List.forall_mem_flatMap.2 fun fragment hfragment ↦
    List.forall_mem_flatMap.2 fun member hmember ↦
      have hmember := (h fragment hfragment).members member hmember
      plain_memberMethods (h fragment hfragment).context hmember

theorem plain_interfaceParts {entry : InterfaceEntry} (h : entry.Plain) :
    (env.interfaceParts entry).Plain where
  ancestors ancestor hancestor := by
    obtain ⟨parent, hparent, rfl⟩ := exists_of_mem_interfaceParts hancestor
    cases h.members _ hparent with
    | include_ hplain => exact plain_ancestor_args h.context hplain
  own := List.forall_mem_flatMap.2 fun member hmember ↦
    plain_memberMethods h.context (h.members member hmember)

/-- The parts that a definition is made of in a plain environment are plain. -/
theorem Plain.blueprint? (h : env.Plain) {name : TypeName} {parts : Parts}
    (hblueprint : env.blueprint? name = some (.made parts)) : parts.Plain := by
  rcases exists_entry_of_blueprint? hblueprint with
    ⟨entry, -, hentry, rfl⟩ | ⟨entry, -, hentry, rfl⟩
  · exact plain_classParts (h.classes.get? entry hentry)
  · exact plain_interfaceParts (h.interfaces.get? entry hentry)

end Environment

def Methods.Plain (methods : Methods) : Prop :=
  methods.Forall fun method ↦ ∀ overload ∈ method.overloads, overload.Plain

namespace Methods.Plain

variable {methods : Methods}

/-- Inherited methods stay plain when the arguments put into them are. -/
theorem inherit (h : methods.Plain) {args : List TypeExpr} (hargs : ∀ arg ∈ args, arg.Plain)
    {parent : InstanceDefinition} (hparent : Methods.Plain parent.methods) :
    (methods.inherit args parent).Plain :=
  OrderedMap.Forall.insertAll h <| List.forall_mem_map.2 fun entry hentry ↦
    List.forall_mem_map.2 fun overload hoverload ↦
      (hparent entry hentry overload hoverload).substitute hargs

theorem declare (h : methods.Plain) (owner : TypeName) {method : OwnMethod}
    (hmethod : ∀ overload ∈ method.overloads, overload.Plain) :
    (methods.declare owner method).Plain := by
  refine OrderedMap.Forall.alter h method.name fun present hpresent ↦ ?_
  refine List.forall_mem_append.2 ⟨hmethod, ?_⟩
  split
  · cases present with
    | none => exact List.forall_mem_nil _
    | some found => exact hpresent found rfl
  · exact List.forall_mem_nil _

end Methods.Plain

/-- Parts and parents that are plain make a plain definition. -/
theorem Parts.Plain.assemble {parts : Parts} (h : parts.Plain) {name : TypeName}
    {inherited prepended : List InstanceDefinition}
    (hparents : ∀ parent ∈ inherited ++ prepended, Methods.Plain parent.methods)
    {definition : InstanceDefinition}
    (hassemble : parts.assemble name inherited prepended = .ok definition) :
    Methods.Plain definition.methods := by
  refine Parts.assemble_induction hassemble OrderedMap.Forall.empty ?_ ?_ ?_
  · intro methods hmethods ancestor hancestor parent hparent
    exact hmethods.inherit (h.ancestors ancestor hancestor) (hparents parent hparent)
  · intro methods hmethods own hown
    exact hmethods.declare name (h.own own hown)
  · intro methods hmethods oldName found hfound newName
    have hplain := OrderedMap.Forall.get? hmethods found hfound
    exact OrderedMap.Forall.insert hmethods newName hplain

/-- Every definition that has a derivation in a plain environment is plain. -/
theorem Environment.Derives.plain {env : Environment} (henv : env.Plain) {name : TypeName}
    {definition : InstanceDefinition} (h : env.Derives name definition) :
    Methods.Plain definition.methods :=
  h.methods_induction fun _ _ _ _ _ hblueprint hparents hassemble ↦
    (henv.blueprint? hblueprint).assemble hparents hassemble

/-- The overloads that are found in a plain environment are plain. -/
theorem Environment.Plain.searchMethod {env : Environment} (h : env.Plain) (name : TypeName)
    (method : String) :
    ∀ overload ∈ (DeclaredMethods.searchMethod env.definition name method).found,
      overload.Plain := by
  rw [DeclaredMethods.searchMethod]
  cases hlookup : env.definition name with
  | error error => exact List.forall_mem_nil _
  | ok definition =>
    have hplain := (Environment.derives_of_lookupUpTo_eq_ok hlookup).plain h
    dsimp only
    cases hfound : definition.method? method with
    | none => exact List.forall_mem_nil _
    | some found => exact OrderedMap.Forall.get? hplain found hfound

end Signature

end DeclaredMethods
