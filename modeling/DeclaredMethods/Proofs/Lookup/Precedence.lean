import DeclaredMethods.Proofs.Lookup.Classification
import DeclaredMethods.Proofs.OrderedMap.Keys

/-!
# Which declaration a method comes from

A class or module gets its methods in four passes over one table: those of the superclass, of the
included modules, of its own pieces and of the prepended modules, each of which replaces what the
passes before it have left. `ClassEntry.overloads?` says the same from the other end, for one
method: it asks the prepended modules from the last to the first, then the members of the class
itself, then the included modules and the superclass, and takes the first answer.

The passes ask for the value of a key in a table to which entries are added, which is simple as long
as no parent has two entries of one name. Definitions that are looked up have none.
-/

namespace DeclaredMethods

namespace Signature

def lastSome? {α β : Type} (f : α → Option β) (items : List α) : Option β :=
  items.reverse.findSome? f

theorem lastSome?_cons {α β : Type} (f : α → Option β) (item : α) (items : List α) :
    lastSome? f (item :: items) = (lastSome? f items).or (f item) := by
  rw [lastSome?, List.reverse_cons, List.findSome?_append]
  simp [lastSome?]

theorem lastSome?_append {α β : Type} (f : α → Option β) (first second : List α) :
    lastSome? f (first ++ second) = (lastSome? f second).or (lastSome? f first) := by
  rw [lastSome?, List.reverse_append, List.findSome?_append]
  rfl

/-- What a type parameter stands for: the argument in its place, or `untyped` where there is none.
The last of several parameters with one name counts. -/
def argument? : List String → List TypeExpr → String → Option TypeExpr
  | [], _, _ => none
  | param :: params, args, name =>
    (argument? params args.tail name).or
      (if param = name then some (args.head?.getD .any) else none)

/-- A method type with the type parameters of its class replaced by arguments. Parameters of the
method itself hide those of the class. -/
def MethodType.instantiate (params : List String) (args : List TypeExpr) (method : MethodType) :
    MethodType :=
  method.map fun
    | .variable_ name =>
      if name ∈ method.typeParams then .variable_ name
      else (argument? params args name).getD (.variable_ name)
    | type => type

/-- The overloads that a member declares for a method of the instances, and whether those from
before are kept behind them. -/
def Member.overloads? (env : Environment) (context : List String) (method : String) :
    Member → Option (List MethodType × Bool)
  | .method name scope overloads overloading =>
    if scope.isInstance ∧ name = method then
      some (overloads.map (env.qualifyMethod context), overloading)
    else none
  | .attribute kind name type scope =>
    let type := env.qualifyType context type
    if scope.isInstance ∧ kind ≠ .writer ∧ name = method then some ([.returning type], false)
    else if scope.isInstance ∧ kind ≠ .reader ∧ name ++ "=" = method then
      some ([.writing ⟨type, some name⟩ type], false)
    else none
  | _ => none

/-- The overloads of a method after some declarations of it, the last one first. -/
def declaredOverloads? (before : Option (List MethodType)) :
    List (List MethodType × Bool) → Option (List MethodType)
  | [] => before
  | (overloads, overloading) :: earlier =>
    some (overloads ++ if overloading then (declaredOverloads? before earlier).getD [] else [])

namespace ClassEntry

/-- The included modules as they are written, and the namespaces they are written in. -/
def included (entry : ClassEntry) : List (Parent × List String) :=
  entry.fragments.flatMap fun fragment ↦
    (includes fragment.members).map fun parent ↦ (parent, fragment.context)

/-- The prepended modules as they are written, and the namespaces they are written in. -/
def prepended (entry : ClassEntry) : List (Parent × List String) :=
  entry.fragments.flatMap fun fragment ↦
    (prepends fragment.members).map fun parent ↦ (parent, fragment.context)

/-- The superclass as it is written, and the namespace it is written in. -/
def superclass? (entry : ClassEntry) (env : Environment) (name : TypeName) :
    Option (Parent × List String) :=
  if entry.isModule then none
  else entry.explicitSuperclass?.or
    (if name ≠ Environment.objectName ∧ name ≠ Environment.basicObjectName ∧
        env.classes.contains Environment.objectName then
      some (⟨Environment.objectName, []⟩, [])
    else none)

def declarationsOf (entry : ClassEntry) (env : Environment) (method : String) :
    List (List MethodType × Bool) :=
  entry.fragments.flatMap fun fragment ↦
    fragment.members.filterMap (Member.overloads? env fragment.context method)

end ClassEntry

/-- The overloads of a method that a parent has, with its type parameters replaced by the arguments
it is written with. -/
def parentOverloads? (env : Environment) (lookup : TypeName → Lookup) (method : String)
    (written : Parent × List String) : Option (List MethodType) :=
  match lookup (env.resolve written.1.name written.2) with
  | .error _ => none
  | .ok parent =>
    (parent.method? method).map fun found ↦
      found.overloads.map
        (.instantiate parent.typeParams (written.1.args.map (env.qualifyType written.2)))

/-- The overloads of a method of a class or module. Prepended modules come first, then the class
itself, then the included modules, then the superclass. -/
def ClassEntry.overloads? (entry : ClassEntry) (env : Environment) (lookup : TypeName → Lookup)
    (name : TypeName) (method : String) : Option (List MethodType) :=
  let ofParent := parentOverloads? env lookup method
  let below := (lastSome? ofParent entry.included).or ((entry.superclass? env name).bind ofParent)
  (lastSome? ofParent entry.prepended).or
    (declaredOverloads? below (entry.declarationsOf env method).reverse)

namespace Substitution

/-- Later parameters hide earlier ones and what was bound before. -/
theorem get?_bindAll (names : List String) (types : List TypeExpr) (bound : Substitution)
    (name : String) :
    (bindAll types names bound).get? name = (argument? names types name).or (bound.get? name) := by
  induction names generalizing types bound with
  | nil => rfl
  | cons first names ih =>
    rw [bindAll, ih, OrderedMap.get?_insert, argument?, Option.or_assoc]
    by_cases hname : first = name <;> simp [hname]

/-- Names that are hidden stand for nothing. -/
theorem get?_without (bound : Substitution) (names : List String) (name : String) :
    (bound.without names).get? name = if name ∈ names then none else bound.get? name := by
  obtain ⟨entries⟩ := bound
  simp only [without, OrderedMap.get?]
  induction entries with
  | nil => simp [OrderedMap.lookup]
  | cons entry rest ih =>
    rw [List.filter_cons]
    by_cases hentry : entry.1 ∈ names
    · by_cases hname : entry.1 = name
      · subst hname
        simpa [hentry] using ih
      · simpa [hentry, OrderedMap.lookup, hname] using ih
    · by_cases hname : entry.1 = name
      · subst hname
        simp [hentry, OrderedMap.lookup]
      · simpa [hentry, OrderedMap.lookup, hname] using ih

end Substitution

/-- Replacing the parameters of a class by a table is reading the arguments by place. -/
theorem MethodType.substitute_ofParams (params : List String) (args : List TypeExpr) :
    MethodType.substitute (.ofParams params args) = MethodType.instantiate params args := by
  funext method
  rw [substitute, instantiate]
  congr 1
  funext type
  cases type with
  | variable_ name =>
    simp only [Substitution.apply, Substitution.get?_without, Substitution.ofParams,
      Substitution.get?_bindAll, OrderedMap.get?_empty, Option.or_none]
    split <;> rfl
  | _ => rfl

/-! ## What each pass leaves -/

namespace Methods

def overloads? (methods : Methods) (method : String) : Option (List MethodType) :=
  (methods.get? method).map MethodDefinition.overloads

/-- The overloads of a method that a definition has, with its type parameters replaced. -/
def offered? (method : String) (args : List TypeExpr) (parent : InstanceDefinition) :
    Option (List MethodType) :=
  (parent.method? method).map fun found ↦
    found.overloads.map (.instantiate parent.typeParams args)

/-- What a parent has replaces what was there, and nothing else changes. -/
theorem overloads?_inherit (methods : Methods) (args : List TypeExpr) {parent : InstanceDefinition}
    (h : parent.methods.keys.Nodup) (method : String) :
    (methods.inherit args parent).overloads? method =
      (offered? method args parent).or (methods.overloads? method) := by
  let replace (found : MethodDefinition) : MethodDefinition :=
    { found with
      overloads := found.overloads.map (.substitute (.ofParams parent.typeParams args)) }
  have hinherit : methods.inherit args parent = methods.insertAll
      (parent.methods.entries.map fun entry ↦ (entry.1, replace entry.2)) := rfl
  have hkeys : ((parent.methods.entries.map fun entry ↦
      (entry.1, replace entry.2)).map Prod.fst).Nodup := by
    rw [List.map_map]
    exact h
  rw [hinherit, overloads?, OrderedMap.get?_insertAll _ hkeys, OrderedMap.lookup_map]
  simp only [offered?, overloads?, InstanceDefinition.method?, OrderedMap.get?, Option.map_or,
    Option.map_map, Function.comp_def, replace, MethodType.substitute_ofParams]

/-- Of several parents the last one that has a method counts. -/
theorem overloads?_foldl_inherit (methods : Methods)
    {parents : List (Ancestor × InstanceDefinition)}
    (h : ∀ parent ∈ parents, parent.2.methods.keys.Nodup) (method : String) :
    (parents.foldl (fun methods (ancestor, parent) ↦ methods.inherit ancestor.args parent)
        methods).overloads? method =
      (lastSome? (fun (ancestor, parent) ↦ offered? method ancestor.args parent) parents).or
        (methods.overloads? method) := by
  induction parents generalizing methods with
  | nil => rfl
  | cons parent parents ih =>
    rw [List.foldl_cons, ih _ fun other hother ↦ h other (.tail _ hother),
      overloads?_inherit _ _ (h parent (.head _)), lastSome?_cons, Option.or_assoc]

def declarationOf? (method : String) (own : OwnMethod) : Option (List MethodType × Bool) :=
  if own.name = method then some (own.overloads, own.overloading) else none

/-- A declaration of another method changes nothing for this one. -/
theorem overloads?_declare (owner : TypeName) (methods : Methods) (own : OwnMethod)
    (method : String) :
    (declare owner methods own).overloads? method =
      declaredOverloads? (methods.overloads? method) (declarationOf? method own).toList := by
  rw [overloads?, declare, OrderedMap.get?_alter, declarationOf?]
  by_cases hname : own.name = method
  · simp [hname, declaredOverloads?, overloads?]
  · simp [hname, declaredOverloads?, overloads?]

/-- Declarations build on what the ones before them have left. -/
theorem declaredOverloads?_append (before : Option (List MethodType))
    (later earlier : List (List MethodType × Bool)) :
    declaredOverloads? before (later ++ earlier) =
      declaredOverloads? (declaredOverloads? before earlier) later := by
  induction later with
  | nil => rfl
  | cons first later ih => rw [List.cons_append, declaredOverloads?, declaredOverloads?, ih]

/-- Declarations of one method count from the last one back, as far as each keeps those before
it. -/
theorem overloads?_foldl_declare (owner : TypeName) (methods : Methods) (own : List OwnMethod)
    (method : String) :
    (own.foldl (declare owner) methods).overloads? method =
      declaredOverloads? (methods.overloads? method)
        (own.filterMap (declarationOf? method)).reverse := by
  induction own generalizing methods with
  | nil => rfl
  | cons first own ih =>
    have hfirst : (first :: own).filterMap (declarationOf? method) =
        (declarationOf? method first).toList ++ own.filterMap (declarationOf? method) := by
      cases h : declarationOf? method first <;> simp [h]
    have hreverse : (declarationOf? method first).toList.reverse =
        (declarationOf? method first).toList := by
      cases declarationOf? method first <;> rfl
    rw [List.foldl_cons, ih, overloads?_declare, hfirst, List.reverse_append,
      declaredOverloads?_append, hreverse]

/-- Aliases that are all added copy the entries of their methods one after the other. -/
theorem exists_of_foldlM_addAlias {owner : TypeName} {methods aliased : Methods}
    {names : String × String} {aliases : List (String × String)}
    (h : (names :: aliases).foldlM (addAlias owner) methods = .ok aliased) :
    ∃ found, methods.get? names.2 = some found ∧
      aliases.foldlM (addAlias owner)
        (methods.insert names.1 { found with name := names.1 }) = .ok aliased := by
  rw [List.foldlM_cons] at h
  cases hfound : methods.get? names.2 with
  | none =>
    simp only [addAlias, hfound] at h
    cases h
  | some found =>
    simp only [addAlias, hfound] at h
    exact ⟨found, rfl, h⟩

/-- A new name for a method says nothing about other names. -/
theorem overloads?_foldlM_addAlias {owner : TypeName} {methods aliased : Methods}
    {aliases : List (String × String)} {method : String} (h : method ∉ aliases.map Prod.fst)
    (hfold : aliases.foldlM (addAlias owner) methods = .ok aliased) :
    aliased.overloads? method = methods.overloads? method := by
  induction aliases generalizing methods with
  | nil =>
    cases hfold
    rfl
  | cons names aliases ih =>
    rw [List.map_cons, List.mem_cons, not_or] at h
    obtain ⟨found, -, hrest⟩ := exists_of_foldlM_addAlias hfold
    rw [ih h.2 hrest, overloads?, OrderedMap.get?_insert, if_neg (Ne.symm h.1)]
    rfl

end Methods

/-- The methods that the four passes leave. -/
def Parts.table (parts : Parts) (name : TypeName) (inherited prepended : List InstanceDefinition) :
    Methods :=
  (parts.prepended.zip prepended).foldl
    (fun methods (ancestor, parent) ↦ methods.inherit ancestor.args parent)
    (parts.own.foldl (Methods.declare name)
      ((parts.inherited.zip inherited).foldl
        (fun methods (ancestor, parent) ↦ methods.inherit ancestor.args parent) .empty))

/-- A definition is assembled by giving further names to the methods that the passes leave. -/
theorem Parts.exists_of_assemble {parts : Parts} {name : TypeName}
    {inherited prepended : List InstanceDefinition} {definition : InstanceDefinition}
    (h : parts.assemble name inherited prepended = .ok definition) :
    ∃ methods, parts.aliases.foldlM (Methods.addAlias name)
        (parts.table name inherited prepended) = .ok methods ∧
      definition = ⟨name, parts.typeParams, methods⟩ := by
  have hassemble : parts.assemble name inherited prepended =
      (parts.aliases.foldlM (Methods.addAlias name) (parts.table name inherited prepended)).map
        fun methods ↦ ⟨name, parts.typeParams, methods⟩ := rfl
  rw [hassemble] at h
  cases hfold : parts.aliases.foldlM (Methods.addAlias name)
      (parts.table name inherited prepended) with
  | error error =>
    rw [hfold] at h
    cases h
  | ok methods =>
    rw [hfold] at h
    cases h
    exact ⟨methods, rfl, rfl⟩

/-- A definition is what the four passes and then the aliases have left. -/
theorem Parts.assemble_eq_ok {parts : Parts} {name : TypeName}
    {inherited prepended : List InstanceDefinition} {definition : InstanceDefinition}
    (h : parts.assemble name inherited prepended = .ok definition) :
    parts.aliases.foldlM (Methods.addAlias name) (parts.table name inherited prepended) =
      .ok definition.methods := by
  obtain ⟨methods, hmethods, rfl⟩ := exists_of_assemble h
  exact hmethods

/-- What copying one entry under another name keeps, all aliases keep. -/
theorem Methods.addAlias_induction {P : Methods → Prop} {methods aliased : Methods}
    {owner : TypeName} {aliases : List (String × String)} (h : P methods)
    (halias : ∀ methods, P methods → ∀ oldName, ∀ found ∈ methods.get? oldName, ∀ newName,
      P (methods.insert newName { found with name := newName }))
    (hfold : aliases.foldlM (addAlias owner) methods = .ok aliased) : P aliased := by
  induction aliases generalizing methods with
  | nil =>
    cases hfold
    exact h
  | cons names aliases ih =>
    obtain ⟨found, hfound, hrest⟩ := exists_of_foldlM_addAlias hfold
    exact ih (halias methods h names.2 found hfound names.1) hrest

/-- What holds of the empty table and is kept by each step of the passes holds of the methods of an
assembled definition. -/
theorem Parts.assemble_induction {P : Methods → Prop} {parts : Parts} {name : TypeName}
    {inherited prepended : List InstanceDefinition} {definition : InstanceDefinition}
    (h : parts.assemble name inherited prepended = .ok definition) (hempty : P .empty)
    (hinherit : ∀ methods, P methods → ∀ ancestor ∈ parts.inherited ++ parts.prepended,
      ∀ parent ∈ inherited ++ prepended, P (methods.inherit ancestor.args parent))
    (hdeclare : ∀ methods, P methods → ∀ own ∈ parts.own, P (methods.declare name own))
    (halias : ∀ methods, P methods → ∀ oldName, ∀ found ∈ methods.get? oldName, ∀ newName,
      P (methods.insert newName { found with name := newName })) : P definition.methods := by
  have hbelow : P ((parts.inherited.zip inherited).foldl
      (fun methods (ancestor, parent) ↦ methods.inherit ancestor.args parent) .empty) :=
    List.foldlRecOn _ _ hempty fun methods hmethods pair hpair ↦
      hinherit methods hmethods _ (List.mem_append_left _ (List.of_mem_zip hpair).1) _
        (List.mem_append_left _ (List.of_mem_zip hpair).2)
  have hown := List.foldlRecOn parts.own (Methods.declare name) hbelow hdeclare
  have htable : P (parts.table name inherited prepended) :=
    List.foldlRecOn _ _ hown fun methods hmethods pair hpair ↦
      hinherit methods hmethods _ (List.mem_append_right _ (List.of_mem_zip hpair).1) _
        (List.mem_append_right _ (List.of_mem_zip hpair).2)
  exact Methods.addAlias_induction htable halias (Parts.assemble_eq_ok h)

/-- What holds of the methods of assembled definitions as soon as it holds of those of their parents
holds of the methods of every definition that has a derivation. -/
theorem Environment.Derives.methods_induction {P : Methods → Prop} {env : Environment}
    {name : TypeName} {definition : InstanceDefinition} (h : env.Derives name definition)
    (hmade : ∀ name parts inherited prepended definition,
      env.blueprint? name = some (.made parts) →
      (∀ parent ∈ inherited ++ prepended, P parent.methods) →
      parts.assemble name inherited prepended = .ok definition → P definition.methods) :
    P definition.methods := by
  induction h with
  | intro blueprint definitions hblueprint hlength _ hmake ih =>
    have hdefinitions : ∀ part ∈ definitions, P part.methods := by
      intro part hpart
      rw [← List.map_snd_zip (Nat.le_of_eq hlength.symm)] at hpart
      obtain ⟨⟨other, _⟩, hmem, rfl⟩ := List.mem_map.1 hpart
      exact ih other _ hmem
    cases blueprint with
    | sameAs target =>
      cases definitions with
      | nil => cases hmake
      | cons first rest =>
        cases hmake
        exact hdefinitions _ List.mem_cons_self
    | unnamed type => cases hmake
    | made parts =>
      refine hmade _ parts _ _ _ hblueprint ?_ hmake
      rwa [List.take_append_drop]

/-- The methods of a definition that has a derivation are distinct. -/
theorem Environment.Derives.nodup_methods {env : Environment} {name : TypeName}
    {definition : InstanceDefinition} (h : env.Derives name definition) :
    definition.methods.keys.Nodup := by
  refine h.methods_induction (P := fun methods ↦ methods.keys.Nodup)
    fun _ _ _ _ _ _ _ hassemble ↦ ?_
  refine Parts.assemble_induction (P := fun methods ↦ methods.keys.Nodup) hassemble
    List.nodup_nil ?_ ?_ ?_
  · intro methods hmethods _ _ parent _
    exact OrderedMap.nodup_keys_insertAll hmethods _
  · intro methods hmethods own _
    exact OrderedMap.nodup_keys_alter hmethods _ _
  · intro methods hmethods _ _ _ newName
    exact OrderedMap.nodup_keys_alter hmethods newName _

/-! ## Reading the pieces of a class -/

namespace Environment

variable {env : Environment}

/-- The ancestor is the written superclass, resolved where it is written. -/
theorem superclass_eq (name : TypeName) (entry : ClassEntry) :
    env.superclass name entry =
      (entry.superclass? env name).toList.map fun written ↦ env.ancestor written.2 written.1 := by
  rw [superclass, findSome?_ancestor, ClassEntry.superclass?]
  cases entry.isModule with
  | true => rfl
  | false =>
    cases entry.explicitSuperclass? with
    | some found => rfl
    | none =>
      by_cases h : name ≠ objectName ∧ name ≠ basicObjectName ∧ env.classes.contains objectName
      · simp only [Bool.false_eq_true, if_false, Option.map_none, if_pos h]
        rfl
      · simp only [Bool.false_eq_true, if_false, Option.map_none, if_neg h]
        rfl

/-- A member declares a method at most once, since a reader and a writer have different names. -/
theorem filterMap_memberMethods (context : List String) (method : String) (member : Member) :
    (env.memberMethods context member).filterMap (Methods.declarationOf? method) =
      (member.overloads? env context method).toList := by
  match member with
  | .method name scope overloads overloading =>
    rw [memberMethods, Member.overloads?]
    by_cases hscope : scope.isInstance <;> by_cases hname : name = method <;>
      simp [hscope, hname, Methods.declarationOf?]
  | .attribute kind name type scope =>
    have hwriter : name ++ "=" ≠ name := fun h ↦ by
      have := congrArg String.length h
      simp at this
    rw [memberMethods, Member.overloads?]
    by_cases hscope : scope.isInstance
    · cases kind <;> by_cases hname : name = method <;> by_cases hset : name ++ "=" = method <;>
        simp_all [attributeMethods, Methods.declarationOf?]
    · simp [hscope]
  | .alias_ .. | .include_ _ | .prepend _ | .extend _ | .declaration _ => rfl

/-- The ancestors of a class are its superclass and its modules, seen from where they are
written. -/
theorem classParts_inherited (name : TypeName) (entry : ClassEntry) :
    (env.classParts name entry).inherited =
      ((entry.superclass? env name).toList ++ entry.included).map fun written ↦
        env.ancestor written.2 written.1 := by
  rw [List.map_append, ← superclass_eq]
  simp only [classParts, ClassEntry.included, List.map_flatMap, List.map_map, Function.comp_def]

theorem classParts_prepended (name : TypeName) (entry : ClassEntry) :
    (env.classParts name entry).prepended =
      entry.prepended.map fun written ↦ env.ancestor written.2 written.1 := by
  simp only [classParts, ClassEntry.prepended, List.map_flatMap, List.map_map, Function.comp_def]

/-- All pieces of a class declare its methods, each in its own namespace. -/
theorem filterMap_classParts_own (name : TypeName) (entry : ClassEntry) (method : String) :
    (env.classParts name entry).own.filterMap (Methods.declarationOf? method) =
      entry.declarationsOf env method := by
  simp only [classParts, ClassEntry.declarationsOf, List.filterMap_flatMap, filterMap_memberMethods]
  simp only [List.filterMap_eq_flatMap_toList]

/-- Only aliases of instance methods name methods of the instances. -/
theorem exists_of_mem_methodAliases {members : List Member} {newName : String}
    (h : newName ∈ (methodAliases members).map Prod.fst) :
    ∃ oldName scope, .alias_ newName oldName scope ∈ members ∧ scope.isInstance = true := by
  fun_induction methodAliases members with
  | case1 => cases h
  | case2 first oldName scope members hscope ih =>
    rcases List.mem_cons.1 h with rfl | h
    · exact ⟨oldName, scope, .head _, hscope⟩
    · obtain ⟨oldName, scope, hmem, hinstance⟩ := ih h
      exact ⟨oldName, scope, .tail _ hmem, hinstance⟩
  | case3 first oldName scope members hscope ih =>
    obtain ⟨oldName, scope, hmem, hinstance⟩ := ih h
    exact ⟨oldName, scope, .tail _ hmem, hinstance⟩
  | case4 member members _ ih =>
    obtain ⟨oldName, scope, hmem, hinstance⟩ := ih h
    exact ⟨oldName, scope, .tail _ hmem, hinstance⟩

/-- The definitions of the ancestors offer what the parents have as they are written. -/
theorem lastSome?_offered {lookup : TypeName → Lookup} {written : List (Parent × List String)}
    {definitions : List InstanceDefinition}
    (h : List.Forall₂ (fun ancestor definition ↦ lookup ancestor.name = .ok definition)
      (written.map fun written ↦ env.ancestor written.2 written.1) definitions) (method : String) :
    lastSome? (fun (ancestor, parent) ↦ Methods.offered? method ancestor.args parent)
        ((written.map fun written ↦ env.ancestor written.2 written.1).zip definitions) =
      lastSome? (parentOverloads? env lookup method) written := by
  induction written generalizing definitions with
  | nil => rfl
  | cons first written ih =>
    rw [List.map_cons] at h ⊢
    cases h with
    | @cons _ parent _ _ hfirst hrest =>
      have hoffered : parentOverloads? env lookup method first =
          Methods.offered? method (env.ancestor first.2 first.1).args parent := by
        rw [parentOverloads?]
        simp only [ancestor] at hfirst
        rw [hfirst]
        rfl
      rw [List.zip_cons_cons, lastSome?_cons, lastSome?_cons, ih hrest, hoffered]

/-- The table that is assembled for a class has the overloads that its pieces and parents say. -/
theorem overloads?_table {lookup : TypeName → Lookup} {name : TypeName} {entry : ClassEntry}
    {inherited prepended : List InstanceDefinition}
    (hinherited : List.Forall₂ (fun ancestor definition ↦ lookup ancestor.name = .ok definition)
      (env.classParts name entry).inherited inherited)
    (hprepended : List.Forall₂ (fun ancestor definition ↦ lookup ancestor.name = .ok definition)
      (env.classParts name entry).prepended prepended)
    (hdistinct : ∀ parent ∈ inherited ++ prepended, parent.methods.keys.Nodup) (method : String) :
    ((env.classParts name entry).table name inherited prepended).overloads? method =
      entry.overloads? env lookup name method := by
  have hdistinct_inherited : ∀ parent ∈ (env.classParts name entry).inherited.zip inherited,
      parent.2.methods.keys.Nodup :=
    fun _ hmem ↦ hdistinct _ (List.mem_append_left _ (List.of_mem_zip hmem).2)
  have hdistinct_prepended : ∀ parent ∈ (env.classParts name entry).prepended.zip prepended,
      parent.2.methods.keys.Nodup :=
    fun _ hmem ↦ hdistinct _ (List.mem_append_right _ (List.of_mem_zip hmem).2)
  have hsuper : ∀ written : Option (Parent × List String),
      lastSome? (parentOverloads? env lookup method) written.toList =
        written.bind (parentOverloads? env lookup method) := by
    rintro (_ | written) <;> simp [lastSome?]
  rw [Parts.table, Methods.overloads?_foldl_inherit _ hdistinct_prepended,
    Methods.overloads?_foldl_declare, Methods.overloads?_foldl_inherit _ hdistinct_inherited,
    filterMap_classParts_own]
  rw [classParts_inherited] at hinherited ⊢
  rw [classParts_prepended] at hprepended ⊢
  rw [lastSome?_offered hinherited, lastSome?_offered hprepended, lastSome?_append, hsuper]
  simp only [Methods.overloads?, OrderedMap.get?_empty, Option.map_none, Option.or_none]
  rfl

/-- An absolute name is declared as a class or module, which no class alias hides. -/
structure DeclaresClass (env : Environment) (name : TypeName) (entry : ClassEntry) : Prop where
  kind : name.kind = .class_
  declared : env.classes.get? name = some entry
  unhidden : env.classAliases.get? name = none

theorem DeclaresClass.blueprint? {name : TypeName} {entry : ClassEntry}
    (h : env.DeclaresClass name entry) :
    env.blueprint? name = some (.made (env.classParts name entry)) := by
  rw [Environment.blueprint?, h.kind, h.unhidden, h.declared]
  rfl

/-- The definitions that a class is made of are those that its ancestors are looked up to. -/
theorem Derives.exists_parts {name : TypeName} {definition : InstanceDefinition}
    {parts : Parts} (h : env.Derives name definition)
    (hblueprint : env.blueprint? name = some (.made parts)) :
    ∃ inherited prepended,
      List.Forall₂ (fun ancestor parent ↦ env.definition ancestor.name = .ok parent)
        parts.inherited inherited ∧
      List.Forall₂ (fun ancestor parent ↦ env.definition ancestor.name = .ok parent)
        parts.prepended prepended ∧
      (∀ parent ∈ inherited ++ prepended, parent.methods.keys.Nodup) ∧
      parts.assemble name inherited prepended = .ok definition := by
  cases h with
  | intro blueprint definitions hblueprint' hlength hderives hmake =>
    rw [hblueprint] at hblueprint'
    cases hblueprint'
    have hdependencies : List.Forall₂ (fun other parent ↦ env.Derives other.rooted parent)
        ((parts.inherited ++ parts.prepended).map Ancestor.name) definitions :=
      List.forall₂_iff_zip.2 ⟨hlength, fun hmem ↦ hderives _ _ hmem⟩
    have hall := List.forall₂_map_left_iff.1 hdependencies
    have hlookup : ∀ {ancestors : List Ancestor} {parents : List InstanceDefinition},
        List.Forall₂ (fun ancestor parent ↦ env.Derives ancestor.name.rooted parent) ancestors
          parents →
        List.Forall₂ (fun ancestor parent ↦ env.definition ancestor.name = .ok parent) ancestors
          parents :=
      fun hparents ↦ hparents.imp fun _ _ hderives ↦
        hderives.lookupUpTo_eq_ok rfl (deep_lookupDepth env) fun _ hmem ↦ (by cases hmem)
    refine ⟨definitions.take parts.inherited.length, definitions.drop parts.inherited.length,
      ?_, ?_, ?_, hmake⟩
    · simpa using hlookup (List.forall₂_take parts.inherited.length hall)
    · simpa using hlookup (List.forall₂_drop parts.inherited.length hall)
    · rw [List.take_append_drop]
      intro parent hparent
      rw [← List.map_snd_zip (Nat.le_of_eq hlength.symm)] at hparent
      obtain ⟨⟨other, _⟩, hmem, rfl⟩ := List.mem_map.1 hparent
      exact (hderives other _ hmem).nodup_methods

end Environment

namespace Repository

end Repository

end Signature

end DeclaredMethods
