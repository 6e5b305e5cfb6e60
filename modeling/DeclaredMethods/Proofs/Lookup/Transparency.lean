import DeclaredMethods.Proofs.Lookup.Derivation

/-!
# Remembered definitions

A repository remembers every definition it makes, also those of the names that a looked up name
depends on, and answers from memory before it looks for circles. The answers are the same as without
memory. What is remembered has a derivation, so a remembered name does not depend on any name that
is being looked up: these depend on it. Hence it would be found in full at that place too.

The last section follows a repository through loads and lookups in any order.
-/

namespace DeclaredMethods.Signature

/-- Every remembered definition has a derivation. -/
def Cache.Sound (env : Environment) (cache : Cache) : Prop :=
  ∀ name definition, cache.get? name = some definition → env.Derives name definition

theorem Cache.sound_empty (env : Environment) : Cache.Sound env .empty := by
  intro name definition h
  cases h

/-- Remembering a definition that has a derivation keeps all of them sound. -/
theorem Cache.Sound.insertNew {env : Environment} {cache : Cache} (h : cache.Sound env)
    {name : TypeName} {definition : InstanceDefinition} (hderives : env.Derives name definition) :
    Cache.Sound env (cache.insertNew name definition) := by
  intro other remembered hget
  rw [OrderedMap.insertNew, OrderedMap.get?_alter] at hget
  split at hget
  next heq =>
    subst heq
    cases hpresent : cache.get? name with
    | none =>
      simp only [hpresent, Option.getD_none, Option.some.injEq] at hget
      exact hget ▸ hderives
    | some present =>
      simp only [hpresent, Option.getD_some, Option.some.injEq] at hget
      exact hget ▸ h name present hpresent
  next => exact h other remembered hget

/-- From every sound memory the computation gives the value and leaves a sound memory. -/
def Gives (env : Environment) {α : Type} (computation : StateM Cache α) (value : α) : Prop :=
  ∀ cache, Cache.Sound env cache →
    ∃ cache', computation.run cache = (value, cache') ∧ Cache.Sound env cache'

namespace Gives

variable {env : Environment} {α β : Type}

theorem pure (value : α) : Gives env (Pure.pure value) value :=
  fun cache h ↦ ⟨cache, rfl, h⟩

/-- The memory that the first lookup leaves is sound, so the second one may use it. -/
theorem bind {computation : StateM Cache α} {value : α} {next : α → StateM Cache β} {result : β}
    (h : Gives env computation value) (hnext : Gives env (next value) result) :
    Gives env (computation >>= next) result := by
  intro cache hcache
  obtain ⟨between, hrun, hbetween⟩ := h cache hcache
  obtain ⟨after, hrun', hafter⟩ := hnext between hbetween
  refine ⟨after, ?_, hafter⟩
  rw [StateT.run_bind, hrun]
  exact hrun'

/-- If each lookup gives what the plain one gives, so do all of them together. -/
theorem lookupAll {cached : TypeName → StateM Cache Lookup} {plain : TypeName → Lookup}
    {names : List TypeName} (h : ∀ name ∈ names, Gives env (cached name) (plain name)) :
    Gives env (Signature.lookupAll cached names)
      (Signature.lookupAll (m := Id) plain names) := by
  induction names with
  | nil => exact .pure _
  | cons name names ih =>
    have hrest := ih fun other hmem ↦ h other (List.mem_cons_of_mem _ hmem)
    simp only [Signature.lookupAll]
    refine (h name List.mem_cons_self).bind ?_
    cases hname : plain name with
    | error error =>
      simp only [Bind.bind]
      exact .pure _
    | ok definition =>
      simp only [Bind.bind]
      refine hrest.bind ?_
      cases Signature.lookupAll (m := Id) plain names with
      | error error => exact .pure _
      | ok definitions => exact .pure _

/-- If the lookups of the dependencies give what the plain ones give, so does the step from a name
to its dependencies. -/
theorem buildWith {cached : TypeName → StateM Cache Lookup} {plain : TypeName → Lookup}
    {name : TypeName}
    (h : ∀ blueprint, env.blueprint? name = some blueprint →
      ∀ other ∈ blueprint.dependencies, Gives env (cached other) (plain other)) :
    Gives env (Signature.buildWith env cached name)
      (Id.run (Signature.buildWith env (fun other ↦ Pure.pure (plain other)) name)) := by
  simp only [Signature.buildWith, Id.run]
  cases hblueprint : env.blueprint? name with
  | none => exact .pure _
  | some blueprint =>
    refine (lookupAll (h blueprint hblueprint)).bind ?_
    simp only [Bind.bind, Pure.pure]
    cases Signature.lookupAll (m := Id) plain blueprint.dependencies with
    | error error => exact .pure _
    | ok definitions => exact .pure _

end Gives

namespace Environment

variable {env : Environment}

/-- A remembered name is answered from memory, whatever is being looked up. -/
theorem run_cachedLookupUpTo_of_get? {depth : Nat} {visiting : List TypeName} {name : TypeName}
    {cache : Cache} {definition : InstanceDefinition}
    (h : cache.get? name.rooted = some definition) :
    (env.cachedLookupUpTo (depth + 1) visiting name).run cache = (.ok definition, cache) := by
  rw [cachedLookupUpTo, StateT.run_bind, StateT.run_get, pure_bind, h]
  rfl

/-- A name that is not remembered is looked up like without memory, and what is made is
remembered. -/
theorem gives_remember {computation : StateM Cache Lookup} {plain : Lookup} {name : TypeName}
    (h : Gives env computation plain)
    (hderives : ∀ definition, plain = .ok definition → env.Derives name definition) :
    Gives env (do
      match ← computation with
      | .error error => return .error error
      | .ok definition =>
        modify fun cache => cache.insertNew name definition
        return .ok definition) plain := by
  refine h.bind ?_
  cases plain with
  | error error => exact .pure _
  | ok definition =>
    intro cache hcache
    exact ⟨cache.insertNew name definition, rfl, hcache.insertNew (hderives definition rfl)⟩

/-- A lookup with sound memory gives what the lookup without memory gives, as long as the names
being looked up depend on the name that is asked for. -/
theorem gives_cachedLookupUpTo {depth : Nat} {visiting : List TypeName} (name : TypeName)
    (hdeep : env.Deep depth visiting)
    (hchain : ∀ other ∈ visiting, Relation.TransGen env.DependsOn other name.rooted) :
    Gives env (env.cachedLookupUpTo depth visiting name) (env.lookupUpTo depth visiting name) := by
  induction depth generalizing visiting name with
  | zero => exact .pure _
  | succ depth ih =>
    intro cache hcache
    cases hget : cache.get? name.rooted with
    | some definition =>
      have hderives := hcache _ _ hget
      -- A name on the way here that the remembered name leads back to would close a circle.
      have havoid : ∀ other ∈ visiting,
          ¬Relation.ReflTransGen env.DependsOn name.rooted other := by
        intro other hmem hpath
        exact hderives.not_transGen (.trans_right hpath (hchain other hmem))
      rw [hderives.lookupUpTo_eq_ok rfl hdeep havoid]
      exact ⟨cache, run_cachedLookupUpTo_of_get? hget, hcache⟩
    | none =>
      rw [cachedLookupUpTo, StateT.run_bind, StateT.run_get, pure_bind, hget]
      by_cases hvisiting : visiting.contains name.rooted
      · rw [lookupUpTo, if_pos hvisiting]
        simp only [hvisiting, if_true]
        exact ⟨cache, rfl, hcache⟩
      · have hnew : name.rooted ∉ visiting := by simpa using hvisiting
        have hderives : ∀ definition, env.lookupUpTo (depth + 1) visiting name = .ok definition →
            env.Derives name.rooted definition :=
          fun _ hok ↦ derives_of_lookupUpTo_eq_ok hok
        rw [lookupUpTo, if_neg hvisiting] at hderives ⊢
        simp only [hvisiting]
        refine gives_remember (.buildWith fun blueprint hblueprint other hother ↦ ?_)
          hderives cache hcache
        have hdepends : env.DependsOn name.rooted other.rooted :=
          ⟨blueprint, hblueprint, List.mem_map_of_mem hother⟩
        refine ih other (hdeep.cons hblueprint hnew) fun visited hvisited ↦ ?_
        rcases List.mem_cons.1 hvisited with rfl | hvisited
        · exact .single hdepends
        · exact (hchain visited hvisited).tail hdepends

end Environment

namespace Repository

/-- What is remembered agrees with the declarations. -/
def Sound (repository : Repository) : Prop :=
  Cache.Sound repository.environment repository.cache

/-- A repository starts with nothing to remember. -/
theorem sound_ofEnvironment (env : Environment) : (ofEnvironment env).Sound :=
  Cache.sound_empty env

/-- A lookup answers like the environment alone, and keeps the environment and soundness. -/
theorem Sound.lookup {repository : Repository} (h : repository.Sound) (name : TypeName) :
    (repository.lookup name).1 = repository.environment.definition name ∧
      (repository.lookup name).2.environment = repository.environment ∧
      (repository.lookup name).2.Sound := by
  obtain ⟨cache, hrun, hcache⟩ := Environment.gives_cachedLookupUpTo name
    (Environment.deep_lookupDepth repository.environment) (fun _ hmem ↦ (by cases hmem))
    repository.cache h
  have hlookup : repository.lookup name =
      (repository.environment.definition name, ⟨repository.environment, cache⟩) := by
    rw [Repository.lookup, hrun]
    rfl
  rw [hlookup]
  exact ⟨rfl, rfl, hcache⟩

end Repository

/-- What a repository can be asked to do. -/
inductive Request where
  | load (source : String)
  | lookup (name : TypeName)

def Request.accepted? : Request → Option String
  | load source => if (parseSignature source).isOk then some source else none
  | lookup _ => none

namespace Repository

/-- The repository behind a request. A load that fails leaves it as it was. -/
def perform (repository : Repository) : Request → Repository
  | .load source => (repository.load source).toOption.getD repository
  | .lookup name => (repository.lookup name).2

def performAll (repository : Repository) (requests : List Request) : Repository :=
  requests.foldl perform repository

/-- One request keeps soundness, and changes the environment only if it is a load that succeeds,
to the environment that this load gives without memory. -/
theorem Sound.perform {repository : Repository} (h : repository.Sound) (request : Request) :
    (repository.perform request).Sound ∧
      ((request.accepted? = none ∧
          (repository.perform request).environment = repository.environment) ∨
        ∃ source, request.accepted? = some source ∧
          (ofEnvironment repository.environment).load source =
            .ok (ofEnvironment (repository.perform request).environment)) := by
  cases request with
  | lookup name =>
    obtain ⟨_, henv, hsound⟩ := h.lookup name
    exact ⟨hsound, .inl ⟨rfl, henv⟩⟩
  | load source =>
    cases hparse : parseSignature source with
    | error error =>
      have hload : repository.load source = .error error := by
        simp only [Repository.load, Environment.load, hparse, Except.map]
      have hperform : repository.perform (.load source) = repository := by
        simp only [Repository.perform, hload, Except.toOption, Option.getD_none]
      rw [hperform]
      exact ⟨h, .inl ⟨by simp [Request.accepted?, hparse, Except.isOk, Except.toBool], rfl⟩⟩
    | ok declarations =>
      have hload : repository.load source =
          .ok (ofEnvironment (repository.environment.addDeclarations declarations)) := by
        simp only [Repository.load, Environment.load, hparse, Except.map]
      have hperform : repository.perform (.load source) =
          ofEnvironment (repository.environment.addDeclarations declarations) := by
        simp only [Repository.perform, hload, Except.toOption, Option.getD_some]
      rw [hperform]
      refine ⟨sound_ofEnvironment _, .inr ⟨source, ?_, hload⟩⟩
      simp [Request.accepted?, hparse, Except.isOk, Except.toBool]

/-- Behind any requests the repository is sound, and its environment is the one that the successful
loads alone give. -/
theorem Sound.performAll {repository : Repository} (h : repository.Sound)
    (requests : List Request) :
    (repository.performAll requests).Sound ∧
      (requests.filterMap Request.accepted?).foldlM load (ofEnvironment repository.environment) =
        .ok (ofEnvironment (repository.performAll requests).environment) := by
  induction requests generalizing repository with
  | nil => exact ⟨h, rfl⟩
  | cons request requests ih =>
    obtain ⟨hsound, hstep⟩ := h.perform request
    obtain ⟨hafter, hloads⟩ := ih hsound
    refine ⟨hafter, ?_⟩
    rcases hstep with ⟨hrejected, henv⟩ | ⟨source, haccepted, hload⟩
    · rw [List.filterMap_cons_none hrejected, ← henv]
      exact hloads
    · rw [List.filterMap_cons_some haccepted, List.foldlM_cons, hload]
      exact hloads

/-- The successful loads are the same without the other requests. -/
theorem filterMap_accepted?_filter (requests : List Request) :
    (requests.filter fun request ↦ request.accepted?.isSome).filterMap Request.accepted? =
      requests.filterMap Request.accepted? := by
  rw [List.filterMap_filter]
  congr 1
  funext request
  cases request.accepted? <;> rfl

/-- Whatever a repository was asked before, it answers a lookup like a fresh one into which only
the successful loads were made and that remembers nothing. So leaving out the lookups and the failed
loads among the requests changes no answer. -/
theorem lookup_performAll (env : Environment) (requests : List Request) (name : TypeName) :
    (∃ fresh,
      (requests.filterMap Request.accepted?).foldlM load (ofEnvironment env) = .ok fresh ∧
      fresh.cache = .empty ∧
      (((ofEnvironment env).performAll requests).lookup name).1 = (fresh.lookup name).1) ∧
    (((ofEnvironment env).performAll requests).lookup name).1 =
      (((ofEnvironment env).performAll
        (requests.filter fun request ↦ request.accepted?.isSome)).lookup name).1 := by
  obtain ⟨hsound, hloads⟩ := (sound_ofEnvironment env).performAll requests
  have hanswer := (hsound.lookup name).1
  constructor
  · refine ⟨_, hloads, rfl, ?_⟩
    rw [hanswer, ((sound_ofEnvironment _).lookup name).1]
    rfl
  · obtain ⟨hsound', hloads'⟩ := (sound_ofEnvironment env).performAll
      (requests.filter fun request ↦ request.accepted?.isSome)
    rw [filterMap_accepted?_filter, hloads] at hloads'
    have henv : ((ofEnvironment env).performAll requests).environment =
        ((ofEnvironment env).performAll
          (requests.filter fun request ↦ request.accepted?.isSome)).environment := by
      injection Except.ok.inj hloads'
    rw [hanswer, (hsound'.lookup name).1, henv]

end Repository

end DeclaredMethods.Signature
