import DeclaredMethods.Proofs.Lookup.Classification
import DeclaredMethods.Proofs.Validity.Rebuilding

/-!
# Names for use outside their namespace

A name that is written in a namespace stands for the declaration in the innermost namespace around
it that has one, and for the name at the root if there is none. Method types are looked at from
outside the namespace they are written in, so their names are kept in a form that stands for the
same from the root. This concerns the names at all places of a method type and nothing else.
-/

namespace DeclaredMethods.Signature

namespace Environment

/-- A relative name stands for the declaration in the innermost namespace around it that has one,
and for the name at the root if none has. -/
inductive StandsFor (env : Environment) (context : List String) (name : TypeName) :
    TypeName → Prop
  | absolute (habsolute : name.absolute = true) : StandsFor env context name name
  | nested {outer inner : List String} (hrelative : name.absolute = false)
      (hcontext : context = outer ++ inner)
      (hdeclared : env.contains ⟨outer ++ name.path, name.name, true⟩ = true)
      (hinnermost : ∀ closer further, context = closer ++ further →
        outer.length < closer.length →
          env.contains ⟨closer ++ name.path, name.name, true⟩ = false) :
      StandsFor env context name ⟨outer ++ name.path, name.name, true⟩
  | root (hrelative : name.absolute = false)
      (hundeclared : ∀ outer inner, context = outer ++ inner →
        env.contains ⟨outer ++ name.path, name.name, true⟩ = false) :
      StandsFor env context name ⟨name.path, name.name, true⟩

variable {env : Environment} {context : List String} {name target : TypeName}

/-- The namespaces around a place are the initial parts of its path. -/
theorem mem_enclosing {outer : List String} :
    outer ∈ enclosing context ↔ ∃ inner, context = outer ++ inner := by
  rw [enclosing, List.mem_map]
  constructor
  · rintro ⟨depth, -, rfl⟩
    exact ⟨context.drop depth, (List.take_append_drop depth context).symm⟩
  · rintro ⟨inner, rfl⟩
    refine ⟨outer.length, ?_, List.take_left⟩
    rw [List.mem_reverse, List.mem_range, List.length_append]
    omega

/-- The longer namespaces come first. -/
theorem pairwise_enclosing (context : List String) :
    (enclosing context).Pairwise fun closer outer ↦ outer.length < closer.length := by
  rw [enclosing, List.pairwise_map, List.pairwise_reverse]
  refine List.pairwise_lt_range.imp_of_mem fun hless hgreater hlt ↦ ?_
  rw [List.mem_range] at hless hgreater
  rw [List.length_take, List.length_take]
  omega

/-- The absolute name that is found for a name is the one it stands for. -/
theorem standsFor_resolve (env : Environment) (context : List String) (name : TypeName) :
    env.StandsFor context name (env.resolve name context) := by
  cases habsolute : name.absolute with
  | true =>
    rw [resolve, if_pos habsolute]
    exact .absolute habsolute
  | false =>
    have hrelative : ¬name.absolute = true := by simp [habsolute]
    have hplace (outer : List String) :
        name.inContext outer = ⟨outer ++ name.path, name.name, true⟩ := by
      rw [TypeName.inContext, if_neg hrelative]
    rw [resolve, if_neg hrelative, List.find?_map]
    cases hfound : (enclosing context).find? (env.contains ∘ name.inContext) with
    | none =>
      refine .root habsolute fun outer inner hcontext ↦ ?_
      have hnone := List.find?_eq_none.1 hfound outer (mem_enclosing.2 ⟨inner, hcontext⟩)
      rwa [Function.comp_apply, hplace, Bool.not_eq_true] at hnone
    | some outer =>
      obtain ⟨hdeclared, before, after, hsplit, hbefore⟩ := List.find?_eq_some_iff_append.1 hfound
      obtain ⟨inner, hcontext⟩ := mem_enclosing.1 (List.mem_of_find?_eq_some hfound)
      rw [Function.comp_apply, hplace] at hdeclared
      rw [Option.map_some, Option.getD_some, hplace]
      refine .nested habsolute hcontext hdeclared fun closer further hcloser hlonger ↦ ?_
      -- A longer namespace stands in front of the one that was found.
      have hmem : closer ∈ before := by
        have hpairwise := pairwise_enclosing context
        rw [hsplit, List.pairwise_append, List.pairwise_cons] at hpairwise
        have hmem := mem_enclosing.2 ⟨further, hcloser⟩
        rw [hsplit, List.mem_append, List.mem_cons] at hmem
        rcases hmem with hmem | rfl | hmem
        · exact hmem
        · exact absurd hlonger (Nat.lt_irrefl _)
        · exact absurd hlonger (Nat.lt_asymm (hpairwise.2.1.1 closer hmem))
      have hnone := hbefore closer hmem
      rwa [Function.comp_apply, hplace, Bool.not_eq_true'] at hnone

/-- A name stands for one name only. -/
theorem StandsFor.unique {other : TypeName} (h : env.StandsFor context name target)
    (hother : env.StandsFor context name other) : target = other := by
  cases h with
  | absolute habsolute =>
    cases hother with
    | absolute => rfl
    | nested hrelative | root hrelative => exact absurd (habsolute.symm.trans hrelative) (by simp)
  | @nested outer inner hrelative hcontext hdeclared hinnermost =>
    cases hother with
    | absolute habsolute => exact absurd (habsolute.symm.trans hrelative) (by simp)
    | @nested outer' inner' _ hcontext' hdeclared' hinnermost' =>
      have hlength : outer.length = outer'.length := by
        rcases Nat.lt_trichotomy outer.length outer'.length with hlt | heq | hlt
        · exact absurd (hdeclared'.symm.trans (hinnermost _ _ hcontext' hlt)) (by simp)
        · exact heq
        · exact absurd (hdeclared.symm.trans (hinnermost' _ _ hcontext hlt)) (by simp)
      rw [(List.append_inj (hcontext.symm.trans hcontext') hlength).1]
    | root _ hundeclared =>
      exact absurd (hdeclared.symm.trans (hundeclared _ _ hcontext)) (by simp)
  | root hrelative hundeclared =>
    cases hother with
    | absolute habsolute => exact absurd (habsolute.symm.trans hrelative) (by simp)
    | nested _ hcontext hdeclared =>
      exact absurd (hdeclared.symm.trans (hundeclared _ _ hcontext)) (by simp)
    | root => rfl

/-- The name that is kept stands from the root for what the written name stands for. -/
theorem rooted_qualify (env : Environment) (context : List String) (name : TypeName) :
    (env.qualify context name).rooted = env.resolve name context := by
  rw [qualify]
  split
  · next habsolute =>
    rw [← rooted_resolve, resolve, if_pos habsolute]
  · next hrelative =>
    dsimp only
    split
    · next hkept =>
      rcases hkept with hkept | hundeclared
      · exact hkept.symm
      · -- A name that is not declared stands for the name at the root.
        rw [Bool.not_eq_true'] at hundeclared
        have hstands := standsFor_resolve env context name
        generalize env.resolve name context = target at hundeclared hstands
        cases hstands with
        | absolute habsolute => exact absurd habsolute hrelative
        | nested _ _ hdeclared => exact absurd (hdeclared.symm.trans hundeclared) (by simp)
        | root => rfl
    · exact rooted_resolve name context

end Environment

/-- A name is looked up from the root. -/
theorem Repository.lookup_rooted (repository : Repository) (name : TypeName) :
    repository.lookup name.rooted = repository.lookup name := by
  have hrooted (depth : Nat) (visiting : List TypeName) :
      repository.environment.cachedLookupUpTo depth visiting name.rooted =
        repository.environment.cachedLookupUpTo depth visiting name := by
    cases depth <;> rfl
  rw [Repository.lookup, Repository.lookup, hrooted]

namespace TypeExpr

/-- What a type is apart from the types it is made of. -/
def frame (type : TypeExpr) : TypeExpr :=
  type.mapParts fun _ ↦ .any

/-- The type at a place inside a type, given by the positions on the way there. -/
def part? (type : TypeExpr) : List Nat → Option TypeExpr
  | [] => some type
  | position :: place => type.components[position]?.bind fun part ↦ part.part? place

end TypeExpr

namespace MethodType

/-- What a method type is apart from the types it is made of: its type parameters, the roles and
names of its parameters, and whether there is a block. -/
def frame (method : MethodType) : MethodType :=
  method.mapParts fun _ ↦ .any

def part? (method : MethodType) : List Nat → Option TypeExpr
  | [] => none
  | position :: place => method.types[position]?.bind fun type ↦ type.part? place

def nameAt? (method : MethodType) (place : List Nat) : Option TypeName :=
  (method.part? place).bind TypeExpr.typeName?

end MethodType

section Renaming

variable (f : TypeName → TypeName)

namespace TypeExpr

theorem components_rename (type : TypeExpr) : (type.rename f).components = type.components := by
  cases type <;> rfl

/-- Renaming a type changes nothing of its own but its name. -/
theorem frame_rename (type : TypeExpr) : (type.rename f).frame = type.frame.rename f := by
  cases type <;> rfl

theorem typeName?_rename (type : TypeExpr) : (type.rename f).typeName? = type.typeName?.map f := by
  cases type <;> rfl

theorem typeName?_mapParts (g : TypeExpr → TypeExpr) (type : TypeExpr) :
    (type.mapParts g).typeName? = type.typeName? := by
  cases type <;> rfl

theorem frame_mapParts (g : TypeExpr → TypeExpr) (type : TypeExpr) :
    (type.mapParts g).frame = type.frame := by
  cases type with
  | proc method =>
    exact congrArg proc (method.mapParts_mapParts g fun _ ↦ .any)
  | _ => simp only [frame, mapParts, List.map_map, Function.comp_def]

/-- Renaming goes into all components. -/
theorem components_mapNames (type : TypeExpr) :
    (type.mapNames f).components = type.components.map (mapNames f) := by
  rw [mapNames, map_eq, components_rename, components_mapParts]
  rfl

theorem frame_mapNames (type : TypeExpr) : (type.mapNames f).frame = type.frame.rename f := by
  rw [mapNames, map_eq, frame_rename, frame_mapParts]

theorem typeName?_mapNames (type : TypeExpr) :
    (type.mapNames f).typeName? = type.typeName?.map f := by
  rw [mapNames, map_eq, typeName?_rename, typeName?_mapParts]

/-- The part at a place is renamed where it stands. -/
theorem part?_mapNames (place : List Nat) (type : TypeExpr) :
    (type.mapNames f).part? place = (type.part? place).map (mapNames f) := by
  induction place generalizing type with
  | nil => rfl
  | cons position place ih =>
    rw [part?, part?, components_mapNames, List.getElem?_map]
    cases type.components[position]? with
    | none => rfl
    | some part => exact ih part

end TypeExpr

namespace MethodType

theorem frame_mapNames (method : MethodType) : (method.mapNames f).frame = method.frame := by
  rw [mapNames, map_eq_mapParts, frame, mapParts_mapParts]
  rfl

/-- Renaming is done at every place. -/
theorem part?_mapNames (place : List Nat) (method : MethodType) :
    (method.mapNames f).part? place = (method.part? place).map (TypeExpr.mapNames f) := by
  cases place with
  | nil => rfl
  | cons position place =>
    rw [part?, part?, mapNames, map_eq_mapParts, types_mapParts, List.getElem?_map]
    cases method.types[position]? with
    | none => rfl
    | some type => exact type.part?_mapNames f place

/-- The name at a place is renamed where it stands, and there are no new places. -/
theorem nameAt?_mapNames (place : List Nat) (method : MethodType) :
    (method.mapNames f).nameAt? place = (method.nameAt? place).map f := by
  rw [nameAt?, nameAt?, part?_mapNames]
  cases method.part? place with
  | none => rfl
  | some type => exact type.typeName?_mapNames f

end MethodType

end Renaming

/-- Keeping names for use elsewhere preserves their meaning. A name that is kept stands from the
root for what the written name stands for in its namespace. A method type keeps its form at every
place, and each name in it is looked up, whatever definitions are remembered, with the result for
what the name written at that place stands for. -/
theorem qualifyMethod_preserves_meaning (env : Environment) (context : List String) :
    (∀ name target, env.StandsFor context name target ↔
      (env.qualify context name).rooted = target) ∧
    (∀ name, (env.qualify context name).rooted = env.resolve name context) ∧
    ∀ method : MethodType,
      (env.qualifyMethod context method).frame = method.frame ∧
      (∀ place, ((env.qualifyMethod context method).part? place).map TypeExpr.frame =
        (method.part? place).map fun type ↦ type.frame.rename (env.qualify context)) ∧
      ∀ place kept, (env.qualifyMethod context method).nameAt? place = some kept →
        ∃ written target, method.nameAt? place = some written ∧
          env.StandsFor context written target ∧
          ∀ cache : Cache,
            (Repository.mk env cache).lookup kept = (Repository.mk env cache).lookup target := by
  refine ⟨fun name target ↦ ?_, env.rooted_qualify context, fun method ↦
    ⟨method.frame_mapNames _, fun place ↦ ?_, fun place kept hkept ↦ ?_⟩⟩
  · rw [env.rooted_qualify]
    constructor
    · exact (env.standsFor_resolve context name).unique
    · rintro rfl
      exact env.standsFor_resolve context name
  · rw [Environment.qualifyMethod, MethodType.part?_mapNames, Option.map_map]
    exact congrArg (Option.map · _) (funext fun type ↦ type.frame_mapNames _)
  · rw [Environment.qualifyMethod, MethodType.nameAt?_mapNames, Option.map_eq_some_iff] at hkept
    obtain ⟨written, hwritten, rfl⟩ := hkept
    refine ⟨written, _, hwritten, env.standsFor_resolve context written, fun cache ↦ ?_⟩
    rw [← Repository.lookup_rooted, env.rooted_qualify]

end DeclaredMethods.Signature
