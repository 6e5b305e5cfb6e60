import DeclaredMethods.Delegation
import Mathlib.Data.List.Basic
import Mathlib.Data.List.Nodup

/-!
# Which signatures a forwarded method has

The search for the signatures of a forwarded method removes repetitions twice, first among the
names of the types that the target can return and then among the printed overloads, and lookups
that fail drop out in between. `firstOccurrences` says what each removal keeps, item by item.

A returned type contributes if it has a single name and the method is found on the type of that
name. Types that do not contribute can be inserted and removed without any effect, since removing
repetitions and removing items that fail a test can be exchanged.
-/

namespace DeclaredMethods

open Signature (TypeName TypeExpr MethodType)

section FirstOccurrences

variable {α : Type} [DecidableEq α]

/-- The items of a list that do not stand further to the front already. -/
def firstOccurrences (items : List α) : List α :=
  items.zipIdx.filterMap fun (item, index) ↦
    if item ∈ items.take index then none else some item

/-- What is kept when the given items count as seen. -/
theorem distinct_eq_filterMap (seen items : List α) :
    distinct seen items = items.zipIdx.filterMap fun (item, index) ↦
      if item ∈ seen ∨ item ∈ items.take index then none else some item := by
  induction items generalizing seen with
  | nil => rfl
  | cons first items ih =>
    rw [distinct, List.zipIdx_cons', List.filterMap_cons, List.filterMap_map]
    by_cases hseen : first ∈ seen
    · rw [if_pos hseen, ih]
      simp only [hseen, true_or, if_true]
      refine List.filterMap_congr fun ⟨item, index⟩ _ ↦ ?_
      have hiff : item ∈ seen ∨ item ∈ items.take index ↔
          item ∈ seen ∨ item ∈ (first :: items).take (index + 1) := by
        rw [List.take_succ_cons, List.mem_cons]
        grind
      simp only [Function.comp_apply, hiff, Prod.map_apply, id]
    · rw [if_neg hseen, ih]
      simp only [hseen, List.take_zero, List.not_mem_nil, or_self, if_false]
      refine congrArg (first :: ·) (List.filterMap_congr fun ⟨item, index⟩ _ ↦ ?_)
      have hiff : item ∈ first :: seen ∨ item ∈ items.take index ↔
          item ∈ seen ∨ item ∈ (first :: items).take (index + 1) := by
        rw [List.take_succ_cons, List.mem_cons, List.mem_cons]
        grind
      simp only [Function.comp_apply, hiff, Prod.map_apply, id]

theorem distinct_eq_firstOccurrences (items : List α) :
    distinct [] items = firstOccurrences items := by
  rw [distinct_eq_filterMap, firstOccurrences]
  simp only [List.not_mem_nil, false_or]

/-- Leaving out repetitions keeps every item that was not seen before. -/
theorem mem_distinct {seen items : List α} {item : α} :
    item ∈ distinct seen items ↔ item ∈ items ∧ item ∉ seen := by
  induction items generalizing seen with
  | nil => simp only [distinct, List.not_mem_nil, false_and]
  | cons first items ih =>
    rw [distinct]
    split
    · rename_i hfirst
      rw [ih, List.mem_cons]
      grind
    · rename_i hfirst
      rw [List.mem_cons, ih, List.mem_cons, List.mem_cons]
      grind

theorem mem_firstOccurrences {items : List α} {item : α} :
    item ∈ firstOccurrences items ↔ item ∈ items := by
  rw [← distinct_eq_firstOccurrences, mem_distinct, and_iff_left List.not_mem_nil]

theorem nodup_distinct (seen items : List α) : (distinct seen items).Nodup := by
  induction items generalizing seen with
  | nil => exact List.nodup_nil
  | cons first items ih =>
    rw [distinct]
    split
    · exact ih seen
    · refine List.nodup_cons.2 ⟨fun hmem ↦ ?_, ih _⟩
      exact (mem_distinct.1 hmem).2 List.mem_cons_self

/-- Removing repetitions and removing the items that fail a test can be exchanged. Only items that
pass the test have to be the same among the seen ones. -/
theorem distinct_filter (test : α → Bool) (items : List α) {seen seen' : List α}
    (h : ∀ item, test item = true → (item ∈ seen ↔ item ∈ seen')) :
    distinct seen (items.filter test) = (distinct seen' items).filter test := by
  induction items generalizing seen seen' with
  | nil => rfl
  | cons first items ih =>
    by_cases htest : test first = true
    · rw [List.filter_cons_of_pos htest, distinct, distinct]
      by_cases hseen : first ∈ seen
      · rw [if_pos hseen, if_pos ((h first htest).1 hseen)]
        exact ih h
      · rw [if_neg hseen, if_neg (mt (h first htest).2 hseen), List.filter_cons_of_pos htest]
        refine congrArg (first :: ·) (ih fun item hitem ↦ ?_)
        rw [List.mem_cons, List.mem_cons, h item hitem]
    · rw [List.filter_cons_of_neg htest, distinct]
      split
      · exact ih h
      · rw [List.filter_cons_of_neg htest]
        refine ih fun item hitem ↦ ?_
        have hne : item ≠ first := by
          rintro rfl
          exact htest hitem
        rw [h item hitem, List.mem_cons, or_iff_right hne]

/-- Items can be dropped before or after the repetitions are. -/
theorem firstOccurrences_filter (test : α → Bool) (items : List α) :
    firstOccurrences (items.filter test) = (firstOccurrences items).filter test := by
  rw [← distinct_eq_firstOccurrences, ← distinct_eq_firstOccurrences]
  exact distinct_filter test items fun _ _ ↦ Iff.rfl

end FirstOccurrences

/-- The overloads of a method on the instances of a type. A type without a definition, or without
the method, has none. -/
def overloadsOf (source : DefinitionSource) (method : String) (name : TypeName) :
    List MethodType :=
  match source name with
  | .ok definition => (definition.methods.get? method).elim [] fun found ↦ found.overloads
  | .error _ => []

/-- What the target of a delegation returns, overload by overload. At the top level there is no
target. -/
def returnTypes (source : DefinitionSource) (request : Delegation) : List TypeExpr :=
  match TypeName.ofPath? request.path.segments with
  | some owner => (overloadsOf source request.target owner).map MethodType.returnType
  | none => []

/-- The name of a type under at most one question mark, if it has a single one. -/
def returnedName? (type : TypeExpr) : Option TypeName :=
  (withoutOptional type).typeName?

/-- The overloads of a method on what can be returned, in the order of the returned types. Every
type name counts once. -/
def forwardedOverloads (source : DefinitionSource) (method : String) (types : List TypeExpr) :
    List MethodType :=
  (firstOccurrences (types.filterMap returnedName?)).flatMap (overloadsOf source method)

def contributes (source : DefinitionSource) (method : String) (type : TypeExpr) : Bool :=
  (returnedName? type).any fun name ↦ !(overloadsOf source method name).isEmpty

/-- A search finds the overloads of the definition, or none where there is no definition. -/
theorem found_searchMethod (source : DefinitionSource) (name : TypeName) (method : String) :
    (searchMethod source name method).found = overloadsOf source method name := by
  unfold searchMethod overloadsOf Signature.InstanceDefinition.method?
  cases source name with
  | error error => rfl
  | ok definition =>
    dsimp only
    cases definition.methods.get? method with
    | none => rfl
    | some found => rfl

/-- The types a target can return are those of all its overloads. -/
theorem targetTypes_eq_returnTypes (source : DefinitionSource) (request : Delegation) :
    targetTypes source request = returnTypes source request := by
  unfold targetTypes searchTarget returnTypes Delegation.owner?
  cases TypeName.ofPath? request.path.segments with
  | none => rfl
  | some owner =>
    dsimp only
    rw [found_searchMethod]

theorem any_isAny_iff {types : List TypeExpr} :
    types.any TypeExpr.isAny = true ↔ .any ∈ types := by
  rw [List.any_eq_true]
  constructor
  · rintro ⟨type, hmem, hany⟩
    cases type with
    | any => exact hmem
    | _ => cases hany
  · exact fun hmem ↦ ⟨.any, hmem, rfl⟩

def orUntyped (signatures : List String) : List String :=
  if signatures.isEmpty then [untypedSignature] else signatures

/-- The signatures of a forwarded method in one formula. -/
theorem delegationSignatures_eq (source : DefinitionSource) (request : Delegation) :
    delegationSignatures source request =
      if (returnTypes source request).any TypeExpr.isAny then [untypedSignature]
      else orUntyped (firstOccurrences ((forwardedOverloads source request.method
        (returnTypes source request)).map MethodType.text)) := by
  have hcandidates : ((candidateNames (returnTypes source request)).flatMap fun name ↦
      (searchMethod source name request.method).found) =
        forwardedOverloads source request.method (returnTypes source request) := by
    simp only [found_searchMethod, candidateNames, distinct_eq_firstOccurrences]
    rfl
  rw [delegationSignatures, targetTypes_eq_returnTypes, hcandidates]
  dsimp only
  rw [distinct_eq_firstOccurrences]
  cases firstOccurrences ((forwardedOverloads source request.method
    (returnTypes source request)).map MethodType.text) <;> rfl

/-- Where no returned type is untyped, the signatures are those of the method on the returned
types. -/
theorem delegationSignatures_of_not_any {source : DefinitionSource} {request : Delegation}
    (h : .any ∉ returnTypes source request) :
    delegationSignatures source request =
      orUntyped (firstOccurrences ((forwardedOverloads source request.method
        (returnTypes source request)).map MethodType.text)) := by
  rw [delegationSignatures_eq, if_neg (mt any_isAny_iff.1 h)]

/-- Types that contribute nothing do not matter. -/
theorem forwardedOverloads_filter (source : DefinitionSource) (method : String)
    (types : List TypeExpr) :
    forwardedOverloads source method (types.filter (contributes source method)) =
      forwardedOverloads source method types := by
  let isFound (name : TypeName) : Bool := !(overloadsOf source method name).isEmpty
  have hnames : (types.filter (contributes source method)).filterMap returnedName? =
      (types.filterMap returnedName?).filter isFound := by
    rw [List.filterMap_filter, List.filter_filterMap]
    refine List.filterMap_congr fun type _ ↦ ?_
    unfold contributes
    cases returnedName? type with
    | none => rfl
    | some name => simp only [Option.any_some, Option.filter_some, isFound]
  have hflat (names : List TypeName) :
      (names.filter isFound).flatMap (overloadsOf source method) =
        names.flatMap (overloadsOf source method) := by
    induction names with
    | nil => rfl
    | cons name names ih =>
      cases hname : overloadsOf source method name with
      | nil =>
        rw [List.filter_cons_of_neg (by simp [isFound, hname]), ih, List.flatMap_cons, hname,
          List.nil_append]
      | cons overload overloads =>
        rw [List.filter_cons_of_pos (by simp [isFound, hname]), List.flatMap_cons, ih,
          List.flatMap_cons]
  rw [forwardedOverloads, hnames, firstOccurrences_filter, hflat, forwardedOverloads]

/-- The overloads depend on what is found on the returned types only. -/
theorem forwardedOverloads_congr {source source' : DefinitionSource} {method : String}
    {types : List TypeExpr}
    (h : ∀ type ∈ types, ∀ name, returnedName? type = some name →
      overloadsOf source method name = overloadsOf source' method name) :
    forwardedOverloads source method types = forwardedOverloads source' method types := by
  refine List.flatMap_congr fun name hname ↦ ?_
  obtain ⟨type, htype, hreturned⟩ := List.mem_filterMap.1 (mem_firstOccurrences.1 hname)
  exact h type htype name hreturned

end DeclaredMethods
