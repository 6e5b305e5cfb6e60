import DeclaredMethods.Document
import DeclaredMethods.Proofs.OrderedMap.Keys
import Mathlib.Data.List.Basic
import Mathlib.Data.List.Forall2

/-!
# Calls without a normal form do not affect a document

A call without a normal form is reported and leaves no trace in the document: the document is that
of the declarations without such calls and without the namespaces that have no calls then. A call
with a normal form always has members, so there is a document as soon as there is such a call.
-/

namespace DeclaredMethods

def hasNormalForm (path : Namespace) (call : MethodCall) : Bool :=
  match normalize path call with
  | .ok _ => true
  | .error _ => false

namespace Declarations

/-- All calls with their namespaces: namespace by namespace, and in order within each. -/
def placedCalls (found : Declarations) : List (Namespace × MethodCall) :=
  found.calls.entries.flatMap fun entry ↦ entry.2.map fun call ↦ (entry.1, call)

/-- A namespace with those of its calls that have a normal form, if there are any. -/
def normalCalls? (entry : Namespace × List MethodCall) : Option (Namespace × List MethodCall) :=
  let kept := entry.2.filter (hasNormalForm entry.1)
  if kept.isEmpty then none else some (entry.1, kept)

/-- What is left when every call without a normal form is deleted, and then every namespace that
has no calls left. -/
def normalPart (found : Declarations) : Declarations :=
  let calls : OrderedMap Namespace (List MethodCall) :=
    ⟨found.calls.entries.filterMap normalCalls?⟩
  let isLeft (path : Namespace) : Bool := !found.calls.contains path || calls.contains path
  ⟨calls, ⟨found.kinds.entries.filter fun entry ↦ isLeft entry.1⟩⟩

end Declarations

/-- A call is reported with its kind and place and the reason why it has no normal form. -/
structure ReportedAs (placed : Namespace × MethodCall) (skipped : SkippedCall) : Prop where
  kind : skipped.kind = placed.2.kind
  path : skipped.path = placed.1
  span : skipped.span = placed.2.span
  error : normalize placed.1 placed.2 = .error skipped.error

/-- Every declaration has a member, so a namespace with a normal form has a block. -/
theorem declarationMembers_ne_nil (source : DefinitionSource) (declaration : Declaration) :
    declarationMembers source declaration ≠ [] := by
  match declaration with
  | .attribute declared => simp [declarationMembers, attributeMembers]
  | .delegate delegate => simp [declarationMembers]

theorem exists_of_bind_eq_ok {ε α β : Type} {first : Except ε α} {next : α → Except ε β}
    {result : β} (h : first >>= next = .ok result) :
    ∃ value, first = .ok value ∧ next value = .ok result := by
  cases first with
  | error error => cases h
  | ok value => exact ⟨value, rfl, h⟩

theorem declaredNames_ne_nil {kind : DeclarationKind} {values : List Value} {names : List String}
    (h : declaredNames kind values = .ok names) : names ≠ [] := by
  cases values with
  | nil => cases h
  | cons value values =>
    rw [declaredNames, if_neg (by simp), List.mapM_cons] at h
    obtain ⟨name, -, h⟩ := exists_of_bind_eq_ok h
    obtain ⟨others, -, h⟩ := exists_of_bind_eq_ok h
    cases h
    exact List.cons_ne_nil name others

/-- A normal form has at least one declaration, since a call without names has none. -/
theorem normalize_ne_nil {path : Namespace} {call : MethodCall} {declarations : List Declaration}
    (h : normalize path call = .ok declarations) : declarations ≠ [] := by
  obtain ⟨values, -, h⟩ := exists_of_bind_eq_ok h
  obtain ⟨names, hnames, h⟩ := exists_of_bind_eq_ok h
  have hne := declaredNames_ne_nil hnames
  cases hkind : call.kind with
  | classAttribute =>
    simp only [hkind] at h
    cases h
    simpa using hne
  | delegate =>
    simp only [hkind] at h
    obtain ⟨delegates, hdelegates, h⟩ := exists_of_bind_eq_ok h
    obtain ⟨target, -, hdelegates⟩ := exists_of_bind_eq_ok hdelegates
    obtain ⟨front, -, hdelegates⟩ := exists_of_bind_eq_ok hdelegates
    cases hdelegates
    cases h
    simpa using hne

/-- Exactly the calls without a normal form have no members. -/
theorem callMembers_eq_nil_iff {source : DefinitionSource} {path : Namespace} {call : MethodCall} :
    callMembers source path call = [] ↔ hasNormalForm path call = false := by
  unfold callMembers hasNormalForm
  cases h : normalize path call with
  | error error => simp
  | ok declarations =>
    obtain ⟨first, rest, rfl⟩ := List.exists_cons_of_ne_nil (normalize_ne_nil h)
    simp [declarationMembers_ne_nil]

/-- Calls without a normal form have no members. -/
theorem flatMap_callMembers_filter (source : DefinitionSource) (path : Namespace)
    (calls : List MethodCall) :
    (calls.filter (hasNormalForm path)).flatMap (callMembers source path) =
      calls.flatMap (callMembers source path) := by
  induction calls with
  | nil => rfl
  | cons call calls ih =>
    cases h : hasNormalForm path call with
    | true => simp [h, ih]
    | false => simp [h, ih, callMembers_eq_nil_iff.2 h]

section Blocks

variable (source : DefinitionSource) {found : Declarations}

/-- A namespace has no block exactly if none of its calls has a normal form. -/
theorem block?_eq_none_iff {entry : Namespace × List MethodCall} :
    block? source found entry = none ↔ ∀ call ∈ entry.2, hasNormalForm entry.1 call = false := by
  simp only [block?, ite_eq_left_iff, reduceCtorEq, imp_false, not_not, List.isEmpty_iff,
    List.flatMap_eq_nil_iff, callMembers_eq_nil_iff]

/-- A namespace has the same block without the calls that have no normal form, and none if nothing
else is left. -/
theorem bind_normalCalls? (entry : Namespace × List MethodCall) :
    (Declarations.normalCalls? entry).bind (block? source found) = block? source found entry := by
  simp only [Declarations.normalCalls?]
  split
  next hempty =>
    have hnone : ∀ call ∈ entry.2, hasNormalForm entry.1 call = false := by
      simpa [List.filter_eq_nil_iff] using hempty
    rw [(block?_eq_none_iff source).2 hnone]
    rfl
  next => simp only [Option.bind_some, block?, flatMap_callMembers_filter]

/-- Leaving out the calls without a normal form does not change the document. -/
theorem document?_eq_of_calls (found kept : Declarations)
    (hcalls : kept.calls.entries = found.calls.entries.filterMap Declarations.normalCalls?)
    (hkinds : ∀ path ∈ kept.calls.keys, kept.namespaceKind path = found.namespaceKind path) :
    document? source kept = document? source found := by
  have hblocks : kept.calls.entries.filterMap (block? source kept) =
      kept.calls.entries.filterMap (block? source found) := by
    refine List.filterMap_congr fun entry hentry ↦ ?_
    simp only [block?, blockText, hkinds entry.1 (List.mem_map_of_mem hentry)]
  rw [document?, document?, hblocks, hcalls, List.filterMap_filterMap]
  simp only [bind_normalCalls?]

/-- There is no document exactly if no call has a normal form. -/
theorem document?_eq_none_iff :
    document? source found = none ↔
      ∀ placed ∈ found.placedCalls, hasNormalForm placed.1 placed.2 = false := by
  have hdocument : document? source found = none ↔
      found.calls.entries.filterMap (block? source found) = [] := by
    unfold document?
    split <;> simp_all
  simp only [hdocument, List.filterMap_eq_nil_iff, block?_eq_none_iff, Declarations.placedCalls,
    List.forall_mem_flatMap, List.forall_mem_map]

end Blocks

/-- What is left are the calls with a normal form, in the same order. -/
theorem placedCalls_normalPart (found : Declarations) :
    found.normalPart.placedCalls =
      found.placedCalls.filter fun placed ↦ hasNormalForm placed.1 placed.2 := by
  simp only [Declarations.placedCalls, Declarations.normalPart, List.filter_flatMap,
    List.filterMap_eq_flatMap_toList, List.flatMap_assoc]
  congr 1
  funext entry
  rw [List.filter_map, Declarations.normalCalls?]
  split
  next hempty => simp [Function.comp_def, List.isEmpty_iff.1 hempty]
  next => simp [Function.comp_def]

/-- The calls that are left out are found namespace by namespace, in order. -/
theorem skippedCalls_eq (found : Declarations) :
    skippedCalls found =
      found.placedCalls.filterMap fun placed ↦ skippedCall? placed.1 placed.2 := by
  simp only [skippedCalls, Declarations.placedCalls, List.filterMap_flatMap, List.filterMap_map]
  rfl

theorem forall₂_reportedAs (placed : List (Namespace × MethodCall)) :
    List.Forall₂ ReportedAs (placed.filter fun call ↦ !hasNormalForm call.1 call.2)
      (placed.filterMap fun call ↦ skippedCall? call.1 call.2) := by
  induction placed with
  | nil => exact .nil
  | cons call placed ih =>
    cases h : normalize call.1 call.2 with
    | ok declarations => simpa [hasNormalForm, skippedCall?, h] using ih
    | error error =>
      simp only [hasNormalForm, skippedCall?, h, List.filter_cons, List.filterMap_cons]
      exact .cons ⟨rfl, rfl, rfl, h⟩ ih

/-- Calls without a normal form are isolated. The document is the same as without them, and as
without the namespaces that have no calls then; whether the kinds of these namespaces are deleted
too makes no difference. Exactly these calls are reported, namespace by namespace and in order
within each, with their own errors. There is no document exactly if no call has a normal form. -/
theorem generate_isolates_failures (source : DefinitionSource) (found : Declarations) :
    (generate source found).document = (generate source found.normalPart).document ∧
    (generate source found).document =
      (generate source { found.normalPart with kinds := found.kinds }).document ∧
    List.Forall₂ ReportedAs
      (found.placedCalls.filter fun placed ↦ !hasNormalForm placed.1 placed.2)
      (generate source found).skipped ∧
    (generate source found.normalPart).skipped = [] ∧
    ((generate source found).document = none ↔
      ∀ placed ∈ found.placedCalls, hasNormalForm placed.1 placed.2 = false) := by
  refine ⟨?_, ?_, ?_, ?_, document?_eq_none_iff source⟩
  · refine (document?_eq_of_calls source found found.normalPart rfl ?_).symm
    intro path hpath
    have hleft : found.normalPart.calls.contains path = true :=
      OrderedMap.contains_of_mem_keys hpath
    refine congrArg (Option.getD · _) (OrderedMap.lookup_filter fun kind ↦ ?_)
    exact Bool.or_eq_true_iff.2 (.inr hleft)
  · exact (document?_eq_of_calls source found { found.normalPart with kinds := found.kinds } rfl
      fun _ _ ↦ rfl).symm
  · rw [generate, skippedCalls_eq]
    exact forall₂_reportedAs found.placedCalls
  · have hreported := forall₂_reportedAs found.normalPart.placedCalls
    rw [← skippedCalls_eq, placedCalls_normalPart, List.filter_filter] at hreported
    simpa [generate] using hreported

end DeclaredMethods
