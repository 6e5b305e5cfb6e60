import DeclaredMethods.Declaration.Collect
import DeclaredMethods.Proofs.OrderedMap.Keys

/-!
# Collecting from several sources

Several sources are collected by one walk that goes through all of them, or each on its own with
the findings merged afterwards. Every step of the walk adds to the end of what was found, or to the
end of the calls of one namespace, so it does not matter whether it is taken before or after
something else was merged in front: each step `Extends` what was found. A walk through several
sources is then a sequence of merges, and merging is associative.
-/

namespace DeclaredMethods

open Source

namespace Declarations

/-- What one walk through several sources finds. -/
def collectAll (files : List SourceFile) : Declarations :=
  files.foldl collectFrom empty

/-- No namespace has two lists of calls or two kinds. -/
structure Distinct (found : Declarations) : Prop where
  calls : found.calls.keys.Nodup
  kinds : found.kinds.keys.Nodup

theorem distinct_empty : empty.Distinct :=
  ⟨List.nodup_nil, List.nodup_nil⟩

/-- What becomes of the calls of a namespace when others are filed behind them. -/
def joinCalls (present : Option (List MethodCall)) (calls : List MethodCall) : List MethodCall :=
  present.getD [] ++ calls

/-- Filing entries one after the other only changes the calls. -/
theorem foldl_addCalls (found : Declarations) (entries : List (Namespace × List MethodCall)) :
    entries.foldl (fun found entry ↦ found.addCalls entry.1 entry.2) found =
      { found with calls := found.calls.mergeAll joinCalls entries } := by
  induction entries generalizing found with
  | nil => rfl
  | cons entry rest ih => exact ih (found.addCalls entry.1 entry.2)

theorem foldl_addKind (found : Declarations) (entries : List (Namespace × NamespaceKind)) :
    entries.foldl (fun found entry ↦ found.addKind entry.1 entry.2) found =
      { found with kinds := found.kinds.mergeAll Option.getD entries } := by
  induction entries generalizing found with
  | nil => rfl
  | cons entry rest ih => exact ih (found.addKind entry.1 entry.2)

/-- Merging appends the calls of a namespace and keeps the first keyword that opened it. -/
theorem merge_eq (left right : Declarations) :
    left.merge right = ⟨left.calls.mergeAll joinCalls right.calls.entries,
      left.kinds.mergeAll Option.getD right.kinds.entries⟩ := by
  rw [merge, foldl_addCalls, foldl_addKind]

/-- A step that can be taken before or after something else is merged in front. -/
def Extends (step : Declarations → Declarations) : Prop :=
  ∀ left right : Declarations, right.Distinct →
    step (left.merge right) = left.merge (step right) ∧ (step right).Distinct

namespace Extends

theorem id : Extends fun found ↦ found :=
  fun _ _ hright ↦ ⟨rfl, hright⟩

/-- Steps that only add to what was found can be taken one after the other. -/
theorem comp {first second : Declarations → Declarations} (h : Extends first)
    (h' : Extends second) : Extends fun found ↦ second (first found) := by
  intro left right hright
  obtain ⟨hfirst, hdistinct⟩ := h left right hright
  obtain ⟨hsecond, hdistinct'⟩ := h' left (first right) hdistinct
  exact ⟨(congrArg second hfirst).trans hsecond, hdistinct'⟩

theorem addCalls (path : Namespace) (calls : List MethodCall) :
    Extends fun found ↦ found.addCalls path calls := by
  intro left right hright
  refine ⟨?_, OrderedMap.nodup_keys_alter hright.calls path _, hright.kinds⟩
  have hcalls : left.calls.mergeAll joinCalls (right.addCalls path calls).calls.entries =
      (left.calls.mergeAll joinCalls right.calls.entries).alter path
        fun present ↦ present.getD [] ++ calls :=
    OrderedMap.mergeAll_alterEntries left.calls hright.calls
      (fun _ _ ↦ List.append_assoc _ _ _) fun _ ↦ rfl
  rw [merge_eq, merge_eq, hcalls]
  rfl

/-- The kind that was noted first stays, on both sides of a merge. -/
theorem addKind (path : Namespace) (kind : NamespaceKind) :
    Extends fun found ↦ found.addKind path kind := by
  intro left right hright
  refine ⟨?_, hright.calls, OrderedMap.nodup_keys_alter hright.kinds path _⟩
  have hkinds : left.kinds.mergeAll Option.getD (right.addKind path kind).kinds.entries =
      (left.kinds.mergeAll Option.getD right.kinds.entries).alter path
        fun present ↦ present.getD kind :=
    OrderedMap.mergeAll_alterEntries left.kinds hright.kinds (fun _ _ ↦ rfl) fun _ ↦ rfl
  rw [merge_eq, merge_eq, hkinds]
  rfl

theorem record (place : Place) (expr : Expr) : Extends fun found ↦ found.record place expr := by
  unfold Declarations.record
  cases declarationOf? expr.node with
  | none => exact .id
  | some declaration => exact .addCalls _ _

theorem enter (inner : Place × Option NamespaceKind) : Extends fun found ↦ found.enter inner := by
  unfold Declarations.enter
  cases inner.2 with
  | none => exact .id
  | some kind => exact .addKind _ kind

end Extends

mutual

/-- A visit extends what was found, as does every part of it. -/
theorem extends_visit (place : Place) : ∀ outline, Extends fun found ↦ visit place outline found
  | .expression expr children => by
    simp only [visit]
    exact (Extends.record place expr).comp (extends_visitParts place _ children)
  | .sequence span statements => by
    simp only [visit]
    exact extends_visitStatements place statements

theorem extends_visitParts (place : Place) (inner : Place × Option NamespaceKind) :
    ∀ outlines, Extends fun found ↦ visitParts place inner outlines found
  | [] => by
    simp only [visitParts]
    exact .id
  | child :: children => by
    simp only [visitParts]
    refine Extends.comp ?_ (extends_visitParts place inner children)
    split
    · exact (Extends.enter inner).comp (extends_visit inner.1 child)
    · exact extends_visit place child

theorem extends_visitStatements (place : Place) :
    ∀ outlines, Extends fun found ↦ visitStatements place outlines found
  | [] => by
    simp only [visitStatements]
    exact .id
  | statement :: statements => by
    simp only [visitStatements]
    split
    · exact extends_visitStatements _ statements
    · exact (extends_visit place statement).comp (extends_visitStatements place statements)

end

/-- A source only adds to what was found before it. -/
theorem extends_collectFrom (file : SourceFile) : Extends fun found ↦ found.collectFrom file :=
  extends_visit .top _

/-- Going on with more sources adds what these sources give on their own. -/
theorem foldl_collectFrom (found : Declarations) (files : List SourceFile) :
    files.foldl collectFrom found = found.merge (collectAll files) ∧
      (collectAll files).Distinct := by
  have hfold : Extends fun found ↦ files.foldl collectFrom found := by
    induction files with
    | nil => exact .id
    | cons file files ih => exact (extends_collectFrom file).comp ih
  exact hfold found empty distinct_empty

/-- Sources can be collected in two parts that are merged. -/
theorem collectAll_append (first second : List SourceFile) :
    collectAll (first ++ second) = (collectAll first).merge (collectAll second) := by
  rw [collectAll, List.foldl_append, (foldl_collectFrom _ second).1]
  rfl

/-- One walk through several sources finds the same as walking through each of them and merging what
was found in order: the same namespaces with the same calls and the same kinds, all in the same
order. So merging what was found in sources is associative. -/
theorem collectAll_eq_foldl_merge :
    (∀ files, collectAll files = (files.map collect).foldl merge empty) ∧
    ∀ first second third,
      ((collectAll first).merge (collectAll second)).merge (collectAll third) =
        (collectAll first).merge ((collectAll second).merge (collectAll third)) := by
  constructor
  · intro files
    have hstep : collectFrom = fun found file ↦ found.merge (collect file) :=
      funext fun found ↦ funext fun file ↦ (foldl_collectFrom found [file]).1
    rw [List.foldl_map, collectAll, hstep]
  · intro first second third
    simp only [← collectAll_append, List.append_assoc]

end Declarations

end DeclaredMethods
