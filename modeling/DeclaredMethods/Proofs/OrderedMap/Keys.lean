import DeclaredMethods.OrderedMap
import Mathlib.Data.List.Induction
import Mathlib.Data.List.Nodup
import Mathlib.Tactic.Tauto

/-!
# Tables without repeated keys

What is known about the keys of a table, and what entries with distinct keys do to a table they are
added to. Altering two keys can be done in either order as soon as one of them is present, since a
key that is present keeps its place.
-/

namespace DeclaredMethods.OrderedMap

variable {κ ν : Type} [DecidableEq κ]

/-- Altering an entry adds its key if it is not there, and no other. -/
theorem mem_keys_alterEntries {key other : κ} {f : Option ν → ν} {entries : List (κ × ν)} :
    other ∈ (alterEntries key f entries).map Prod.fst ↔
      other = key ∨ other ∈ entries.map Prod.fst := by
  induction entries with
  | nil => simp [alterEntries]
  | cons entry rest ih =>
    by_cases hkey : entry.1 = key
    · simp [alterEntries, hkey]
    · simp only [alterEntries, hkey, if_false, List.map_cons, List.mem_cons, ih]
      tauto

/-- Altering an entry keeps the keys distinct. -/
theorem nodup_keys_alter {m : OrderedMap κ ν} (h : m.keys.Nodup) (key : κ) (f : Option ν → ν) :
    (m.alter key f).keys.Nodup := by
  obtain ⟨entries⟩ := m
  simp only [keys, alter] at h ⊢
  induction entries with
  | nil => simp [alterEntries]
  | cons entry rest ih =>
    rw [List.map_cons, List.nodup_cons] at h
    by_cases hkey : entry.1 = key
    · simpa [alterEntries, hkey] using h
    · rw [alterEntries, if_neg hkey, List.map_cons, List.nodup_cons, mem_keys_alterEntries, not_or]
      exact ⟨⟨hkey, h.1⟩, ih h.2⟩

/-- Keys stay distinct whatever is inserted. -/
theorem nodup_keys_insertAll {m : OrderedMap κ ν} (h : m.keys.Nodup) (entries : List (κ × ν)) :
    (m.insertAll entries).keys.Nodup := by
  induction entries generalizing m with
  | nil => exact h
  | cons entry rest ih => exact ih (nodup_keys_alter h entry.1 _)

theorem lookup_eq_none {key : κ} {entries : List (κ × ν)} (h : key ∉ entries.map Prod.fst) :
    lookup key entries = none := by
  induction entries with
  | nil => rfl
  | cons entry rest ih =>
    rw [List.map_cons, List.mem_cons, not_or] at h
    rw [lookup, if_neg (Ne.symm h.1), ih h.2]

theorem mem_keys_of_get? {m : OrderedMap κ ν} {key : κ} {value : ν}
    (h : m.get? key = some value) : key ∈ m.keys := by
  by_contra hkey
  rw [get?, lookup_eq_none hkey] at h
  cases h

theorem lookup_map {μ : Type} (key : κ) (f : ν → μ) (entries : List (κ × ν)) :
    lookup key (entries.map fun entry ↦ (entry.1, f entry.2)) = (lookup key entries).map f := by
  induction entries with
  | nil => rfl
  | cons entry rest ih =>
    by_cases hkey : entry.1 = key <;> simp [lookup, hkey, ih]

theorem lookup_append (key : κ) (entries entries' : List (κ × ν)) :
    lookup key (entries ++ entries') = (lookup key entries).or (lookup key entries') := by
  induction entries with
  | nil => rfl
  | cons entry rest ih =>
    rw [List.cons_append, lookup, lookup, ih]
    split <;> rfl

/-- The value of a key does not depend on the entries of other keys. -/
theorem lookup_filter {key : κ} {keep : κ × ν → Bool} {entries : List (κ × ν)}
    (h : ∀ value, keep (key, value) = true) :
    lookup key (entries.filter keep) = lookup key entries := by
  induction entries with
  | nil => rfl
  | cons entry rest ih =>
    obtain ⟨other, value⟩ := entry
    by_cases hkey : other = key
    · subst hkey
      simp [h, lookup]
    · by_cases hkeep : keep (other, value) = true <;> simp [hkeep, lookup, hkey, ih]

theorem contains_of_mem_keys {m : OrderedMap κ ν} {key : κ} (h : key ∈ m.keys) :
    m.contains key = true := by
  obtain ⟨entries⟩ := m
  simp only [contains, get?, keys] at h ⊢
  induction entries with
  | nil => cases h
  | cons entry rest ih =>
    by_cases hkey : entry.1 = key
    · simp [lookup, hkey]
    · rw [List.map_cons, List.mem_cons] at h
      rw [lookup, if_neg hkey, ih (h.resolve_left (Ne.symm hkey))]

/-- Entries with distinct keys hide what was there before. -/
theorem get?_insertAll (m : OrderedMap κ ν) {entries : List (κ × ν)}
    (h : (entries.map Prod.fst).Nodup) (key : κ) :
    (m.insertAll entries).get? key = (lookup key entries).or (m.get? key) := by
  induction entries generalizing m with
  | nil => rfl
  | cons entry rest ih =>
    rw [List.map_cons, List.nodup_cons] at h
    have hinsert : m.insertAll (entry :: rest) = (m.insert entry.1 entry.2).insertAll rest := rfl
    rw [hinsert, ih _ h.2, get?_insert, lookup]
    by_cases hkey : entry.1 = key
    · subst hkey
      rw [lookup_eq_none h.1]
      simp
    · simp [hkey]

theorem mem_keys_alter {m : OrderedMap κ ν} {key other : κ} {f : Option ν → ν} :
    other ∈ (m.alter key f).keys ↔ other = key ∨ other ∈ m.keys :=
  mem_keys_alterEntries

/-- Two changes of one entry are one change. -/
theorem alter_alter_self (m : OrderedMap κ ν) (key : κ) (f g : Option ν → ν) :
    (m.alter key f).alter key g = m.alter key fun present ↦ g (some (f present)) := by
  obtain ⟨entries⟩ := m
  simp only [alter, mk.injEq]
  induction entries with
  | nil => simp [alterEntries]
  | cons entry rest ih => by_cases hkey : entry.1 = key <;> simp [alterEntries, hkey, ih]

/-- A key that is present is altered before or after another key. -/
theorem alter_alter_of_mem {m : OrderedMap κ ν} {key other : κ} (f g : Option ν → ν)
    (hmem : key ∈ m.keys) (hne : key ≠ other) :
    (m.alter other g).alter key f = (m.alter key f).alter other g := by
  obtain ⟨entries⟩ := m
  simp only [alter, keys, mk.injEq] at hmem ⊢
  induction entries with
  | nil => cases hmem
  | cons entry rest ih =>
    by_cases hkey : entry.1 = key
    · subst hkey
      simp [alterEntries, hne]
    · have hrest : key ∈ rest.map Prod.fst := by
        rw [List.map_cons, List.mem_cons] at hmem
        exact hmem.resolve_left (Ne.symm hkey)
      by_cases hother : entry.1 = other
      · simp [alterEntries, hother, Ne.symm hne]
      · simp [alterEntries, hkey, hother, ih hrest]

/-- Adds entries one after the other, where `combine` says what becomes of a key with a value. -/
def mergeAll (combine : Option ν → ν → ν) (m : OrderedMap κ ν) (entries : List (κ × ν)) :
    OrderedMap κ ν :=
  entries.foldl (fun m entry ↦ m.alter entry.1 fun present ↦ combine present entry.2) m

/-- A key that is present and not among the entries can be altered before they are added. -/
theorem mergeAll_alter_of_mem {combine : Option ν → ν → ν} {m : OrderedMap κ ν} {key : κ}
    (f : Option ν → ν) {entries : List (κ × ν)} (hmem : key ∈ m.keys)
    (hentries : key ∉ entries.map Prod.fst) :
    (m.mergeAll combine entries).alter key f = (m.alter key f).mergeAll combine entries := by
  induction entries generalizing m with
  | nil => rfl
  | cons entry rest ih =>
    rw [List.map_cons, List.mem_cons, not_or] at hentries
    refine (ih (mem_keys_alter.2 (.inr hmem)) hentries.2).trans ?_
    rw [alter_alter_of_mem _ _ hmem hentries.1]
    rfl

/-- Altering a key of a table and adding its entries to another one is the same as adding the
entries first and altering the key there, as long as the two ways agree on what becomes of one
value. -/
theorem mergeAll_alterEntries {combine : Option ν → ν → ν} {f g : Option ν → ν} (m : OrderedMap κ ν)
    {key : κ} {entries : List (κ × ν)} (hkeys : (entries.map Prod.fst).Nodup)
    (hsome : ∀ present value, g (some (combine present value)) = combine present (f (some value)))
    (hnone : ∀ present, g present = combine present (f none)) :
    m.mergeAll combine (alterEntries key f entries) = (m.mergeAll combine entries).alter key g := by
  induction entries generalizing m with
  | nil => exact congrArg (m.alter key) (funext fun present ↦ (hnone present).symm)
  | cons entry rest ih =>
    obtain ⟨hentry, hrest⟩ := List.nodup_cons.1 hkeys
    by_cases hkey : entry.1 = key
    · subst hkey
      rw [alterEntries, if_pos rfl]
      refine Eq.trans ?_ (mergeAll_alter_of_mem g (mem_keys_alter.2 (.inl rfl)) hentry).symm
      rw [alter_alter_self]
      simp only [hsome]
      rfl
    · rw [alterEntries, if_neg hkey]
      exact ih _ hrest

/-- Entries are inserted from the front. -/
theorem insertAll_append (m : OrderedMap κ ν) (entries later : List (κ × ν)) :
    m.insertAll (entries ++ later) = (m.insertAll entries).insertAll later :=
  List.foldl_append

/-- Of several entries with the same key the last one counts. -/
theorem get?_insertAll_eq_getLast? (m : OrderedMap κ ν) (entries : List (κ × ν)) (key : κ) :
    (m.insertAll entries).get? key =
      ((entries.filter fun entry ↦ entry.1 = key).map Prod.snd).getLast?.or (m.get? key) := by
  induction entries using List.reverseRecOn with
  | nil => rfl
  | append_singleton entries entry ih =>
    have hinsert : m.insertAll (entries ++ [entry]) =
        (m.insertAll entries).insert entry.1 entry.2 :=
      m.insertAll_append entries [entry]
    rw [hinsert, get?_insert, ih]
    by_cases hkey : entry.1 = key <;> simp [hkey]

/-- Inserting a table that grew by an entry is inserting the table and then the entry. -/
theorem insertAll_entries_insert (m : OrderedMap κ ν) {added : OrderedMap κ ν}
    (h : added.keys.Nodup) (key : κ) (value : ν) :
    m.insertAll (added.insert key value).entries =
      (m.insertAll added.entries).insert key value := by
  have hmerge : m.mergeAll (fun _ later ↦ later) (alterEntries key (fun _ ↦ value) added.entries) =
      (m.mergeAll (fun _ later ↦ later) added.entries).alter key fun _ ↦ value :=
    mergeAll_alterEntries m h (fun _ _ ↦ rfl) fun _ ↦ rfl
  exact hmerge

/-- Entries can be gathered in a table of their own before they are inserted. -/
theorem insertAll_entries_insertAll (m : OrderedMap κ ν) {added : OrderedMap κ ν}
    (h : added.keys.Nodup) (entries : List (κ × ν)) :
    m.insertAll (added.insertAll entries).entries =
      (m.insertAll added.entries).insertAll entries := by
  induction entries generalizing added with
  | nil => rfl
  | cons entry rest ih =>
    have hentry : (added.insert entry.1 entry.2).keys.Nodup := nodup_keys_alter h entry.1 _
    refine (ih hentry).trans ?_
    rw [insertAll_entries_insert m h]
    rfl

end DeclaredMethods.OrderedMap
