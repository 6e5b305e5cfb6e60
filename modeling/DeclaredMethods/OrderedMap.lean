/-!
# Maps in insertion order

A map that remembers the order in which its keys were first inserted. Giving a key a new value
keeps its place.
-/

namespace DeclaredMethods

/-- A map whose entries stand in the order in which their keys were first inserted. -/
structure OrderedMap (κ ν : Type) where
  entries : List (κ × ν)

namespace OrderedMap

variable {κ ν : Type}

def empty : OrderedMap κ ν := ⟨[]⟩

def isEmpty (m : OrderedMap κ ν) : Bool :=
  m.entries.isEmpty

def keys (m : OrderedMap κ ν) : List κ :=
  m.entries.map Prod.fst

variable [DecidableEq κ]

def lookup (key : κ) : List (κ × ν) → Option ν
  | [] => none
  | (k, v) :: rest => if k = key then some v else lookup key rest

/-- The entries in which the value of a key is what `f` makes of its present value; a key that
is not present is added at the end. -/
def alterEntries (key : κ) (f : Option ν → ν) : List (κ × ν) → List (κ × ν)
  | [] => [(key, f none)]
  | (k, v) :: rest => if k = key then (k, f (some v)) :: rest else (k, v) :: alterEntries key f rest

def get? (m : OrderedMap κ ν) (key : κ) : Option ν :=
  lookup key m.entries

def contains (m : OrderedMap κ ν) (key : κ) : Bool :=
  (m.get? key).isSome

/-- Gives a key the value that `f` makes of its present one. -/
def alter (m : OrderedMap κ ν) (key : κ) (f : Option ν → ν) : OrderedMap κ ν :=
  ⟨alterEntries key f m.entries⟩

def insert (m : OrderedMap κ ν) (key : κ) (value : ν) : OrderedMap κ ν :=
  m.alter key fun _ => value

def insertNew (m : OrderedMap κ ν) (key : κ) (value : ν) : OrderedMap κ ν :=
  m.alter key fun present => present.getD value

def insertAll (m : OrderedMap κ ν) (entries : List (κ × ν)) : OrderedMap κ ν :=
  entries.foldl (fun m entry => m.insert entry.1 entry.2) m

theorem lookup_alterEntries (key other : κ) (f : Option ν → ν) (entries : List (κ × ν)) :
    lookup other (alterEntries key f entries) =
      if key = other then some (f (lookup key entries)) else lookup other entries := by
  induction entries with
  | nil => simp [alterEntries, lookup]
  | cons entry rest ih =>
    obtain ⟨k, v⟩ := entry
    by_cases hk : k = key
    · subst hk
      by_cases ho : k = other <;> simp [alterEntries, lookup, ho]
    · by_cases ho : key = other
      · subst ho
        simp [alterEntries, lookup, hk, ih]
      · simp [alterEntries, lookup, hk, ho, ih]

@[simp] theorem get?_empty (key : κ) : (empty : OrderedMap κ ν).get? key = none := rfl

/-- Altering a key changes the value of that key only. -/
theorem get?_alter (m : OrderedMap κ ν) (key other : κ) (f : Option ν → ν) :
    (m.alter key f).get? other =
      if key = other then some (f (m.get? key)) else m.get? other :=
  lookup_alterEntries key other f m.entries

theorem get?_insert (m : OrderedMap κ ν) (key other : κ) (value : ν) :
    (m.insert key value).get? other = if key = other then some value else m.get? other :=
  get?_alter m key other _

end OrderedMap

end DeclaredMethods
