import DeclaredMethods.Declaration.Evaluate
import DeclaredMethods.Proofs.OrderedMap.Keys

/-!
# Hash literals

Every entry of a hash literal adds pairs: a pair adds itself, and a double splat adds the pairs of
the hash behind it. The value of a literal is the map in which the pairs of all its entries have
been inserted one after the other, so a key stands where it was first given and has the value that
it was given last.

A hash that is splatted is evaluated to a map of its own first, where repeated keys collapse. This
makes no difference to the map it is inserted into, and so a literal can be splatted or its entries
written in its place.
-/

namespace DeclaredMethods

open Source

/-- The entries of a hash literal, which may stand in any number of parentheses. -/
def Source.Expr.hashLiteral? : Expr → Option (List HashEntry)
  | ⟨.hash entries, _⟩ => some entries
  | ⟨.paren ⟨[inner], _⟩, _⟩ => inner.hashLiteral?
  | _ => none

def Value.entries? : Value → Option (List (HashKey × Value))
  | hash entries => some entries.entries
  | _ => none

def Source.HashEntry.pairs? : HashEntry → Option (List (HashKey × Value))
  | .pair key value => do
    let key ← (evalExpr key).toOption.bind Value.key?
    let value ← (evalExpr value).toOption
    return [(key, value)]
  | .doubleSplat inner => (evalExpr inner).toOption.bind Value.entries?

/-- The pairs that the entries of a hash literal add, in the order in which they are written. -/
def addedPairs? : List HashEntry → Option (List (HashKey × Value))
  | [] => some []
  | entry :: entries => do
    let pairs ← entry.pairs?
    let later ← addedPairs? entries
    return pairs ++ later

/-- Entries behind others add their pairs behind theirs. -/
theorem addedPairs?_append (entries later : List HashEntry) :
    addedPairs? (entries ++ later) =
      (addedPairs? entries).bind fun pairs ↦ (addedPairs? later).map (pairs ++ ·) := by
  induction entries with
  | nil =>
    rw [List.nil_append, addedPairs?, Option.bind_some]
    cases addedPairs? later <;> rfl
  | cons entry entries ih =>
    rw [List.cons_append, addedPairs?, addedPairs?, ih]
    cases entry.pairs? <;> cases addedPairs? entries <;> cases addedPairs? later <;> simp

theorem toOption_bind {ε α β : Type} (result : Except ε α) (next : α → Except ε β) :
    (result >>= next).toOption = result.toOption.bind fun value ↦ (next value).toOption := by
  cases result <;> rfl

theorem toOption_map {ε α β : Type} (result : Except ε α) (f : α → β) :
    (result.map f).toOption = result.toOption.map f := by
  cases result <;> rfl

theorem toOption_eq_some_iff {ε α : Type} {result : Except ε α} {value : α} :
    result.toOption = some value ↔ result = .ok value := by
  cases result <;> simp [Except.toOption]

/-- A sequence has a value if its first step has one and the others have one behind it. -/
theorem bind_eq_ok_iff {ε α β : Type} {result : Except ε α} {next : α → Except ε β} {value : β} :
    (result >>= next) = .ok value ↔ ∃ first, result = .ok first ∧ next first = .ok value := by
  rw [← toOption_eq_some_iff, toOption_bind, Option.bind_eq_some_iff]
  simp only [toOption_eq_some_iff]

/-- A value is a key unless it cannot be one. -/
theorem toOption_hashKey (value : Value) (span : Span) :
    (hashKey value span).toOption = value.key? := by
  unfold hashKey
  cases value.key? <;> rfl

/-- A splatted hash adds its entries, and nothing else can be splatted. -/
theorem toOption_splat (span : Span) (found : OrderedMap HashKey Value) (value : Value) :
    (splat span found value).toOption = value.entries?.map found.insertAll := by
  cases value <;> rfl

/-- An entry adds its pairs one after the other. -/
theorem toOption_evalEntry (span : Span) (found : OrderedMap HashKey Value) (entry : HashEntry) :
    (evalEntry span found entry).toOption = entry.pairs?.map found.insertAll := by
  cases entry with
  | pair key value =>
    obtain ⟨node, place⟩ := key
    rw [evalEntry, HashEntry.pairs?, evalExpr]
    simp only [toOption_bind, toOption_hashKey]
    cases (evalNode place node).toOption with
    | none => rfl
    | some keyValue =>
      simp only [Option.bind_some]
      cases keyValue.key? with
      | none => rfl
      | some key => cases (evalExpr value).toOption <;> rfl
  | doubleSplat inner =>
    rw [evalEntry, HashEntry.pairs?, toOption_bind]
    simp only [toOption_splat]
    cases (evalExpr inner).toOption <;> rfl

/-- Evaluating a hash literal inserts the pairs of its entries one after the other. -/
theorem toOption_evalEntries (span : Span) (found : OrderedMap HashKey Value)
    (entries : List HashEntry) :
    (evalEntries span found entries).toOption = (addedPairs? entries).map found.insertAll := by
  induction entries generalizing found with
  | nil => rw [evalEntries, addedPairs?, Option.map_some]; rfl
  | cons entry entries ih =>
    rw [evalEntries, addedPairs?, toOption_bind, toOption_evalEntry]
    simp only [ih]
    cases entry.pairs? <;> cases addedPairs? entries <;> simp [OrderedMap.insertAll_append]

/-- A hash literal has the pairs of its entries, a later one in the place of an earlier one with the
same key. -/
theorem toOption_evalExpr_of_hashLiteral? {literal : Expr} {entries : List HashEntry}
    (h : literal.hashLiteral? = some entries) :
    (evalExpr literal).toOption = (addedPairs? entries).map fun pairs ↦
      .hash (OrderedMap.empty.insertAll pairs) := by
  fun_induction Expr.hashLiteral? literal with
  | case1 written place =>
    cases h
    rw [evalExpr, evalNode, toOption_map, toOption_evalEntries, Option.map_map]
    rfl
  | case2 inner place place' ih =>
    rw [evalExpr, evalNode, evalBody, ih h]
  | case3 => cases h

/-- A splatted literal adds the entries it evaluates to, not the pairs as they are written. -/
theorem pairs?_doubleSplat {literal : Expr} {entries : List HashEntry}
    (h : literal.hashLiteral? = some entries) :
    (HashEntry.doubleSplat literal).pairs? =
      (addedPairs? entries).map fun pairs ↦ (OrderedMap.empty.insertAll pairs).entries := by
  rw [HashEntry.pairs?, toOption_evalExpr_of_hashLiteral? h]
  cases addedPairs? entries <;> rfl

/-- Pairs that are gathered in a map of their own are inserted as they are. -/
theorem insertAll_gathered (found : OrderedMap HashKey Value) (pairs : List (HashKey × Value)) :
    found.insertAll (OrderedMap.empty.insertAll pairs).entries = found.insertAll pairs := by
  have hempty : (OrderedMap.empty : OrderedMap HashKey Value).keys.Nodup := List.nodup_nil
  exact found.insertAll_entries_insertAll hempty pairs

/-- Splatting a hash literal is the same as writing its entries in its place: one of the two hashes
has a value if the other one has, and then they are the same map, with the same keys in the same
order. -/
theorem evalEntries_doubleSplat_iff {literal : Expr} {inner : List HashEntry}
    (h : literal.hashLiteral? = some inner) (span : Span) (found : OrderedMap HashKey Value)
    (before after : List HashEntry) (result : OrderedMap HashKey Value) :
    evalEntries span found (before ++ .doubleSplat literal :: after) = .ok result ↔
      evalEntries span found (before ++ inner ++ after) = .ok result := by
  rw [← toOption_eq_some_iff, ← toOption_eq_some_iff, toOption_evalEntries, toOption_evalEntries,
    addedPairs?_append, List.append_assoc, addedPairs?_append, addedPairs?_append, addedPairs?,
    pairs?_doubleSplat h]
  cases addedPairs? before <;> cases addedPairs? inner <;> cases addedPairs? after <;>
    simp [OrderedMap.insertAll_append, insertAll_gathered]

/-- A literal in parentheses that repeats a key of its own and splats another one with a key from
outside: the keys keep their places and get their last values. -/
theorem evalEntries_doubleSplat_iff_of_nested :
    ∃ (literal : Expr) (inner before after : List HashEntry) (result : OrderedMap HashKey Value),
      literal.hashLiteral? = some inner ∧
      evalEntries ⟨0, 0⟩ .empty (before ++ .doubleSplat literal :: after) = .ok result ∧
      evalEntries ⟨0, 0⟩ .empty (before ++ inner ++ after) = .ok result ∧
      result.entries = [(.symbol "a", .int 2), (.symbol "b", .int 3), (.symbol "c", .int 4)] := by
  let pair (name : String) (value : Int) : HashEntry :=
    .pair ⟨.literal (.symbol name), ⟨0, 0⟩⟩ ⟨.literal (.int value), ⟨0, 0⟩⟩
  let nested : Expr := ⟨.hash [pair "a" 2], ⟨0, 0⟩⟩
  let inner := [pair "b" 1, .doubleSplat nested, pair "b" 3]
  let literal : Expr := ⟨.paren ⟨[⟨.hash inner, ⟨0, 0⟩⟩], ⟨0, 0⟩⟩, ⟨0, 0⟩⟩
  have hliteral : literal.hashLiteral? = some inner := rfl
  have hwritten : evalEntries ⟨0, 0⟩ .empty ([pair "a" 0] ++ inner ++ [pair "c" 4]) =
      .ok ⟨[(.symbol "a", .int 2), (.symbol "b", .int 3), (.symbol "c", .int 4)]⟩ := rfl
  exact ⟨literal, inner, _, _, _, hliteral,
    (evalEntries_doubleSplat_iff hliteral _ _ _ _ _).2 hwritten, hwritten, rfl⟩

end DeclaredMethods
