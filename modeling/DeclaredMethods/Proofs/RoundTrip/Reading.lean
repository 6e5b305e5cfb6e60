import DeclaredMethods.Proofs.Steps.Triples
import DeclaredMethods.Signature.Cursor
import Mathlib.Data.List.Basic

/-!
# Successful steps of reading

A step of reading is followed by the kinds of the tokens in front of it and behind it: from any
cursor in front of the first it returns a known value and leaves a cursor in front of the second.
Such facts compose along the sequence of steps. Loops are followed item by item; their bound is
never reached, since every item brings a token.
-/

namespace DeclaredMethods.Signature

def Cursor.kinds (cursor : Cursor) : List TokenKind :=
  cursor.upcoming.map Token.kind

def headKind (kinds : List TokenKind) : TokenKind :=
  kinds.head?.getD .eof

theorem Cursor.kind_current (cursor : Cursor) : cursor.current.kind = headKind cursor.kinds := by
  unfold current kinds headKind
  cases cursor.upcoming <;> rfl

theorem Cursor.kind_next (cursor : Cursor) : cursor.next.kind = headKind cursor.kinds.tail := by
  unfold next kinds headKind
  rw [← List.map_tail]
  cases cursor.upcoming.tail <;> rfl

theorem Cursor.kinds_advance (cursor : Cursor) : cursor.advance.kinds = cursor.kinds.tail :=
  List.map_tail

/-- In front of the tokens `before`, a step returns `value` and leaves the tokens `after`. -/
abbrev Reads {α : Type} (reading : Parse α) (before : List TokenKind) (value : α)
    (after : List TokenKind) : Prop :=
  Returns Cursor.kinds reading before value after

section Steps

variable {α β : Type}

theorem reads_currentKind (kinds : List TokenKind) :
    Reads Parse.currentKind kinds (headKind kinds) kinds := by
  apply Returns.get_bind
  rintro cursor rfl
  rw [cursor.kind_current]
  exact .pure _ _

theorem reads_advance (first : TokenKind) (rest : List TokenKind) :
    Reads Parse.advance (first :: rest) () rest := by
  intro cursor hcursor
  refine .inl ⟨(), cursor.advance, rfl, rfl, ?_⟩
  rw [cursor.kinds_advance, hcursor, List.tail_cons]

def startsWith (kinds : List TokenKind) (mark : Mark) : Bool :=
  (headKind kinds).isMark mark

theorem startsWith_cons_self (mark : Mark) (rest : List TokenKind) :
    startsWith (.mark mark :: rest) mark = true :=
  beq_self_eq_true mark

theorem atMark_eq (cursor : Cursor) (kinds : List TokenKind) (mark : Mark)
    (hcursor : cursor.kinds = kinds) : cursor.atMark mark = startsWith kinds mark := by
  rw [Cursor.atMark, cursor.kind_current, hcursor, startsWith]

theorem nextIsMark_eq (cursor : Cursor) (kinds : List TokenKind) (mark : Mark)
    (hcursor : cursor.kinds = kinds) :
    cursor.nextIsMark mark = startsWith kinds.tail mark := by
  rw [Cursor.nextIsMark, cursor.kind_next, hcursor, startsWith]

theorem reads_eat_true (mark : Mark) (rest : List TokenKind) :
    Reads (Parse.eat mark) (.mark mark :: rest) true rest := by
  apply Returns.get_bind
  intro cursor hcursor
  rw [atMark_eq cursor _ mark hcursor, if_pos (startsWith_cons_self mark rest)]
  exact (reads_advance _ rest).bind (.pure _ _)

theorem reads_eat_false (mark : Mark) (kinds : List TokenKind)
    (hmark : startsWith kinds mark = false) : Reads (Parse.eat mark) kinds false kinds := by
  apply Returns.get_bind
  intro cursor hcursor
  rw [atMark_eq cursor _ mark hcursor, hmark, if_neg Bool.false_ne_true]
  exact .pure _ _

theorem reads_eatWord_false (word : String) (kinds : List TokenKind)
    (hword : (headKind kinds).isWord word = false) :
    Reads (Parse.eatWord word) kinds false kinds := by
  apply Returns.get_bind
  intro cursor hcursor
  rw [Cursor.atWord, cursor.kind_current, hcursor, hword, if_neg Bool.false_ne_true]
  exact .pure _ _

theorem reads_expect (mark : Mark) (expected : String) (rest : List TokenKind) :
    Reads (Parse.expect mark expected) (.mark mark :: rest) () rest := by
  apply Returns.get_bind
  intro cursor hcursor
  rw [atMark_eq cursor _ mark hcursor, if_pos (startsWith_cons_self mark rest)]
  exact reads_advance _ rest

theorem reads_ident (name expected : String) (rest : List TokenKind) :
    Reads (Parse.ident expected) (.ident name :: rest) name rest :=
  (reads_currentKind _).bind ((reads_advance _ rest).bind (.pure _ _))

theorem reads_expectEnd (expected : String) : Reads (Parse.expectEnd expected) [] () [] :=
  (reads_currentKind _).bind (.pure _ _)

end Steps

section Loops

variable {α : Type}

/-- A loop that reads a token in every round but the last does not reach its bound. -/
theorem returns_iterate {κ : Type} {view : Cursor → List κ}
    (hview : ∀ cursor, (view cursor).length = cursor.upcoming.length)
    {step : α → Parse (Round α)} {value result : α} {before after : List κ}
    (h : Iterates view List.length step value before result after) :
    Returns view (Parse.iterate step value) before result after := by
  refine .get_bind fun cursor hcursor ↦ h.iterateUpTo _ ?_
  rw [← hcursor, hview]
  exact Nat.lt_succ_self _

theorem reads_iterate {step : α → Parse (Round α)} {value result : α}
    {before after : List TokenKind}
    (h : Iterates Cursor.kinds List.length step value before result after) :
    Reads (Parse.iterate step value) before result after :=
  returns_iterate (fun _ ↦ List.length_map _) h

/-- Items with a mark in front of each are read one after the other. -/
theorem reads_whileMark (mark : Mark) (item : Parse α) (kinds : α → List TokenKind)
    (items values : List α) (rest : List TokenKind) (hrest : startsWith rest mark = false)
    (hitem : ∀ value ∈ values, ∀ after, startsWith after mark = true ∨ after = rest →
      Reads item (kinds value ++ after) value after) :
    Reads (Parse.whileMark mark item items)
      (values.flatMap (fun value ↦ .mark mark :: kinds value) ++ rest) (items ++ values) rest := by
  apply reads_iterate
  induction values generalizing items with
  | nil =>
    rw [List.append_nil]
    exact .done ((reads_eat_false mark rest hrest).bind (.pure _ _))
  | cons value values ih =>
    have hafter : startsWith (values.flatMap (fun value ↦ .mark mark :: kinds value) ++ rest) mark =
        true ∨ values.flatMap (fun value ↦ .mark mark :: kinds value) ++ rest = rest := by
      cases values with
      | nil => exact .inr rfl
      | cons second values => exact .inl (startsWith_cons_self mark _)
    have hvalue := hitem value List.mem_cons_self _ hafter
    rw [List.flatMap_cons, List.append_assoc, List.append_cons items]
    refine .again ((reads_eat_true mark _).bind (hvalue.bind (.pure _ _))) ?_
      (ih _ fun value hvalue ↦ hitem value (List.mem_cons_of_mem _ hvalue))
    simp only [List.cons_append, List.length_cons, List.length_append]
    omega

/-- Reading items one by one turns `start` into `result`, where each item is known by its
tokens and can be told from the closing mark. -/
inductive Accumulates (close : Mark) (add : α → Parse α) : α → List (List TokenKind) → α → Prop
  | nil (result : α) : Accumulates close add result [] result
  | cons {start next result : α} {first : TokenKind} {group : List TokenKind}
      {groups : List (List TokenKind)} (hopen : first.isMark close = false)
      (hread : ∀ after, startsWith after .comma = true ∨ startsWith after close = true →
        Reads (add start) (first :: group ++ after) next after)
      (hrest : Accumulates close add next groups result) :
      Accumulates close add start ((first :: group) :: groups) result

theorem Accumulates.append {close : Mark} {add : α → Parse α} {start middle result : α}
    {groups groups' : List (List TokenKind)} (h : Accumulates close add start groups middle)
    (h' : Accumulates close add middle groups' result) :
    Accumulates close add start (groups ++ groups') result := by
  induction h with
  | nil => exact h'
  | cons hopen hread _ ih => exact .cons hopen hread (ih h')

/-- Items that are added to a state that depends on those in front of them. -/
theorem accumulates_map {β : Type} {close : Mark} {add : α → Parse α} (kinds : β → List TokenKind)
    (state : List β → α) (items : List β)
    (hopen : ∀ item ∈ items, ∃ first tail, kinds item = first :: tail ∧ first.isMark close = false)
    (hread : ∀ before, ∀ item ∈ items, ∀ after,
      startsWith after .comma = true ∨ startsWith after close = true →
        Reads (add (state before)) (kinds item ++ after) (state (before ++ [item])) after) :
    Accumulates close add (state []) (items.map kinds) (state items) := by
  have hfrom : ∀ before, Accumulates close add (state before) (items.map kinds)
      (state (before ++ items)) := by
    induction items with
    | nil =>
      intro before
      rw [List.append_nil]
      exact .nil _
    | cons item items ih =>
      intro before
      obtain ⟨first, tail, hkinds, hfirst⟩ := hopen item List.mem_cons_self
      have hitem := hread before item List.mem_cons_self
      have hitems := ih (fun other hother ↦ hopen other (List.mem_cons_of_mem _ hother))
        (fun before other hother ↦ hread before other (List.mem_cons_of_mem _ hother))
      rw [List.append_cons before, List.map_cons]
      rw [hkinds] at hitem ⊢
      exact .cons hfirst hitem (hitems (before ++ [item]))
  exact hfrom []

/-- Items with commas between them are read up to the closing mark. -/
theorem Accumulates.reads_itemsUntil {close : Mark} {add : α → Parse α} {start result : α}
    {groups : List (List TokenKind)} (h : Accumulates close add start groups result)
    (hclose : close ≠ .comma) (rest : List TokenKind) :
    Reads (Parse.itemsUntil close add start)
      ([TokenKind.mark .comma].intercalate groups ++ .mark close :: rest) result
      (.mark close :: rest) := by
  apply reads_iterate
  induction h with
  | nil =>
    apply Iterates.done
    apply Returns.get_bind
    intro cursor hcursor
    rw [atMark_eq cursor _ close hcursor]
    exact if_pos (startsWith_cons_self close rest) ▸ .pure _ _
  | @cons start next result first group groups hopen hread hrest ih =>
    have hnotClosed : ∀ after, startsWith (first :: group ++ after) close = false := fun _ ↦ hopen
    cases hrest with
    | nil =>
      rw [List.intercalate_singleton]
      apply Iterates.done
      apply Returns.get_bind
      intro cursor hcursor
      rw [atMark_eq cursor _ close hcursor, hnotClosed, if_neg Bool.false_ne_true]
      have hcomma : startsWith (.mark close :: rest) .comma = false := beq_eq_false_iff_ne.2 hclose
      exact (hread _ (.inr (startsWith_cons_self close rest))).bind
        ((reads_eat_false .comma _ hcomma).bind (.pure _ _))
    | cons hopen' hread' hrest' =>
      rw [List.intercalate_cons_cons, List.append_assoc, List.append_assoc]
      refine .again ?_ ?_ ih
      · apply Returns.get_bind
        intro cursor hcursor
        rw [atMark_eq cursor _ close hcursor, hnotClosed, if_neg Bool.false_ne_true]
        exact (hread _ (.inl (startsWith_cons_self .comma _))).bind
          ((reads_eat_true .comma _).bind (.pure _ _))
      · simp only [List.length_append, List.length_cons]
        omega

end Loops

end DeclaredMethods.Signature
