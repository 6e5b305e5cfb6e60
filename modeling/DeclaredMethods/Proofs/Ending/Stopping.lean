import DeclaredMethods.Proofs.Document.Following
import Mathlib.Data.List.Infix

/-!
# Reading up to an end

An invalid piece of a text ends the reading as the end of the text does, although more pieces may
stand behind it and a reader looks two tokens ahead. Two readings are compared step by step: a short
cursor knows only the tokens in front of the end, a long one also those behind it. No reading gets
past the end, so both return the same value or fail with the same error, which is placed at the end
or at a token in front of it.

A loop that goes on and a nested production have read a token. This is why neither the bounds on
rounds nor those on depth, which are larger for the long cursor, make a difference.
-/

namespace DeclaredMethods.Signature

/-- An end of reading, with the tokens in front of it and those behind it. -/
structure Ending where
  inFront : List Token
  span : Span
  behind : List Token
  kind_ne_eof : ∀ token ∈ inFront, token.kind ≠ .eof

namespace Ending

def token (ending : Ending) : Token :=
  ⟨.eof, ending.span, ""⟩

/-- Whether a place is that of the end or of a token in front of it. -/
def Reaches (ending : Ending) (span : Span) : Prop :=
  span = ending.span ∨ ∃ token ∈ ending.inFront, span = token.span

end Ending

/-- The short cursor stands in front of the last of the tokens that are in front of an end. The long
cursor stands at the same place and also sees what is behind the end. -/
structure Alongside (ending : Ending) (short long : Cursor) : Prop where
  isSuffix : short.upcoming <:+ ending.inFront
  ending_eq : short.ending = ending.span
  upcoming_eq : long.upcoming = short.upcoming ++ ending.token :: ending.behind
  previousStop_eq : long.previousStop = short.previousStop

/-- Two readings do the same from two cursors, and errors are placed at the end or in front of it.
If they return something, at least as many tokens have been read as `least` says. -/
def StopsAt {α : Type} (ending : Ending) (least : α → Nat) (first second : Parse α)
    (short long : Cursor) : Prop :=
  Simulates (.exact fun error ↦ ending.Reaches error.span) short long first second
    fun value short' long' ↦ Alongside ending short' long' ∧
      short'.upcoming.length + least value ≤ short.upcoming.length

/-- Two readings do the same wherever fewer than `limit` tokens are left in front of the end. -/
def Stops {α : Type} (ending : Ending) (limit : Nat) (least : α → Nat) (first second : Parse α) :
    Prop :=
  ∀ short long, Alongside ending short long → short.upcoming.length < limit →
    StopsAt ending least first second short long

/-- In front of a token that is not the end there are tokens left. -/
theorem upcoming_eq_cons_of_current {cursor : Cursor} (h : cursor.current.kind ≠ .eof) :
    ∃ rest, cursor.upcoming = cursor.current :: rest := by
  unfold Cursor.current at h ⊢
  cases hupcoming : cursor.upcoming with
  | nil =>
    rw [hupcoming] at h
    exact absurd rfl h
  | cons first rest => exact ⟨rest, rfl⟩

theorem length_advance {cursor : Cursor} (h : cursor.current.kind ≠ .eof) :
    cursor.advance.upcoming.length + 1 = cursor.upcoming.length := by
  obtain ⟨rest, hrest⟩ := upcoming_eq_cons_of_current h
  rw [Cursor.advance, hrest, List.tail_cons, List.length_cons]

namespace Alongside

variable {ending : Ending} {short long : Cursor} (h : Alongside ending short long)
include h

theorem length_le : short.upcoming.length ≤ long.upcoming.length := by
  rw [h.upcoming_eq, List.length_append]
  exact Nat.le_add_right _ _

theorem eofToken_eq : short.eofToken = ending.token :=
  congrArg (Token.mk .eof · "") h.ending_eq

/-- Both cursors show the same token, the end included. -/
theorem current_eq : long.current = short.current := by
  rw [Cursor.current, Cursor.current, h.upcoming_eq, h.eofToken_eq]
  cases short.upcoming <;> rfl

/-- In front of a token both cursors show the same one behind it. -/
theorem next_eq (hne : short.current.kind ≠ .eof) : long.next = short.next := by
  obtain ⟨rest, hrest⟩ := upcoming_eq_cons_of_current hne
  rw [Cursor.next, Cursor.next, h.upcoming_eq, h.eofToken_eq, hrest]
  cases rest <;> rfl

theorem atMark_eq (mark : Mark) : long.atMark mark = short.atMark mark := by
  rw [Cursor.atMark, Cursor.atMark, h.current_eq]

theorem atWord_eq (word : String) : long.atWord word = short.atWord word := by
  rw [Cursor.atWord, Cursor.atWord, h.current_eq]

theorem nextIsMark_eq (hne : short.current.kind ≠ .eof) (mark : Mark) :
    long.nextIsMark mark = short.nextIsMark mark := by
  rw [Cursor.nextIsMark, Cursor.nextIsMark, h.next_eq hne]

theorem isAdjacent_eq : long.isAdjacent = short.isAdjacent := by
  rw [Cursor.isAdjacent, Cursor.isAdjacent, h.current_eq, h.previousStop_eq]

/-- The end is where the short cursor has no more tokens. -/
theorem upcoming_eq_nil (heof : short.current.kind.isEof = true) : short.upcoming = [] := by
  cases hupcoming : short.upcoming with
  | nil => rfl
  | cons first rest =>
    have hkind : first.kind = .eof := by
      rw [Cursor.current, hupcoming] at heof
      cases hfirst : first.kind with
      | eof => rfl
      | _ =>
        rw [List.head?_cons, Option.getD_some, hfirst] at heof
        cases heof
    exact absurd hkind (ending.kind_ne_eof first (h.isSuffix.mem (hupcoming ▸ List.mem_cons_self)))

/-- The current token is the end or one in front of it. -/
theorem reaches_current : ending.Reaches short.current.span := by
  rw [Cursor.current]
  cases hupcoming : short.upcoming with
  | nil => exact .inl h.ending_eq
  | cons first rest =>
    exact .inr ⟨first, h.isSuffix.mem (hupcoming ▸ List.mem_cons_self), rfl⟩

/-- A token in front of the end is read by both. -/
theorem advance (hne : short.current.kind ≠ .eof) :
    Alongside ending short.advance long.advance := by
  obtain ⟨rest, hrest⟩ := upcoming_eq_cons_of_current hne
  refine ⟨?_, h.ending_eq, ?_, congrArg (·.span.stop) h.current_eq⟩
  · exact (List.tail_suffix _).trans h.isSuffix
  · rw [Cursor.advance, Cursor.advance, h.upcoming_eq, hrest]
    rfl

end Alongside

section Sequence

variable {α β : Type} {ending : Ending} {limit : Nat} {short long : Cursor}

theorem StopsAt.mono {least least' : α → Nat} {first second : Parse α}
    (h : StopsAt ending least first second short long)
    (hleast : ∀ value, least' value ≤ least value) :
    StopsAt ending least' first second short long :=
  Simulates.mono h fun value _ _ hpost ↦
    ⟨hpost.1, Nat.le_trans (Nat.add_le_add_left (hleast value) _) hpost.2⟩

theorem stopsAt_pure {least : α → Nat} {value : α} (halong : Alongside ending short long)
    (hleast : least value = 0) : StopsAt ending least (pure value) (pure value) short long :=
  Simulates.pure ⟨halong, Nat.le_of_eq (congrArg _ hleast)⟩

/-- An error is placed at the current token. -/
theorem stopsAt_fail {least : α → Nat} (halong : Alongside ending short long) (expected : String) :
    StopsAt ending least (Parse.fail expected) (Parse.fail expected) short long := by
  have herror : long.expected expected = short.expected expected := by
    rw [Cursor.expected, Cursor.expected, halong.current_eq]
  have hspan : (short.expected expected).span = short.current.span := by
    rw [Cursor.expected]
    split <;> rfl
  have hreaches : ending.Reaches (short.expected expected).span := hspan ▸ halong.reaches_current
  exact simulates_exact_iff.2 (.inl ⟨_, rfl, congrArg Except.error herror, hreaches⟩)

/-- A sequence stops if its steps do. What the second step has to read depends on what the first one
has read. -/
theorem StopsAt.bind {least : α → Nat} {least' : β → Nat} {first second : Parse α}
    {next next' : α → Parse β} (h : StopsAt ending least first second short long)
    (h' : ∀ value short' long', Alongside ending short' long' →
      short'.upcoming.length + least value ≤ short.upcoming.length →
      StopsAt ending (fun result ↦ least' result - least value) (next value) (next' value) short'
        long') :
    StopsAt ending least' (first >>= next) (second >>= next') short long := by
  refine Simulates.bind h fun value short' long' hmid ↦ ?_
  refine Simulates.mono (h' value short' long' hmid.1 hmid.2) fun result _ _ hpost ↦ ⟨hpost.1, ?_⟩
  have hread := hmid.2
  have hread' : _ + (least' result - least value) ≤ _ := hpost.2
  omega

theorem stopsAt_currentKind_bind {least : β → Nat} (halong : Alongside ending short long)
    {next next' : TokenKind → Parse β}
    (h : StopsAt ending least (next short.current.kind) (next' short.current.kind) short long) :
    StopsAt ending least (Parse.currentKind >>= next) (Parse.currentKind >>= next') short long := by
  have hkind : long.current.kind = short.current.kind := congrArg Token.kind halong.current_eq
  apply Simulates.get_bind
  rw [hkind]
  exact h

/-- A token in front of the end is read by both. -/
theorem stopsAt_advance (halong : Alongside ending short long) (hne : short.current.kind ≠ .eof) :
    StopsAt ending (fun _ ↦ 1) Parse.advance Parse.advance short long :=
  .returned () _ _ rfl id (.inr rfl) ⟨halong.advance hne, Nat.le_of_eq (length_advance hne)⟩

/-- Behind a token that both have read, one fewer is left. -/
theorem stopsAt_advance_bind {least : β → Nat} (halong : Alongside ending short long)
    {kind : TokenKind} (hkind : short.current.kind = kind) (hne : kind ≠ .eof)
    {next next' : Parse β}
    (h : Alongside ending short.advance long.advance →
      short.advance.upcoming.length + 1 = short.upcoming.length →
      StopsAt ending (fun result ↦ least result - 1) next next' short.advance long.advance) :
    StopsAt ending least (Parse.advance >>= fun _ ↦ next) (Parse.advance >>= fun _ ↦ next') short
      long := by
  have hcurrent : short.current.kind ≠ .eof := hkind ▸ hne
  have halong' := halong.advance hcurrent
  have hlength := length_advance hcurrent
  have hadvance : Simulates (.exact fun error ↦ ending.Reaches error.span) short long Parse.advance
      Parse.advance fun _ short' long' ↦ short' = short.advance ∧ long' = long.advance :=
    .returned () _ _ rfl id (.inr rfl) ⟨rfl, rfl⟩
  refine hadvance.bind fun _ _ _ hmid ↦ ?_
  obtain ⟨rfl, rfl⟩ := hmid
  refine Simulates.mono (h halong' hlength) fun result _ _ hpost ↦ ⟨hpost.1, ?_⟩
  have hread : _ + (least result - 1) ≤ _ := hpost.2
  omega

/-- What is read behind a token starts closer to the end. -/
theorem stopsAt_behind_token {least : β → Nat} (hone : ∀ result, least result ≤ 1)
    (halong : Alongside ending short long) (hlimit : short.upcoming.length < limit + 1)
    (hne : short.current.kind ≠ .eof) {next next' : Parse β}
    (h : Stops ending limit (fun _ ↦ 0) next next') :
    StopsAt ending least (Parse.advance >>= fun _ ↦ next) (Parse.advance >>= fun _ ↦ next') short
      long :=
  stopsAt_advance_bind halong rfl hne fun halong' hread ↦
    (h _ _ halong' (by omega)).mono fun result ↦ Nat.sub_le_of_le_add (hone result)

end Sequence

namespace Stops

variable {α β : Type} {ending : Ending} {limit : Nat}

theorem mono {limit' : Nat} {least least' : α → Nat} {first second : Parse α}
    (h : Stops ending limit least first second) (hlimit : limit' ≤ limit)
    (hleast : ∀ value, least' value ≤ least value) : Stops ending limit' least' first second :=
  fun short long halong hless ↦
    (h short long halong (Nat.lt_of_lt_of_le hless hlimit)).mono hleast

theorem pure {least : α → Nat} {value : α} (hleast : least value = 0) :
    Stops ending limit least (Pure.pure value) (Pure.pure value) :=
  fun _ _ halong _ ↦ stopsAt_pure halong hleast

theorem fail {least : α → Nat} (expected : String) :
    Stops ending limit least (Parse.fail expected) (Parse.fail expected) :=
  fun _ _ halong _ ↦ stopsAt_fail halong expected

/-- What follows a step starts that much closer to the end. -/
theorem bind_least {least : α → Nat} {least' : β → Nat} {first second : Parse α}
    {next next' : α → Parse β} (h : Stops ending limit least first second)
    (h' : ∀ value, Stops ending (limit - least value) (fun result ↦ least' result - least value)
      (next value) (next' value)) :
    Stops ending limit least' (first >>= next) (second >>= next') := by
  intro short long halong hlimit
  refine (h short long halong hlimit).bind fun value short' long' halong' hleast ↦ ?_
  exact h' value short' long' halong' (by omega)

/-- A sequence stops if its steps do. -/
theorem bind {least : α → Nat} {least' : β → Nat} {first second : Parse α}
    {next next' : α → Parse β} (h : Stops ending limit least first second)
    (h' : ∀ value, Stops ending limit least' (next value) (next' value)) :
    Stops ending limit least' (first >>= next) (second >>= next') :=
  h.bind_least fun value ↦ (h' value).mono (Nat.sub_le _ _) fun _ ↦ Nat.sub_le _ _

theorem currentKind_bind {least : α → Nat} {next next' : TokenKind → Parse α}
    (h : ∀ kind, Stops ending limit least (next kind) (next' kind)) :
    Stops ending limit least (Parse.currentKind >>= next) (Parse.currentKind >>= next') :=
  fun short long halong hlimit ↦
    stopsAt_currentKind_bind halong (h short.current.kind short long halong hlimit)

theorem ite {least : α → Nat} {condition : Prop} [Decidable condition]
    {first first' second second' : Parse α} (h : Stops ending limit least first first')
    (h' : Stops ending limit least second second') :
    Stops ending limit least (if condition then first else second)
      (if condition then first' else second') :=
  fun short long halong hlimit ↦
    Simulates.ite (fun _ ↦ h short long halong hlimit) fun _ ↦ h' short long halong hlimit

end Stops

section Tokens

variable {α : Type} {ending : Ending} {limit : Nat}

/-- A mark that is eaten is no end. -/
theorem stops_eat (mark : Mark) :
    Stops ending limit Bool.toNat (Parse.eat mark) (Parse.eat mark) := by
  intro short long halong _
  apply Simulates.get_bind
  rw [halong.atMark_eq]
  cases hmark : short.atMark mark with
  | true =>
    exact stopsAt_advance_bind halong (current_of_atMark hmark) TokenKind.noConfusion
      fun halong' _ ↦ stopsAt_pure halong' rfl
  | false => exact stopsAt_pure halong rfl

theorem stops_eatWord (word : String) :
    Stops ending limit Bool.toNat (Parse.eatWord word) (Parse.eatWord word) := by
  intro short long halong _
  apply Simulates.get_bind
  rw [halong.atWord_eq]
  cases hword : short.atWord word with
  | true =>
    obtain ⟨name, hkind⟩ := exists_of_isWord hword
    exact stopsAt_advance_bind halong hkind TokenKind.noConfusion
      fun halong' _ ↦ stopsAt_pure halong' rfl
  | false => exact stopsAt_pure halong rfl

theorem stops_expect (mark : Mark) (expected : String) :
    Stops ending limit (fun _ ↦ 1) (Parse.expect mark expected) (Parse.expect mark expected) := by
  intro short long halong _
  apply Simulates.get_bind
  rw [halong.atMark_eq]
  cases hmark : short.atMark mark with
  | true =>
    have hne : short.current.kind ≠ .eof := current_of_atMark hmark ▸ TokenKind.noConfusion
    exact stopsAt_advance halong hne
  | false => exact stopsAt_fail halong expected

theorem stops_ident (expected : String) :
    Stops ending limit (fun _ ↦ 1) (Parse.ident expected) (Parse.ident expected) := by
  intro short long halong _
  apply stopsAt_currentKind_bind halong
  cases hkind : short.current.kind with
  | ident name =>
    exact stopsAt_advance_bind halong hkind TokenKind.noConfusion
      fun halong' _ ↦ stopsAt_pure halong' rfl
  | _ => exact stopsAt_fail halong expected

/-- A step behind a token that may stand here. -/
theorem stops_if_eaten {least : α → Nat} (hone : ∀ value, least value ≤ 1) {eat : Parse Bool}
    (heat : Stops ending limit Bool.toNat eat eat) {first first' second second' : Parse α}
    (h : Stops ending (limit - 1) (fun _ ↦ 0) first first')
    (h' : Stops ending limit least second second') :
    Stops ending limit least (eat >>= fun eaten ↦ if eaten then first else second)
      (eat >>= fun eaten ↦ if eaten then first' else second') := by
  refine heat.bind_least fun eaten ↦ ?_
  cases eaten with
  | true => exact h.mono (Nat.le_refl _) fun value ↦ Nat.sub_le_of_le_add (hone value)
  | false => exact h'

end Tokens

section Loops

variable {α : Type} {ending : Ending} {limit : Nat}

theorem Round.cost_le_one (round : Round α) : Round.cost round ≤ 1 := by
  cases round with
  | again value => exact Nat.le_refl 1
  | done value => exact Nat.zero_le 1

/-- A loop that reads a token in every round but the last does not come to its bound. -/
theorem stops_iterate {step step' : α → Parse (Round α)}
    (h : ∀ value, Stops ending limit Round.cost (step value) (step' value)) (init : α) :
    Stops ending limit (fun _ ↦ 0) (Parse.iterate step init) (Parse.iterate step' init) := by
  intro short long halong hlimit
  have hlength := halong.length_le
  refine .get_bind (.iterateUpTo (fun _ short' long' ↦ Alongside ending short' long' ∧
    short'.upcoming.length ≤ short.upcoming.length) (fun cursor ↦ cursor.upcoming.length) ?_
    ⟨halong, Nat.le_refl _⟩ (Nat.lt_succ_self _) (Nat.lt_succ_of_le hlength))
  intro value short' long' hinv
  have hread := hinv.2
  refine Simulates.mono (h value short' long' hinv.1 (by omega)) fun round _ _ hround ↦ ?_
  have hcost := hround.2
  cases round with
  | done result => exact ⟨hround.1, Nat.le_trans hcost hread⟩
  | again next =>
    -- The round has read a token, so that fewer are left.
    have hless : _ + 1 ≤ short'.upcoming.length := hcost
    exact ⟨⟨hround.1, by omega⟩, by omega⟩

/-- A loop that returns something has not reached its bound: its last round is done. -/
theorem exists_done_of_iterateUpTo {step step' : α → Parse (Round α)}
    (h : ∀ value, Stops ending limit Round.cost (step value) (step' value)) (bound : Nat)
    (value : α) {short long : Cursor} (halong : Alongside ending short long)
    (hlimit : short.upcoming.length < limit) (hbound : short.upcoming.length < bound) {result : α}
    {after : Cursor} (hrun : (iterateUpTo bound step value).run short = .ok (result, after)) :
    ∃ last before before', Alongside ending before before' ∧
      (step last).run before = .ok (.done result, after) := by
  induction bound generalizing value short long with
  | zero => exact absurd hbound (Nat.not_lt_zero _)
  | succ bound ih =>
    obtain ⟨round, middle, hstep, hnext⟩ := run_bind_eq_ok hrun
    cases round with
    | done value' =>
      cases hnext
      exact ⟨value, short, long, halong, hstep⟩
    | again value' =>
      obtain ⟨_, -, -, halong', hcost⟩ := (h value short long halong hlimit).exists_of_run hstep
      have hread : middle.upcoming.length + 1 ≤ short.upcoming.length := hcost
      exact ih value' halong' (by omega) (by omega) hnext

/-- A loop goes on only behind a token. -/
theorem stops_round_eat (mark : Mark) {first first' second second' : Parse (Round α)}
    (h : Stops ending limit (fun _ ↦ 0) first first')
    (h' : Stops ending limit Round.cost second second') :
    Stops ending limit Round.cost (Parse.eat mark >>= fun eaten ↦ if eaten then first else second)
      (Parse.eat mark >>= fun eaten ↦ if eaten then first' else second') :=
  stops_if_eaten Round.cost_le_one (stops_eat mark)
    (h.mono (Nat.sub_le _ _) fun _ ↦ Nat.le_refl _) h'

theorem stops_whileMark (mark : Mark) {item item' : Parse α}
    (h : Stops ending limit (fun _ ↦ 0) item item') (items : List α) :
    Stops ending limit (fun _ ↦ 0) (Parse.whileMark mark item items)
      (Parse.whileMark mark item' items) :=
  stops_iterate (fun _ ↦ stops_round_eat mark (h.bind fun _ ↦ .pure rfl) (.pure rfl)) items

/-- Items that need not read a token are followed by a comma, which is one. -/
theorem stops_itemsUntil (close : Mark) {add add' : α → Parse α}
    (h : ∀ items, Stops ending limit (fun _ ↦ 0) (add items) (add' items)) (init : α) :
    Stops ending limit (fun _ ↦ 0) (Parse.itemsUntil close add init)
      (Parse.itemsUntil close add' init) := by
  refine stops_iterate (fun items short long halong hlimit ↦ Simulates.get_bind ?_) init
  rw [halong.atMark_eq]
  split
  · exact stopsAt_pure halong rfl
  · exact (h items).bind (fun _ ↦ stops_round_eat .comma (.pure rfl) (.pure rfl)) short long halong
      hlimit

theorem stops_commaSeparated {item item' : Parse α}
    (h : Stops ending limit (fun _ ↦ 0) item item') :
    Stops ending limit (fun _ ↦ 0) (Parse.commaSeparated item) (Parse.commaSeparated item') :=
  h.bind fun first ↦ stops_whileMark .comma h [first]

end Loops

end DeclaredMethods.Signature
