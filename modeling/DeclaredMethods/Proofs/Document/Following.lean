import DeclaredMethods.Proofs.RoundTrip.Reading
import DeclaredMethods.Proofs.Steps.Simulation
import Mathlib.Logic.Function.Iterate

/-!
# Reading in front of other tokens

Two readings are compared step by step: one cursor stands in front of some tokens, the other in
front of the same tokens and a rest that starts with a bar or with a word.

Readings look at most two tokens ahead, and the two can only differ where the first one comes close
to the end. There are two such places. Behind a whole union the end of the tokens and a bar are not
the same; but a union is always enclosed by other tokens. And a double colon at the end could go on
with a word of the rest; but no reading ends behind a double colon. A first reading that gets to one
of these places is lost: it cannot succeed any more with all tokens read.
-/

namespace DeclaredMethods.Signature

def Cursor.skip (cursor : Cursor) (count : Nat) : Cursor :=
  Cursor.advance^[count] cursor

namespace Cursor

@[simp] theorem skip_one (cursor : Cursor) : cursor.skip 1 = cursor.advance := rfl

/-- Skipping tokens adds up. -/
theorem skip_skip (cursor : Cursor) (first second : Nat) :
    (cursor.skip first).skip second = cursor.skip (first + second) := by
  rw [skip, skip, skip, Nat.add_comm, Function.iterate_add_apply]

theorem upcoming_skip (cursor : Cursor) (count : Nat) :
    (cursor.skip count).upcoming = cursor.upcoming.drop count := by
  induction count generalizing cursor with
  | zero => rfl
  | succ count ih =>
    have hskip : cursor.skip (count + 1) = cursor.advance.skip count := by
      rw [skip, Function.iterate_succ_apply, ← skip]
    rw [hskip, ih, advance, List.drop_tail]

theorem kinds_skip (cursor : Cursor) (count : Nat) :
    (cursor.skip count).kinds = cursor.kinds.drop count := by
  rw [kinds, upcoming_skip, List.map_drop, kinds]

end Cursor

def TokenKind.mayFollow : TokenKind → Bool
  | mark .pipe => true
  | ident word => word != "self"
  | eof => true
  | _ => false

/-- The tokens of a short cursor, with the rest behind them, stand in front of a long one. -/
def Beside (rest : List TokenKind) (short long : Cursor) : Prop :=
  long.kinds = short.kinds ++ rest

/-- Tokens in front of which a reading is lost: a double colon at the end, and for a reading
`inside` of others also the end itself. -/
def Lost (inside : Bool) (kinds : List TokenKind) : Prop :=
  kinds = [.mark .doubleColon] ∨ inside = true ∧ kinds = []

/-- A second reading is held to what a first one returns, unless the first one is lost. -/
def following (inside : Bool) : Comparison Cursor SyntaxError where
  lost cursor := Lost inside cursor.kinds
  own _ := True
  shared _ := False
  own_of_lost _ := trivial

/-- From a short cursor the first reading returns something only by reading some of the tokens, at
least as many as `least` says. Then it is lost, or the second reading does the same from a long
cursor. -/
def FollowsAt {α : Type} (inside : Bool) (least : α → Nat) (first second : Parse α)
    (short long : Cursor) : Prop :=
  Simulates (following inside) short long first second fun value short' long' ↦
    ∃ count, least value ≤ count ∧ count ≤ short.kinds.length ∧ short' = short.skip count ∧
      long' = long.skip count

/-- The second reading follows the first one from all cursors. -/
def Follows {α : Type} (rest : List TokenKind) (inside : Bool) (first second : Parse α) : Prop :=
  ∀ short long, Beside rest short long → FollowsAt inside (fun _ ↦ 0) first second short long

section Ahead

variable {rest : List TokenKind} {short long : Cursor}

/-- Two cursors stay beside each other as long as the short one has tokens left. -/
theorem Beside.skip (h : Beside rest short long) {count : Nat}
    (hcount : count ≤ short.kinds.length) : Beside rest (short.skip count) (long.skip count) := by
  rw [Beside, Cursor.kinds_skip, Cursor.kinds_skip, h, List.drop_append_of_le_length hcount]

theorem Beside.length_le (h : Beside rest short long) : short.kinds.length ≤ long.kinds.length := by
  rw [h, List.length_append]
  exact Nat.le_add_right _ _

/-- Both cursors stand in front of the same token, unless the short one is at the end. -/
theorem Beside.current (h : Beside rest short long) (hne : short.kinds ≠ []) :
    long.current.kind = short.current.kind := by
  rw [long.kind_current, short.kind_current, h]
  cases hkinds : short.kinds with
  | nil => exact absurd hkinds hne
  | cons first kinds => rfl

/-- In front of two tokens both cursors show the same ones. -/
theorem Beside.next (h : Beside rest short long) (hne : short.kinds.tail ≠ []) :
    long.next.kind = short.next.kind := by
  rw [long.kind_next, short.kind_next, h]
  cases hkinds : short.kinds with
  | nil =>
    rw [hkinds] at hne
    exact absurd rfl hne
  | cons first kinds =>
    rw [hkinds, List.tail_cons] at hne
    cases kinds with
    | nil => exact absurd rfl hne
    | cons second kinds => rfl

variable (hrest : (headKind rest).mayFollow = true)
include hrest

/-- What may follow a method type is no mark but a bar. -/
theorem isMark_of_mayFollow {mark : Mark} (hmark : mark ≠ .pipe) :
    (headKind rest).isMark mark = false := by
  cases hkind : headKind rest with
  | mark found =>
    rw [hkind] at hrest
    cases found <;> first | exact beq_eq_false_iff_ne.2 (Ne.symm hmark) | cases hrest
  | _ => rfl

theorem isWord_self_of_mayFollow : (headKind rest).isWord "self" = false := by
  cases hkind : headKind rest with
  | ident word =>
    rw [hkind] at hrest
    simpa [TokenKind.mayFollow, TokenKind.isWord] using hrest
  | _ => rfl

/-- No mark but a bar tells the end of the short text from what follows it in the long one. -/
theorem Beside.atMark (h : Beside rest short long) {mark : Mark} (hmark : mark ≠ .pipe) :
    long.atMark mark = short.atMark mark := by
  by_cases hne : short.kinds = []
  · have hshort : short.atMark mark = false := by
      rw [Cursor.atMark, short.kind_current, hne]
      rfl
    rw [hshort, Cursor.atMark, long.kind_current, h, hne]
    exact isMark_of_mayFollow hrest hmark
  · rw [Cursor.atMark, Cursor.atMark, h.current hne]

theorem Beside.nextIsMark (h : Beside rest short long) {mark : Mark} (hmark : mark ≠ .pipe)
    (hne : short.kinds ≠ []) : long.nextIsMark mark = short.nextIsMark mark := by
  by_cases htail : short.kinds.tail = []
  · obtain ⟨first, kinds, hkinds⟩ := List.exists_cons_of_ne_nil hne
    rw [hkinds, List.tail_cons] at htail
    subst htail
    have hshort : short.nextIsMark mark = false := by
      rw [Cursor.nextIsMark, short.kind_next, hkinds]
      rfl
    rw [hshort, Cursor.nextIsMark, long.kind_next, h, hkinds]
    exact isMark_of_mayFollow hrest hmark
  · rw [Cursor.nextIsMark, Cursor.nextIsMark, h.next htail]

theorem Beside.next_isWord_self (h : Beside rest short long) (hne : short.kinds ≠ []) :
    long.next.kind.isWord "self" = short.next.kind.isWord "self" := by
  by_cases htail : short.kinds.tail = []
  · obtain ⟨first, kinds, hkinds⟩ := List.exists_cons_of_ne_nil hne
    rw [hkinds, List.tail_cons] at htail
    subst htail
    have hshort : short.next.kind.isWord "self" = false := by
      rw [short.kind_next, hkinds]
      rfl
    rw [hshort, long.kind_next, h, hkinds]
    exact isWord_self_of_mayFollow hrest
  · rw [h.next htail]

end Ahead

/-- A cursor in front of a token that is not the end has tokens left. -/
theorem kinds_eq_cons_of_current {cursor : Cursor} {kind : TokenKind}
    (h : cursor.current.kind = kind) (hkind : kind ≠ .eof) :
    ∃ kinds, cursor.kinds = kind :: kinds := by
  rw [cursor.kind_current] at h
  cases hkinds : cursor.kinds with
  | nil =>
    rw [hkinds] at h
    exact absurd h.symm hkind
  | cons first kinds =>
    rw [hkinds] at h
    exact ⟨kinds, congrArg (· :: kinds) h⟩

/-- Whether a reading in front of a token cannot be lost. -/
def TokenKind.isFirm : TokenKind → Bool
  | eof | mark .doubleColon => false
  | _ => true

theorem isFirm_mark {mark : Mark} (h : mark ≠ .doubleColon) :
    (TokenKind.mark mark).isFirm = true := by
  cases mark <;> first | rfl | exact absurd rfl h

theorem kinds_ne_nil_of_current {cursor : Cursor} {kind : TokenKind}
    (h : cursor.current.kind = kind) (hfirm : kind.isFirm = true) : cursor.kinds ≠ [] := by
  obtain ⟨kinds, hkinds⟩ := kinds_eq_cons_of_current h fun heof ↦ by
    rw [heof] at hfirm
    cases hfirm
  rw [hkinds]
  exact List.cons_ne_nil _ _

theorem eq_of_isMark {kind : TokenKind} {mark : Mark} (h : kind.isMark mark = true) :
    kind = .mark mark := by
  cases kind with
  | mark found => exact congrArg _ (eq_of_beq h)
  | _ => cases h

theorem exists_of_isWord {kind : TokenKind} {word : String} (h : kind.isWord word = true) :
    ∃ name, kind = .ident name := by
  cases kind with
  | ident name => exact ⟨name, rfl⟩
  | _ => cases h

theorem current_of_atMark {cursor : Cursor} {mark : Mark} (h : cursor.atMark mark = true) :
    cursor.current.kind = .mark mark :=
  eq_of_isMark h

theorem kind_current_advance (cursor : Cursor) :
    cursor.advance.current.kind = cursor.next.kind := by
  rw [cursor.advance.kind_current, cursor.kinds_advance, cursor.kind_next]

/-- In front of a token other than a double colon the reading is not lost. -/
theorem not_lost_of_current {cursor : Cursor} {kind : TokenKind} {inside : Bool}
    (h : cursor.current.kind = kind) (hfirm : kind.isFirm = true) :
    ¬Lost inside cursor.kinds := by
  rintro (hlost | ⟨-, hlost⟩)
  · rw [cursor.kind_current, hlost] at h
    rw [← h] at hfirm
    cases hfirm
  · exact kinds_ne_nil_of_current h hfirm hlost

/-! ## Sequences of steps -/

section Sequence

variable {α β : Type} {rest : List TokenKind} {inside : Bool} {short long : Cursor}

/-- What the first reading returns determines where both cursors end up. -/
theorem FollowsAt.exists_count {least : α → Nat} {first second : Parse α}
    (h : FollowsAt inside least first second short long) {value : α} {after : Cursor}
    (hrun : first.run short = .ok (value, after)) :
    ∃ count, least value ≤ count ∧ count ≤ short.kinds.length ∧ after = short.skip count ∧
      (Lost inside short.kinds → Lost inside after.kinds) ∧
      (Lost inside after.kinds ∨ second.run long = .ok (value, long.skip count)) := by
  obtain ⟨_, hlost, hsecond, count, hleast, hcount, rfl, rfl⟩ := h.exists_of_run hrun
  exact ⟨count, hleast, hcount, rfl, hlost, hsecond⟩

/-- To follow a run it is enough to follow it where it returns something. -/
theorem FollowsAt.of_run {least : α → Nat} {first second : Parse α}
    (h : ∀ value after, first.run short = .ok (value, after) →
      ∃ count, least value ≤ count ∧ count ≤ short.kinds.length ∧ after = short.skip count ∧
        (Lost inside short.kinds → Lost inside after.kinds) ∧
        (Lost inside after.kinds ∨ second.run long = .ok (value, long.skip count))) :
    FollowsAt inside least first second short long := by
  cases hrun : first.run short with
  | error error => exact .failed error hrun (.inl trivial)
  | ok result =>
    obtain ⟨count, hleast, hcount, hafter, hlost, hsecond⟩ := h _ _ hrun
    exact .returned _ _ _ hrun hlost hsecond ⟨count, hleast, hcount, hafter, rfl⟩

/-- A first reading that is lost and stays where it is. -/
theorem followsAt_of_lost {least : α → Nat} {first second : Parse α}
    (hlost : Lost inside short.kinds)
    (h : ∀ value after, first.run short = .ok (value, after) → after = short ∧ least value = 0) :
    FollowsAt inside least first second short long := by
  refine .of_run fun value after hrun ↦ ?_
  obtain ⟨rfl, hleast⟩ := h value after hrun
  exact ⟨0, Nat.le_of_eq hleast, Nat.zero_le _, rfl, id, .inl hlost⟩

theorem FollowsAt.mono {least least' : α → Nat} {first second : Parse α}
    (h : FollowsAt inside least first second short long)
    (hleast : ∀ value, least' value ≤ least value) :
    FollowsAt inside least' first second short long := by
  refine Simulates.mono h fun value _ _ hpost ↦ ?_
  obtain ⟨count, hcount, hrest⟩ := hpost
  exact ⟨count, Nat.le_trans (hleast value) hcount, hrest⟩

theorem followsAt_pure {least : α → Nat} {value : α} (hleast : least value = 0) :
    FollowsAt inside least (pure value) (pure value) short long :=
  Simulates.pure ⟨0, Nat.le_of_eq hleast, Nat.zero_le _, rfl, rfl⟩

/-- A run that fails need not be followed. -/
theorem followsAt_fail {least : α → Nat} (expected : String) (second : Parse α) :
    FollowsAt inside least (Parse.fail expected) second short long :=
  .failed _ rfl (.inl trivial)

/-- A sequence is followed step by step. What the second step has to read depends on how much the
first one has read. -/
theorem FollowsAt.bind {least : α → Nat} {least' : β → Nat} {first second : Parse α}
    {next next' : α → Parse β} (h : FollowsAt inside least first second short long)
    (h' : ∀ value count, least value ≤ count → count ≤ short.kinds.length →
      FollowsAt inside (fun result ↦ least' result - count) (next value) (next' value)
        (short.skip count) (long.skip count)) :
    FollowsAt inside least' (first >>= next) (second >>= next') short long := by
  refine Simulates.bind h fun value _ _ hmid ↦ ?_
  obtain ⟨count, hleast, hcount, rfl, rfl⟩ := hmid
  refine Simulates.mono (h' value count hleast hcount) fun result _ _ hpost ↦ ?_
  obtain ⟨count', hleast', hcount', rfl, rfl⟩ := hpost
  rw [Cursor.kinds_skip, List.length_drop] at hcount'
  exact ⟨count + count', Nat.sub_le_iff_le_add'.1 hleast', by omega, Cursor.skip_skip _ _ _,
    Cursor.skip_skip _ _ _⟩

/-- A token that the first reading knows is read by both. -/
theorem simulates_advance (hnotLost : ¬Lost inside short.kinds) :
    Simulates (following inside) short long Parse.advance Parse.advance fun _ short' long' ↦
      short' = short.advance ∧ long' = long.advance :=
  .returned () _ _ rfl (fun hlost ↦ absurd hlost hnotLost) (.inr rfl) ⟨rfl, rfl⟩

/-- A token of the short text is read by both. -/
theorem followsAt_advance (hnotLost : ¬Lost inside short.kinds) (hne : short.kinds ≠ []) :
    FollowsAt inside (fun _ ↦ 1) Parse.advance Parse.advance short long :=
  (simulates_advance hnotLost).mono fun _ _ _ hpost ↦
    ⟨1, Nat.le_refl 1, List.length_pos_iff.2 hne, hpost⟩

theorem followsAt_advance_bind (hbeside : Beside rest short long) {kind : TokenKind}
    (hkind : short.current.kind = kind) (hfirm : kind.isFirm = true)
    {next next' : Parse β} (h : Beside rest short.advance long.advance →
      FollowsAt inside (fun _ ↦ 0) next next' short.advance long.advance) :
    FollowsAt inside (fun _ ↦ 0) (Parse.advance >>= fun _ ↦ next)
      (Parse.advance >>= fun _ ↦ next') short long := by
  have hone : 1 ≤ short.kinds.length := List.length_pos_iff.2 (kinds_ne_nil_of_current hkind hfirm)
  refine (simulates_advance (not_lost_of_current hkind hfirm)).bind fun _ _ _ hmid ↦ ?_
  obtain ⟨rfl, rfl⟩ := hmid
  refine Simulates.mono (h (hbeside.skip hone)) fun _ _ _ hpost ↦ ?_
  obtain ⟨count, -, hcount, rfl, rfl⟩ := hpost
  rw [← Cursor.skip_one, Cursor.kinds_skip, List.length_drop] at hcount
  exact ⟨1 + count, Nat.zero_le _, by omega, Cursor.skip_skip _ 1 _, Cursor.skip_skip _ 1 _⟩

end Sequence

namespace Follows

variable {α β : Type} {rest : List TokenKind} {inside : Bool}

theorem pure (value : α) : Follows rest inside (Pure.pure value) (Pure.pure value) :=
  fun _ _ _ ↦ followsAt_pure rfl

theorem fail (expected : String) (second : Parse α) :
    Follows rest inside (Parse.fail expected) second :=
  fun _ _ _ ↦ followsAt_fail expected second

/-- Sequences of steps are followed step by step. -/
theorem bind {first second : Parse α} {next next' : α → Parse β}
    (h : Follows rest inside first second)
    (h' : ∀ value, Follows rest inside (next value) (next' value)) :
    Follows rest inside (first >>= next) (second >>= next') :=
  fun short long hbeside ↦ (h short long hbeside).bind fun value _ _ hcount ↦
    (h' value _ _ (hbeside.skip hcount)).mono fun _ ↦ Nat.le_of_eq (Nat.zero_sub _)

theorem ite {condition : Prop} [Decidable condition] {first first' second second' : Parse α}
    (h : Follows rest inside first first') (h' : Follows rest inside second second') :
    Follows rest inside (if condition then first else second)
      (if condition then first' else second') := by
  split
  · exact h
  · exact h'

/-- A reading that is not lost at the end may also stand inside of others. -/
theorem toInside {first second : Parse α} (h : Follows rest false first second) :
    Follows rest true first second := by
  refine fun short long hbeside ↦ .of_run fun value after hrun ↦ ?_
  obtain ⟨count, hleast, hcount, rfl, hlost, hsecond⟩ := (h short long hbeside).exists_count hrun
  have hmono : ∀ {kinds}, Lost false kinds → Lost true kinds := by
    rintro kinds (hcolon | ⟨hinside, -⟩)
    · exact .inl hcolon
    · cases hinside
  refine ⟨count, hleast, hcount, rfl, ?_, hsecond.imp_left hmono⟩
  rintro (hcolon | ⟨-, hnil⟩)
  · exact hmono (hlost (.inl hcolon))
  · refine .inr ⟨rfl, ?_⟩
    rw [Cursor.kinds_skip, hnil, List.drop_nil]

end Follows

/-! ## Loops -/

section Loops

variable {α β : Type} {rest : List TokenKind} {inside : Bool}

/-- The number of tokens that a round of a loop reads at least. -/
def Round.cost : Round α → Nat
  | .again _ => 1
  | .done _ => 0

/-- The second step of a loop follows the first one, which reads a token if the loop goes on. -/
def FollowsRound (rest : List TokenKind) (inside : Bool) (first second : Parse (Round α)) : Prop :=
  ∀ short long, Beside rest short long → FollowsAt inside Round.cost first second short long

theorem followsRound_done (value : α) :
    FollowsRound rest inside (pure (.done value)) (pure (.done value)) :=
  fun _ _ _ ↦ followsAt_pure rfl

theorem FollowsRound.bind {first second : Parse β} {next next' : β → Parse (Round α)}
    (h : Follows rest inside first second)
    (h' : ∀ value, FollowsRound rest inside (next value) (next' value)) :
    FollowsRound rest inside (first >>= next) (second >>= next') :=
  fun short long hbeside ↦ (h short long hbeside).bind fun value _ _ hcount ↦
    (h' value _ _ (hbeside.skip hcount)).mono fun _ ↦ Nat.sub_le _ _

/-- A loop is followed round by round, as each reads a token. -/
theorem follows_iterate {step step' : α → Parse (Round α)}
    (h : ∀ value, FollowsRound rest inside (step value) (step' value)) (init : α) :
    Follows rest inside (Parse.iterate step init) (Parse.iterate step' init) := by
  intro short long hbeside
  have hrounds : ∀ cursor : Cursor, cursor.rounds = cursor.kinds.length + 1 := by
    intro cursor
    rw [Cursor.rounds, Cursor.kinds, List.length_map]
  have hlength := hbeside.length_le
  have hinit : ∃ count ≤ short.kinds.length, short = short.skip count ∧ long = long.skip count :=
    ⟨0, Nat.zero_le _, rfl, rfl⟩
  refine .get_bind (.iterateUpTo (fun _ short' long' ↦ ∃ count ≤ short.kinds.length,
    short' = short.skip count ∧ long' = long.skip count) (fun cursor ↦ cursor.kinds.length) ?_
    hinit (by rw [hrounds]; omega) (by rw [hrounds]; omega))
  rintro value _ _ ⟨count, hcount, rfl, rfl⟩
  refine Simulates.mono (h value _ _ (hbeside.skip hcount)) fun round _ _ hround ↦ ?_
  obtain ⟨count', hcost, hcount', rfl, rfl⟩ := hround
  rw [Cursor.kinds_skip, List.length_drop] at hcount'
  rw [Cursor.skip_skip, Cursor.skip_skip]
  cases round with
  | done result => exact ⟨count + count', Nat.zero_le _, by omega, rfl, rfl⟩
  | again next =>
    -- The round has read a token, so that fewer are left.
    have hone : 1 ≤ count' := hcost
    refine ⟨⟨count + count', by omega, rfl, rfl⟩, ?_⟩
    simp only [Cursor.kinds_skip, List.length_drop]
    omega

end Loops

section Tokens

variable {α β : Type} {rest : List TokenKind} {inside : Bool} {short long : Cursor}

theorem run_eat_of_atMark {cursor : Cursor} {mark : Mark} (h : cursor.atMark mark = true) :
    (Parse.eat mark).run cursor = .ok (true, cursor.advance) := by
  simp only [Parse.eat, StateT.run_bind, StateT.run_get, pure_bind, h]
  rfl

theorem run_eat_of_not_atMark {cursor : Cursor} {mark : Mark} (h : cursor.atMark mark = false) :
    (Parse.eat mark).run cursor = .ok (false, cursor) := by
  simp only [Parse.eat, StateT.run_bind, StateT.run_get, pure_bind, h]
  rfl

/-- A mark other than a double colon is a token of both, and what is read there is not lost. -/
theorem Beside.atMark_of_atMark (hbeside : Beside rest short long) {mark : Mark}
    (hcolon : mark ≠ .doubleColon) (hmark : short.atMark mark = true) (inside : Bool) :
    short.kinds ≠ [] ∧ ¬Lost inside short.kinds ∧ long.atMark mark = true := by
  have hkind := current_of_atMark hmark
  have hne := kinds_ne_nil_of_current hkind (isFirm_mark hcolon)
  refine ⟨hne, not_lost_of_current hkind (isFirm_mark hcolon), ?_⟩
  rw [Cursor.atMark, hbeside.current hne]
  exact hmark

/-- A mark is eaten by both or by neither. A bar would be eaten where overloads end, so it has to
stand inside of something. -/
theorem followsAt_eat (hrest : (headKind rest).mayFollow = true) (hbeside : Beside rest short long)
    {mark : Mark} (hcolon : mark ≠ .doubleColon) (hpipe : mark = .pipe → inside = true) :
    FollowsAt inside (fun eaten ↦ if eaten then 1 else 0) (Parse.eat mark) (Parse.eat mark) short
      long := by
  cases hmark : short.atMark mark with
  | true =>
    obtain ⟨hne, hnotLost, hlong⟩ := hbeside.atMark_of_atMark hcolon hmark inside
    exact .returned true short.advance long.advance (run_eat_of_atMark hmark)
      (fun hlost ↦ absurd hlost hnotLost) (.inr (run_eat_of_atMark hlong))
      ⟨1, Nat.le_refl 1, List.length_pos_iff.2 hne, rfl, rfl⟩
  | false =>
    refine .returned false short long (run_eat_of_not_atMark hmark) id ?_
      ⟨0, Nat.le_refl 0, Nat.zero_le _, rfl, rfl⟩
    by_cases hlost : inside = true ∧ short.kinds = []
    · exact .inl (.inr hlost)
    · have hlong : long.atMark mark = false := by
        rw [← hmark]
        by_cases hne : short.kinds = []
        · exact hbeside.atMark hrest fun h ↦ hlost ⟨hpipe h, hne⟩
        · rw [Cursor.atMark, Cursor.atMark, hbeside.current hne]
      exact .inr (run_eat_of_not_atMark hlong)

theorem follows_eat (hrest : (headKind rest).mayFollow = true) {mark : Mark}
    (hcolon : mark ≠ .doubleColon) (hpipe : mark = .pipe → inside = true) :
    Follows rest inside (Parse.eat mark) (Parse.eat mark) :=
  fun _ _ hbeside ↦ (followsAt_eat hrest hbeside hcolon hpipe).mono fun _ ↦ Nat.zero_le _

/-- A loop that goes on behind a mark reads the mark. -/
theorem followsRound_eat (hrest : (headKind rest).mayFollow = true) {mark : Mark}
    (hcolon : mark ≠ .doubleColon) (hpipe : mark = .pipe → inside = true)
    {first first' second second' : Parse (Round α)} (h : Follows rest inside first first')
    (h' : FollowsRound rest inside second second') :
    FollowsRound rest inside (Parse.eat mark >>= fun eaten ↦ if eaten then first else second)
      (Parse.eat mark >>= fun eaten ↦ if eaten then first' else second') := by
  intro short long hbeside
  refine (followsAt_eat hrest hbeside hcolon hpipe).bind fun eaten count hleast hcount ↦ ?_
  cases eaten with
  | true =>
    refine (h _ _ (hbeside.skip hcount)).mono fun round ↦ ?_
    have hone : 1 ≤ count := hleast
    cases round <;> simp only [Round.cost] <;> omega
  | false => exact (h' _ _ (hbeside.skip hcount)).mono fun _ ↦ Nat.sub_le _ _

theorem followsAt_expect (hbeside : Beside rest short long) {mark : Mark}
    (hcolon : mark ≠ .doubleColon) (expected : String) :
    FollowsAt inside (fun _ ↦ 0) (Parse.expect mark expected) (Parse.expect mark expected) short
      long := by
  apply Simulates.get_bind
  cases hmark : short.atMark mark with
  | true =>
    obtain ⟨hne, hnotLost, hlong⟩ := hbeside.atMark_of_atMark hcolon hmark inside
    rw [if_pos rfl, if_pos hlong]
    exact (followsAt_advance hnotLost hne).mono fun _ ↦ Nat.zero_le _
  | false =>
    rw [if_neg Bool.false_ne_true]
    exact followsAt_fail expected _

theorem follows_expect {mark : Mark} (hcolon : mark ≠ .doubleColon) (expected : String) :
    Follows rest inside (Parse.expect mark expected) (Parse.expect mark expected) :=
  fun _ _ hbeside ↦ followsAt_expect hbeside hcolon expected

/-- What stands in front of a closing mark is not lost. -/
theorem follows_closed {mark : Mark} (hcolon : mark ≠ .doubleColon) (expected : String)
    {first second : Parse α} {next next' : α → Parse β} (h : Follows rest true first second)
    (h' : ∀ value, Follows rest inside (next value) (next' value)) :
    Follows rest inside (first >>= fun value ↦ Parse.expect mark expected >>= fun _ ↦ next value)
      (second >>= fun value ↦ Parse.expect mark expected >>= fun _ ↦ next' value) := by
  refine fun short long hbeside ↦ .of_run fun result after hrun ↦ ?_
  obtain ⟨value, middle, hfirst, hclose⟩ := run_bind_eq_ok hrun
  obtain ⟨count, -, hcount, rfl, hlost, hsecond⟩ := (h short long hbeside).exists_count hfirst
  have hbeside' := hbeside.skip hcount
  have hexpect : Follows rest inside (Parse.expect mark expected) (Parse.expect mark expected) :=
    follows_expect hcolon expected
  have hfollows := (hexpect.bind fun _ ↦ h' value) _ _ hbeside'
  obtain ⟨count', -, hcount', rfl, -, hsecond'⟩ := hfollows.exists_count hclose
  have hnotLost : ¬Lost true (short.skip count).kinds := by
    obtain ⟨_, _, hmet, -⟩ := run_bind_eq_ok hclose
    cases hmark : (short.skip count).atMark mark with
    | true =>
      exact not_lost_of_current (current_of_atMark hmark) (isFirm_mark hcolon)
    | false =>
      rw [Parse.expect] at hmet
      obtain ⟨_, _, hget, hmet⟩ := run_bind_eq_ok hmet
      cases hget
      rw [if_neg (by simp [hmark])] at hmet
      cases hmet
  have hmono : Lost inside short.kinds → Lost true short.kinds := by
    rintro (hdouble | ⟨-, hnil⟩)
    · exact .inl hdouble
    · exact .inr ⟨rfl, hnil⟩
  rw [Cursor.kinds_skip, List.length_drop] at hcount'
  refine ⟨count + count', Nat.zero_le _, by omega, Cursor.skip_skip _ _ _,
    fun hshort ↦ absurd (hlost (hmono hshort)) hnotLost, ?_⟩
  rw [run_bind_of_ok (hsecond.resolve_left hnotLost), ← Cursor.skip_skip]
  exact hsecond'

/-- What stands between a mark and the one that closes it is followed as the inside of something. -/
theorem follows_closing {mark : Mark} (hcolon : mark ≠ .doubleColon) (expected : String)
    {first second : Parse α} (h : Follows rest true first second) :
    Follows rest inside (first >>= fun _ ↦ Parse.expect mark expected)
      (second >>= fun _ ↦ Parse.expect mark expected) := by
  rw [← bind_pure_unit (x := Parse.expect mark expected)]
  exact follows_closed hcolon expected h fun _ ↦ .pure ()

/-- A reading that goes on by the kind of the next token. At the end it fails, or stays there
inside of others. -/
theorem follows_currentKind_bind {next next' : TokenKind → Parse β}
    (hend : ∀ cursor result after, (next .eof).run cursor = .ok (result, after) →
      inside = true ∧ after = cursor)
    (h : ∀ kind short long, short.kinds ≠ [] → short.current.kind = kind →
      Beside rest short long → FollowsAt inside (fun _ ↦ 0) (next kind) (next' kind) short long) :
    Follows rest inside (Parse.currentKind >>= next) (Parse.currentKind >>= next') := by
  refine fun short long hbeside ↦ .get_bind ?_
  by_cases hnil : short.kinds = []
  · refine FollowsAt.of_run fun result after hrun ↦ ?_
    rw [short.kind_current, hnil] at hrun
    obtain ⟨hinside, rfl⟩ := hend _ _ _ hrun
    exact ⟨0, Nat.le_refl 0, Nat.zero_le _, rfl, id, .inl (.inr ⟨hinside, hnil⟩)⟩
  · rw [hbeside.current hnil]
    exact h _ short long hnil rfl hbeside

theorem follows_ident (expected : String) :
    Follows rest inside (Parse.ident expected) (Parse.ident expected) := by
  apply follows_currentKind_bind
  · intro cursor result after hrun
    cases hrun
  · intro kind short long _ hkind hbeside
    cases kind with
    | ident name =>
      exact followsAt_advance_bind hbeside hkind rfl fun _ ↦ followsAt_pure rfl
    | _ => exact followsAt_fail expected _

end Tokens

/-- A reading that reads all its tokens reads the same in front of the rest. -/
theorem Follows.run_eq_ok {α : Type} {rest : List TokenKind} {first second : Parse α}
    (h : Follows rest false first second) {short long after : Cursor}
    (hbeside : Beside rest short long) {value : α} (hrun : first.run short = .ok (value, after))
    (hafter : after.kinds = []) :
    second.run long = .ok (value, long.skip short.kinds.length) := by
  obtain ⟨count, -, hcount, rfl, -, hsecond⟩ := (h short long hbeside).exists_count hrun
  have hnotLost : ¬Lost false (short.skip count).kinds := by
    rw [hafter]
    rintro (hlost | ⟨hinside, -⟩)
    · cases hlost
    · cases hinside
  rw [Cursor.kinds_skip, List.drop_eq_nil_iff] at hafter
  rw [hsecond.resolve_left hnotLost, Nat.le_antisymm hcount hafter]

end DeclaredMethods.Signature
