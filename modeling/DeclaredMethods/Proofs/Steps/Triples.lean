import DeclaredMethods.Iteration
import Mathlib.Data.Option.Basic

/-!
# Triples

The steps of a parser change a state and may fail to give a value. What such a step does is said
from one state on, by a property of the value it gives and of the state it leaves. Steps that must
give a value and steps that may fail obey the same rules, so the rules are stated for both at once.

A step may also be said to preserve an invariant of the state. Then no states are mentioned any
more, and what remains is a property of its values.
-/

namespace DeclaredMethods

/-- Monads in which a computation gives one value or fails. -/
class Fallible (m : Type → Type) [Monad m] : Prop extends LawfulMonad m where
  pure_injective {α : Type} : Function.Injective (pure : α → m α)
  exists_of_bind {α β : Type} {x : m α} {f : α → m β} {b : β} :
    x >>= f = pure b → ∃ a, x = pure a ∧ f a = pure b

instance : Fallible Option where
  pure_injective := Option.some.inj
  exists_of_bind := Option.bind_eq_some_iff.1

instance {ε : Type} : Fallible (Except ε) where
  pure_injective := Except.ok.inj
  exists_of_bind {_ _ x _ _} h := by
    cases x with
    | error error => cases h
    | ok a => exact ⟨a, rfl, h⟩

section Triples

variable {m : Type → Type} [Monad m] {σ α β : Type}

/-- From a state, a step gives a value and leaves a state such that the two have the given property,
or it fails where it may. -/
def Triple (mayFail : Prop) (s : σ) (step : StateT σ m α) (post : α → σ → Prop) : Prop :=
  (∃ value s', step.run s = pure (value, s') ∧ post value s') ∨
    mayFail ∧ ∀ result, step.run s ≠ pure result

variable {mayFail : Prop} {s : σ} {step other : StateT σ m α} {next : α → StateT σ m β}
  {mid post : α → σ → Prop} {last : β → σ → Prop}

/-- A step that must not fail gives a value with the property. -/
theorem triple_false_iff :
    Triple False s step post ↔ ∃ value s', step.run s = pure (value, s') ∧ post value s' := by
  rw [Triple, false_and, or_false]

theorem Triple.pure {value : α} (h : post value s) :
    Triple mayFail s (Pure.pure value : StateT σ m α) post :=
  .inl ⟨value, s, rfl, h⟩

theorem Triple.mono (h : Triple mayFail s step mid)
    (himp : ∀ value s', mid value s' → post value s') : Triple mayFail s step post := by
  rcases h with ⟨value, s', hrun, hmid⟩ | hfails
  · exact .inl ⟨value, s', hrun, himp value s' hmid⟩
  · exact .inr hfails

theorem Triple.ite {condition : Prop} [Decidable condition]
    (h : condition → Triple mayFail s step post) (h' : ¬condition → Triple mayFail s other post) :
    Triple mayFail s (if condition then step else other) post := by
  split
  · next hcondition => exact h hcondition
  · next hcondition => exact h' hcondition

variable [Fallible m]

/-- What a step promises holds of a run of it. -/
theorem Triple.of_run {value : α} {s' : σ} (h : Triple mayFail s step post)
    (hrun : step.run s = Pure.pure (value, s')) : post value s' := by
  rcases h with ⟨value', s'', hrun', hpost⟩ | ⟨-, hfails⟩
  · rw [hrun] at hrun'
    cases Fallible.pure_injective hrun'
    exact hpost
  · exact absurd hrun (hfails _)

/-- Whatever a step that may fail gives has the property. -/
theorem triple_true_iff :
    Triple True s step post ↔ ∀ value s', step.run s = pure (value, s') → post value s' := by
  refine ⟨fun h _ _ ↦ h.of_run, fun h ↦ ?_⟩
  by_cases hrun : ∃ result, step.run s = pure result
  · obtain ⟨⟨value, s'⟩, hrun⟩ := hrun
    exact .inl ⟨value, s', hrun, h value s' hrun⟩
  · exact .inr ⟨trivial, not_exists.1 hrun⟩

theorem triple_failure {post : α → σ → Prop} : Triple True s (failure : StateT σ Option α) post :=
  .inr ⟨trivial, fun _ ↦ nofun⟩

/-- Two promises about one step hold of the same value. -/
theorem Triple.and {post' : α → σ → Prop} {mayFail' : Prop} (h : Triple mayFail s step post)
    (h' : Triple mayFail' s step post') :
    Triple mayFail s step fun value s' ↦ post value s' ∧ post' value s' := by
  rcases h with ⟨value, s', hrun, hpost⟩ | hfails
  · exact .inl ⟨value, s', hrun, hpost, h'.of_run hrun⟩
  · exact .inr hfails

/-- Going on behind a step whose result is known. -/
theorem Triple.bind_of_run {value : α} {s' : σ} (hrun : step.run s = Pure.pure (value, s'))
    (h : Triple mayFail s' (next value) last) : Triple mayFail s (step >>= next) last := by
  have hbind : (step >>= next).run s = (next value).run s' := by
    rw [StateT.run_bind, hrun, pure_bind]
  rw [Triple, hbind]
  exact h

/-- The second step may use all that the first one promises. -/
theorem Triple.bind (h : Triple mayFail s step mid)
    (hnext : ∀ value s', mid value s' → Triple mayFail s' (next value) last) :
    Triple mayFail s (step >>= next) last := by
  rcases h with ⟨value, s', hrun, hmid⟩ | ⟨hmay, hfails⟩
  · exact .bind_of_run hrun (hnext value s' hmid)
  · refine .inr ⟨hmay, fun result hrun ↦ ?_⟩
    rw [StateT.run_bind] at hrun
    obtain ⟨middle, hstep, -⟩ := Fallible.exists_of_bind hrun
    exact hfails middle hstep

/-- Going on behind a step that may do anything. -/
theorem Triple.any_bind (hnext : ∀ value s', Triple True s' (next value) last) :
    Triple True s (step >>= next) last :=
  (triple_true_iff.2 fun _ _ _ ↦ trivial).bind fun value s' (_ : True) ↦ hnext value s'

theorem Triple.get_bind {next : σ → StateT σ m β} (h : Triple mayFail s (next s) last) :
    Triple mayFail s (get >>= next) last :=
  .bind_of_run rfl h

theorem Triple.modify_bind {change : σ → σ} {next : PUnit → StateT σ m β}
    (h : Triple mayFail (change s) (next ⟨⟩) last) :
    Triple mayFail s ((modify change : StateT σ m PUnit) >>= next) last :=
  .bind_of_run rfl h

/-- A step that is only made on a condition, in front of others. -/
theorem Triple.optional {condition : Prop} [Decidable condition] {first : StateT σ m Unit}
    {next : Unit → StateT σ m β} {mid : σ → Prop} (h : Triple mayFail s first fun _ s' ↦ mid s')
    (hskip : mid s) (hnext : ∀ s', mid s' → Triple mayFail s' (next ()) last) :
    Triple mayFail s (if condition then first >>= next else next ()) last :=
  .ite (fun _ ↦ h.bind fun _ ↦ hnext) fun _ ↦ hnext s hskip

end Triples

section Loops

variable {m : Type → Type} [Monad m] {σ α : Type} {mayFail : Prop} {s : σ}
  {post : α → σ → Prop} {init : α}

/-- What a round of a loop leaves: the invariant of the loop, or its result. -/
def Round.Leaves (inv post : α → σ → Prop) : Round α → σ → Prop
  | .again value, s => inv value s
  | .done value, s => post value s

/-- A loop of steps that may fail gives what its last round gives, as long as every other one keeps
its invariant. -/
theorem triple_iterateWithin (inv : α → σ → Prop) {step : α → StateT σ Option (Round α)}
    {bound : Nat} (hinit : inv init s)
    (hstep : ∀ value s', inv value s' → Triple True s' (step value) (Round.Leaves inv post)) :
    Triple True s (iterateWithin bound step init) post := by
  induction bound generalizing init s with
  | zero => exact triple_failure
  | succ bound ih =>
    refine (hstep init s hinit).bind fun round s' hround ↦ ?_
    cases round with
    | again value => exact ih hround
    | done value => exact .pure hround

/-- A loop comes to its end within its bound if something gets less with every round. -/
theorem triple_iterateWithin_of_lt (inv : α → σ → Prop) (measure : σ → Nat)
    {step : α → StateT σ Option (Round α)} {bound : Nat} (hbound : measure s < bound)
    (hinit : inv init s)
    (hstep : ∀ value s', inv value s' → Triple mayFail s' (step value)
      (Round.Leaves (fun value s'' ↦ inv value s'' ∧ measure s'' < measure s') post)) :
    Triple mayFail s (iterateWithin bound step init) post := by
  induction bound generalizing init s with
  | zero => exact absurd hbound (Nat.not_lt_zero _)
  | succ bound ih =>
    refine (hstep init s hinit).bind fun round s' hround ↦ ?_
    cases round with
    | again value => exact ih (Nat.lt_of_lt_of_le hround.2 (Nat.le_of_lt_succ hbound)) hround.1
    | done value => exact .pure hround

end Loops

section Preserves

variable {m : Type → Type} [Monad m] {σ α β : Type}

/-- From every state with an invariant, whatever a step gives has the given property, and the state
it leaves has the invariant again. -/
def Preserves (inv : σ → Prop) (step : StateT σ m α) (post : α → Prop) : Prop :=
  ∀ s, inv s → Triple True s step fun value s' ↦ post value ∧ inv s'

variable {inv : σ → Prop} {step other : StateT σ m α} {next : α → StateT σ m β}
  {mid post : α → Prop}
  {last : β → Prop}

theorem Preserves.pure {value : α} (h : post value) :
    Preserves inv (Pure.pure value : StateT σ m α) post :=
  fun _ hs ↦ .pure ⟨h, hs⟩

theorem Preserves.mono (h : Preserves inv step mid) (himp : ∀ value, mid value → post value) :
    Preserves inv step post :=
  fun s hs ↦ (h s hs).mono fun value _ hmid ↦ ⟨himp value hmid.1, hmid.2⟩

theorem Preserves.ite {condition : Prop} [Decidable condition]
    (h : condition → Preserves inv step post) (h' : ¬condition → Preserves inv other post) :
    Preserves inv (if condition then step else other) post :=
  fun s hs ↦ .ite (fun hcondition ↦ h hcondition s hs) fun hcondition ↦ h' hcondition s hs

/-- A choice whose condition does not matter. -/
theorem Preserves.either {condition : Prop} [Decidable condition] (h : Preserves inv step post)
    (h' : Preserves inv other post) : Preserves inv (if condition then step else other) post :=
  .ite (fun _ ↦ h) fun _ ↦ h'

theorem Preserves.get : Preserves inv (MonadState.get : StateT σ m σ) inv :=
  fun s hs ↦ .inl ⟨s, s, rfl, hs, hs⟩

/-- A change of the state preserves what it preserves. -/
theorem Preserves.of_modify {change : σ → σ} (h : ∀ s, inv s → inv (change s)) :
    Preserves inv (modify change : StateT σ m PUnit) fun _ ↦ True :=
  fun s hs ↦ .inl ⟨⟨⟩, change s, rfl, trivial, h s hs⟩

variable [Fallible m]

theorem Preserves.bind (h : Preserves inv step mid)
    (hnext : ∀ value, mid value → Preserves inv (next value) last) :
    Preserves inv (step >>= next) last :=
  fun s hs ↦ (h s hs).bind fun value s' hmid ↦ hnext value hmid.1 s' hmid.2

theorem Preserves.map {f : α → β} (h : Preserves inv step post)
    (hf : ∀ value, post value → last (f value)) : Preserves inv (f <$> step) last := by
  rw [map_eq_pure_bind]
  exact h.bind fun value hvalue ↦ .pure (hf value hvalue)

def Round.value : Round α → α
  | again value | done value => value

/-- By induction on the bound: every round keeps the invariant and the promise. -/
theorem Preserves.iterateUpTo {round : α → StateT σ m (Round α)} {init : α} (hinit : post init)
    (hround : ∀ value, post value → Preserves inv (round value) fun result ↦ post result.value)
    (bound : Nat) : Preserves inv (iterateUpTo bound round init) post := by
  induction bound generalizing init with
  | zero => exact .pure hinit
  | succ bound ih =>
    refine (hround init hinit).bind fun result hresult ↦ ?_
    cases result with
    | again value => exact ih hresult
    | done value => exact .pure hresult

theorem Preserves.iterateWithin {round : α → StateT σ Option (Round α)} {init : α}
    (hinit : post init)
    (hround : ∀ value, post value → Preserves inv (round value) fun result ↦ post result.value)
    (bound : Nat) : Preserves inv (iterateWithin bound round init) post := by
  refine fun s hs ↦ triple_iterateWithin (fun value s' ↦ post value ∧ inv s') ⟨hinit, hs⟩ ?_
  intro value s' hvalue
  refine (hround value hvalue.1 s' hvalue.2).mono fun result s'' hresult ↦ ?_
  cases result with
  | again value => exact hresult
  | done value => exact hresult

end Preserves

section Returns

variable {m : Type → Type} [Monad m] {σ κ α β : Type} {view : σ → κ}

/-- From every state that looks in a certain way, a step gives a certain value and leaves a state
that looks in another way. -/
def Returns (view : σ → κ) (step : StateT σ m α) (before : κ) (value : α) (after : κ) : Prop :=
  ∀ s, view s = before → Triple False s step fun result s' ↦ result = value ∧ view s' = after

variable {step : StateT σ m α} {next : α → StateT σ m β} {before middle after : κ} {value : α}
  {result : β}

/-- A step that returns does not fail. -/
theorem Returns.exists_run (h : Returns view step before value after) {s : σ}
    (hs : view s = before) : ∃ s', step.run s = Pure.pure (value, s') ∧ view s' = after := by
  obtain ⟨_, s', hrun, rfl, hafter⟩ := triple_false_iff.1 (h s hs)
  exact ⟨s', hrun, hafter⟩

theorem Returns.of_run (h : ∀ s, view s = before →
    ∃ s', step.run s = Pure.pure (value, s') ∧ view s' = after) :
    Returns view step before value after := by
  intro s hs
  obtain ⟨s', hrun, hafter⟩ := h s hs
  exact .inl ⟨value, s', hrun, rfl, hafter⟩

theorem Returns.pure (value : α) (seen : κ) :
    Returns view (Pure.pure value : StateT σ m α) seen value seen :=
  fun _ hs ↦ .pure ⟨rfl, hs⟩

variable [Fallible m]

theorem Returns.bind (h : Returns view step before value middle)
    (hnext : Returns view (next value) middle result after) :
    Returns view (step >>= next) before result after := by
  refine fun s hs ↦ (h s hs).bind fun value' s' hmid ↦ ?_
  obtain ⟨rfl, hmiddle⟩ := hmid
  exact hnext s' hmiddle

/-- What is done with the state may depend on the part that is seen. -/
theorem Returns.get_bind {next : σ → StateT σ m β}
    (h : ∀ s, view s = before → Returns view (next s) before result after) :
    Returns view (get >>= next) before result after :=
  fun s hs ↦ .get_bind (h s hs s hs)

/-- A loop that is followed round by round, where something gets less with every round. -/
inductive Iterates (view : σ → κ) (size : κ → Nat) (step : α → StateT σ m (Round α)) :
    α → κ → α → κ → Prop
  | done {value result : α} {before after : κ}
      (hstep : Returns view (step value) before (.done result) after) :
      Iterates view size step value before result after
  | again {value next result : α} {before middle after : κ}
      (hstep : Returns view (step value) before (.again next) middle)
      (hless : size middle < size before)
      (hrest : Iterates view size step next middle result after) :
      Iterates view size step value before result after

/-- By induction over the rounds; the size goes down in each, so the bound is not reached. -/
theorem Iterates.iterateUpTo {size : κ → Nat} {step : α → StateT σ m (Round α)} {result : α}
    (h : Iterates view size step value before result after) (bound : Nat)
    (hbound : size before < bound) :
    Returns view (iterateUpTo bound step value) before result after := by
  induction h generalizing bound with
  | done hstep =>
    cases bound with
    | zero => exact absurd hbound (Nat.not_lt_zero _)
    | succ bound => exact hstep.bind (.pure _ _)
  | again hstep hless _ ih =>
    cases bound with
    | zero => exact absurd hbound (Nat.not_lt_zero _)
    | succ bound => exact hstep.bind (ih bound (by omega))

end Returns

end DeclaredMethods
