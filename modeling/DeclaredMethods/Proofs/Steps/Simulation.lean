import DeclaredMethods.Proofs.Steps.Triples

/-!
# Two runs side by side

Two steps are run from two states, and what they give is compared. In the simplest case both give
the same value or fail with the same error, and what is left to say is a property of the states they
leave.

A second run may also be held to less. It need not keep up with a first run that is lost, where
nothing that follows can matter any more, and it need not share all errors of the first run.
-/

namespace DeclaredMethods

/-- What a second run has to share with a first one. -/
structure Comparison (σ ε : Type) where
  /-- States of the first run in which the second one need not have kept up with it. -/
  lost : σ → Prop
  /-- Errors that the first run may have for its own. -/
  own : ε → Prop
  /-- What is known of the other errors, which both runs have. -/
  shared : ε → Prop
  own_of_lost {s : σ} {error : ε} : lost s → own error

/-- Both runs give the same value, or they fail with the same error. -/
def Comparison.exact {σ ε : Type} (shared : ε → Prop) : Comparison σ ε where
  lost _ := False
  own _ := False
  shared := shared
  own_of_lost := False.elim

section Simulates

variable {σ τ ε α β : Type}

/-- From two states, the second step gives what the first one gives, and value and states have the
given property. The second state is stated also where the first run is lost: it is where the second
run would be if it had kept up. -/
inductive Simulates (compared : Comparison σ ε) (s : σ) (t : τ) (first : StateT σ (Except ε) α)
    (second : StateT τ (Except ε) α) (post : α → σ → τ → Prop) : Prop
  | returned (value : α) (s' : σ) (t' : τ) (hfirst : first.run s = .ok (value, s'))
      (hlost : compared.lost s → compared.lost s')
      (hsecond : compared.lost s' ∨ second.run t = .ok (value, t')) (hpost : post value s' t')
  | failed (error : ε) (hfirst : first.run s = .error error)
      (hsecond : compared.own error ∨ second.run t = .error error ∧ compared.shared error)

variable {compared : Comparison σ ε} {s : σ} {t : τ} {first other : StateT σ (Except ε) α}
  {second other' : StateT τ (Except ε) α} {next : α → StateT σ (Except ε) β}
  {next' : α → StateT τ (Except ε) β} {mid post : α → σ → τ → Prop} {last : β → σ → τ → Prop}

/-- Where the first run gives a value, the second one gives it too, unless track of it is lost. -/
theorem Simulates.exists_of_run (h : Simulates compared s t first second post) {value : α} {s' : σ}
    (hrun : first.run s = .ok (value, s')) :
    ∃ t', (compared.lost s → compared.lost s') ∧
      (compared.lost s' ∨ second.run t = .ok (value, t')) ∧ post value s' t' := by
  cases h with
  | returned value' s'' t' hfirst hlost hsecond hpost =>
    cases hfirst.symm.trans hrun
    exact ⟨t', hlost, hsecond, hpost⟩
  | failed error hfirst => cases hfirst.symm.trans hrun

/-- In an exact comparison there is nothing else than the same value or the same error. -/
theorem simulates_exact_iff {shared : ε → Prop} :
    Simulates (.exact shared) s t first second post ↔
      (∃ error, first.run s = .error error ∧ second.run t = .error error ∧ shared error) ∨
        ∃ value s' t', first.run s = .ok (value, s') ∧ second.run t = .ok (value, t') ∧
          post value s' t' := by
  constructor
  · rintro (⟨value, s', t', hfirst, -, hsecond, hpost⟩ | ⟨error, hfirst, hsecond⟩)
    · exact .inr ⟨value, s', t', hfirst, hsecond.resolve_left id, hpost⟩
    · exact .inl ⟨error, hfirst, hsecond.resolve_left id⟩
  · rintro (⟨error, hfirst, hsecond⟩ | ⟨value, s', t', hfirst, hsecond, hpost⟩)
    · exact .failed error hfirst (.inr hsecond)
    · exact .returned value s' t' hfirst id (.inr hsecond) hpost

/-- A weaker postcondition, of the values and of both states. -/
theorem Simulates.mono (h : Simulates compared s t first second mid)
    (himp : ∀ value s' t', mid value s' t' → post value s' t') :
    Simulates compared s t first second post := by
  cases h with
  | returned value s' t' hfirst hlost hsecond hmid =>
    exact .returned value s' t' hfirst hlost hsecond (himp value s' t' hmid)
  | failed error hfirst hsecond => exact .failed error hfirst hsecond

theorem Simulates.pure {value : α} (h : post value s t) :
    Simulates compared s t (Pure.pure value) (Pure.pure value) post :=
  .returned value s t rfl id (.inr rfl) h

theorem Simulates.ite {condition : Prop} [Decidable condition]
    (h : condition → Simulates compared s t first second post)
    (h' : ¬condition → Simulates compared s t other other' post) :
    Simulates compared s t (if condition then first else other)
      (if condition then second else other') post := by
  split
  · next hcondition => exact h hcondition
  · next hcondition => exact h' hcondition

theorem run_bind_of_ok {step : StateT σ (Except ε) α} {value : α} {s' : σ}
    (h : step.run s = .ok (value, s')) : (step >>= next).run s = (next value).run s' := by
  rw [StateT.run_bind, h]
  rfl

/-- A sequence that succeeds is made of steps that do. -/
theorem run_bind_eq_ok {step : StateT σ (Except ε) α} {result : β} {s' : σ}
    (h : (step >>= next).run s = .ok (result, s')) :
    ∃ value middle, step.run s = .ok (value, middle) ∧
      (next value).run middle = .ok (result, s') := by
  rw [StateT.run_bind] at h
  obtain ⟨⟨value, middle⟩, hstep, hnext⟩ := Fallible.exists_of_bind h
  exact ⟨value, middle, hstep, hnext⟩

theorem run_bind_of_error {step : StateT σ (Except ε) α} {error : ε}
    (h : step.run s = .error error) : (step >>= next).run s = .error error := by
  rw [StateT.run_bind, h]
  rfl

/-- A sequence is followed step by step. -/
theorem Simulates.bind (h : Simulates compared s t first second mid)
    (hnext : ∀ value s' t', mid value s' t' →
      Simulates compared s' t' (next value) (next' value) last) :
    Simulates compared s t (first >>= next) (second >>= next') last := by
  cases h with
  | failed error hfirst hsecond =>
    refine .failed error (run_bind_of_error hfirst) ?_
    exact hsecond.imp_right fun hsecond ↦ ⟨run_bind_of_error hsecond.1, hsecond.2⟩
  | returned value s' t' hfirst hlost hsecond hmid =>
    cases hnext value s' t' hmid with
    | failed error hfirst' hsecond' =>
      refine .failed error ((run_bind_of_ok hfirst).trans hfirst') ?_
      rcases hsecond with hgone | hsecond
      · exact .inl (compared.own_of_lost hgone)
      · exact hsecond'.imp_right fun hsecond' ↦
          ⟨(run_bind_of_ok hsecond).trans hsecond'.1, hsecond'.2⟩
    | returned result s'' t'' hfirst' hlost' hsecond' hlast =>
      refine .returned result s'' t'' ((run_bind_of_ok hfirst).trans hfirst') (hlost' ∘ hlost) ?_
        hlast
      rcases hsecond with hgone | hsecond
      · exact .inl (hlost' hgone)
      · exact hsecond'.imp_right (run_bind_of_ok hsecond).trans

/-- The first run may take a step that the second one has not. -/
theorem Simulates.step_bind {step : StateT σ (Except ε) α} {value : α} {s' : σ}
    (hstep : step.run s = .ok (value, s')) (hlost : compared.lost s → compared.lost s')
    {rest : StateT τ (Except ε) β} (h : Simulates compared s' t (next value) rest last) :
    Simulates compared s t (step >>= next) rest last := by
  cases h with
  | returned result s'' t' hfirst hlost' hsecond hlast =>
    exact .returned result s'' t' ((run_bind_of_ok hstep).trans hfirst) (hlost' ∘ hlost) hsecond
      hlast
  | failed error hfirst hsecond =>
    exact .failed error ((run_bind_of_ok hstep).trans hfirst) hsecond

/-- A step that looks at the state is followed if what it then does is. -/
theorem Simulates.get_bind {next : σ → StateT σ (Except ε) β} {next' : τ → StateT τ (Except ε) β}
    (h : Simulates compared s t (next s) (next' t) last) :
    Simulates compared s t (get >>= next) (get >>= next') last := by
  cases h with
  | returned value s' t' hfirst hlost hsecond hlast =>
    exact .returned value s' t' hfirst hlost hsecond hlast
  | failed error hfirst hsecond => exact .failed error hfirst hsecond

/-- What a round of two loops leaves: the invariant of the loops, or their result. -/
def Round.LeavesBoth (inv : α → σ → τ → Prop) (post : α → σ → τ → Prop) :
    Round α → σ → τ → Prop
  | .again value, s, t => inv value s t
  | .done value, s, t => post value s t

/-- Two loops do the same if their rounds do and neither comes to its bound, as something gets less
with every round. -/
theorem Simulates.iterateUpTo (inv : α → σ → τ → Prop) (measure : σ → Nat)
    {step : α → StateT σ (Except ε) (Round α)} {step' : α → StateT τ (Except ε) (Round α)}
    (hstep : ∀ value s t, inv value s t → Simulates compared s t (step value) (step' value)
      (Round.LeavesBoth (fun value s' t' ↦ inv value s' t' ∧ measure s' < measure s) post))
    {init : α} (hinit : inv init s t) {bound bound' : Nat} (hbound : measure s < bound)
    (hbound' : measure s < bound') :
    Simulates compared s t (iterateUpTo bound step init) (iterateUpTo bound' step' init) post := by
  induction bound generalizing bound' init s t with
  | zero => exact absurd hbound (Nat.not_lt_zero _)
  | succ bound ih =>
    cases bound' with
    | zero => exact absurd hbound' (Nat.not_lt_zero _)
    | succ bound' =>
      refine (hstep init s t hinit).bind fun round s' t' hround ↦ ?_
      cases round with
      | again value =>
        have hless : measure s' < measure s := hround.2
        exact ih hround.1 (by omega) (by omega)
      | done value => exact .pure hround

end Simulates

end DeclaredMethods
