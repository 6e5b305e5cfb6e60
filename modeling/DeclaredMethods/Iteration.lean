/-!
# Loops with a bound

A loop runs a step again and again until the step says that it is done. The bound makes the loop
end in any case; it is chosen so that it is never reached. A loop that reaches its bound stops
with the value it has, or gives no value at all where its steps can fail to give one.
-/

namespace DeclaredMethods

/-- Whether a loop goes on, and with which value. -/
inductive Round (α : Type) where
  | again (value : α)
  | done (value : α)

/-- Repeats a step until it is done, at most `bound` times. -/
def iterateUpTo {m : Type → Type} [Monad m] {α : Type} :
    Nat → (α → m (Round α)) → α → m α
  | 0, _, value => pure value
  | bound + 1, step, value => do
    match ← step value with
    | .again value => iterateUpTo bound step value
    | .done value => pure value

/-- Repeats a step on a state until it is done. A loop that is not done after `bound` rounds gives
nothing. -/
def iterateWithin {σ α : Type} :
    Nat → (α → StateT σ Option (Round α)) → α → StateT σ Option α
  | 0, _, _ => failure
  | bound + 1, step, value => do
    match ← step value with
    | .again value => iterateWithin bound step value
    | .done value => pure value

end DeclaredMethods
