import FramedStore.Error

/-!
# Effects

An effect reads and changes a state and may fail; a failed effect keeps the changes made up to the
failure. `within` runs an effect on a part of a larger state, and `iterate` repeats a step until it
has an answer.
-/

namespace FramedStore

/-- A computation on a state of type `σ` that may fail. -/
abbrev Effect (σ : Type) : Type → Type := EStateM Error σ

namespace Effect

variable {σ τ α β γ : Type}

/-- Runs an effect on the part of the state that `view` shows and `update` puts back. -/
def within (view : σ → τ) (update : τ → σ → σ) (effect : Effect τ α) : Effect σ α := fun state =>
  match effect (view state) with
  | .ok a part => .ok a (update part state)
  | .error e part => .error e (update part state)

/-- The outcome of an effect in place of its result or failure. -/
def attempt (effect : Effect σ α) : Effect σ (Except Error α) := fun state =>
  match effect state with
  | .ok a state => .ok (.ok a) state
  | .error e state => .ok (.error e) state

/-- The result of a computation without state. -/
def ofExcept : Except Error α → Effect σ α
  | .ok a => pure a
  | .error e => throw e

/-! ### Repetition -/

/-- What a round of a repetition comes to: another round, or the answer. -/
inductive Round (β γ : Type)
  | again (next : β)
  | done (answer : γ)

/-- Repeats `step` from `start` until it answers, for at most `rounds` rounds. -/
def iterate (step : β → Effect σ (Round β γ)) (rounds : Nat) (start : β) : Effect σ γ :=
  go rounds start
where
  go : Nat → β → σ → EStateM.Result Error σ γ
    | 0, _, state => .error .unending state
    | rounds + 1, b, state => match step b state with
      | .ok (.again next) state => go rounds next state
      | .ok (.done answer) state => .ok answer state
      | .error e state => .error e state

/-- Repeats `step` until it answers, for at most as many rounds as there are 64-bit positions: a
round over a storage gets past at least one byte of it, so the bound is never met. -/
def scan (step : β → Effect σ (Round β γ)) (start : β) : Effect σ γ :=
  iterate step Offset.range start

end Effect

end FramedStore
