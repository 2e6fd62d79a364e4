import FramedStore.Proofs.Effect.Loop

/-!
# Repetitions that end

A repetition is given rounds, and fails if they run out. That it ends without such a bound is said by
`EndsWithin`: the rounds up to an answer or a failure, one by one, are no more than a number. A measure
that every round but the last lowers is less than such a number (`endsWithin_of_keeps`). A repetition
that has as many rounds as it needs is then not cut off (`EndsWithin.finished`).

An effect that only reads (`Reads`) leaves the state as it is and is not cut off either.
-/

namespace FramedStore.Effect

variable {σ τ α β γ : Type} {s : σ}

/-! ### Outcomes -/

/-- No repetition was cut off on the way to the outcome. -/
def Finished : EStateM.Result Error σ α → Prop
  | .ok _ _ => True
  | .error e _ => e ≠ .unending

theorem finished_bind {x : Effect σ α} {f : α → Effect σ β} (hx : Finished (x s))
    (hf : ∀ a t, x s = .ok a t → Finished (f a t)) : Finished ((x >>= f) s) := by
  rw [bind_apply]
  cases h : x s with
  | ok a t => exact hf a t h
  | error e t => rwa [h] at hx

/-- The outcome leaves a state as it is, and no repetition was cut off. -/
def Reads (s : σ) : EStateM.Result Error σ α → Prop
  | .ok _ t => t = s
  | .error e t => t = s ∧ e ≠ .unending

namespace Reads

theorem finished {outcome : EStateM.Result Error σ α} (h : Reads s outcome) : Finished outcome := by
  cases outcome with
  | ok a t => trivial
  | error e t => exact h.2

theorem pure (a : α) : Reads s ((Pure.pure a : Effect σ α) s) := rfl

theorem throw {e : Error} (he : e ≠ .unending) : Reads s ((MonadExcept.throw e : Effect σ α) s) :=
  ⟨rfl, he⟩

theorem bind {x : Effect σ α} {f : α → Effect σ β} (hx : Reads s (x s))
    (hf : ∀ a, Reads s (f a s)) : Reads s ((x >>= f) s) := by
  rw [bind_apply]
  cases h : x s with
  | ok a t =>
    rw [h] at hx
    obtain rfl : t = s := hx
    exact hf a
  | error e t => rwa [h] at hx

/-- What stands behind a failure is not reached. -/
theorem throw_bind {e : Error} (he : e ≠ .unending) (f : α → Effect σ β) :
    Reads s (((MonadExcept.throw e : Effect σ α) >>= f) s) :=
  ⟨rfl, he⟩

theorem ite {x y : Effect σ α} (c : Prop) [Decidable c] (hx : Reads s (x s)) (hy : Reads s (y s)) :
    Reads s ((if c then x else y) s) := by
  split
  · exact hx
  · exact hy

/-- To read in a part of a state is to read in the state. -/
theorem within {view : σ → τ} {update : τ → σ → σ} {x : Effect τ α}
    (hupdate : ∀ s, update (view s) s = s) (hx : Reads (view s) (x (view s))) :
    Reads s (Effect.within view update x s) := by
  rw [within_apply]
  cases h : x (view s) with
  | ok a part =>
    rw [h] at hx
    obtain rfl : part = view s := hx
    exact hupdate s
  | error e part =>
    rw [h] at hx
    obtain ⟨rfl, he⟩ := hx
    exact ⟨hupdate s, he⟩

end Reads

/-! ### Rounds -/

variable {step : β → Effect σ (Round β γ)}

/-- A repetition comes to an answer, or to a failure of its own, within a number of rounds. -/
inductive EndsWithin (step : β → Effect σ (Round β γ)) : Nat → β → σ → Prop
  | done {rounds : Nat} {b : β} {s t : σ} {c : γ} (last : step b s = .ok (.done c) t) :
    EndsWithin step (rounds + 1) b s
  | failed {rounds : Nat} {b : β} {s t : σ} {e : Error} (last : step b s = .error e t)
      (he : e ≠ .unending) : EndsWithin step (rounds + 1) b s
  | again {rounds : Nat} {b b' : β} {s t : σ} (first : step b s = .ok (.again b') t)
      (rest : EndsWithin step rounds b' t) : EndsWithin step (rounds + 1) b s

theorem EndsWithin.finished_iterate {needed : Nat} {b : β} (h : EndsWithin step needed b s)
    {rounds : Nat} (hrounds : needed ≤ rounds) : Finished (iterate step rounds b s) := by
  induction h generalizing rounds with
  | done last =>
    obtain ⟨rounds, rfl⟩ := Nat.exists_eq_add_one.mpr (Nat.zero_lt_of_lt hrounds)
    rw [iterate_done last]
    trivial
  | failed last he =>
    obtain ⟨rounds, rfl⟩ := Nat.exists_eq_add_one.mpr (Nat.zero_lt_of_lt hrounds)
    rw [iterate_error last]
    exact he
  | again first _ ih =>
    obtain ⟨rounds, rfl⟩ := Nat.exists_eq_add_one.mpr (Nat.zero_lt_of_lt hrounds)
    rw [iterate_again first]
    exact ih (Nat.le_of_succ_le_succ hrounds)

/-- A scan has as many rounds as there are positions. -/
theorem EndsWithin.finished {needed : Nat} {b : β} (h : EndsWithin step needed b s)
    (hneeded : needed ≤ Offset.range) : Finished (scan step b s) :=
  h.finished_iterate hneeded

/-- **A measure that goes down with every round bounds their number.** -/
theorem endsWithin_of_keeps (inv : β → σ → Prop) (measure : β → σ → Nat)
    {wanted : EStateM.Result Error σ γ → Prop} (hwanted : ∀ outcome, wanted outcome → Finished outcome)
    (hstep : ∀ b s, inv b s → Round.Keeps inv measure wanted b s (step b s)) {rounds : Nat} {b : β}
    {s : σ} (hinv : inv b s) (hlt : measure b s < rounds) : EndsWithin step rounds b s := by
  induction rounds generalizing b s with
  | zero => omega
  | succ rounds ih =>
    have hround := hstep b s hinv
    rcases hb : step b s with ⟨b' | c, t⟩ | ⟨e, t⟩
    · rw [hb] at hround
      exact .again hb (ih hround.1 (Nat.lt_of_lt_of_le hround.2 (Nat.le_of_lt_succ hlt)))
    · exact .done hb
    · rw [hb] at hround
      exact .failed hb (hwanted _ hround)

/-- A round may read first. -/
theorem Round.Keeps.read {inv : β → σ → Prop} {measure : β → σ → Nat}
    {wanted : EStateM.Result Error σ γ → Prop} {b : β} {x : Effect σ α}
    {f : α → Effect σ (Round β γ)} (hfailed : ∀ e, e ≠ .unending → wanted (.error e s))
    (hx : Reads s (x s)) (hf : ∀ a, x s = .ok a s → Round.Keeps inv measure wanted b s (f a s)) :
    Round.Keeps inv measure wanted b s ((x >>= f) s) := by
  rw [bind_apply]
  cases h : x s with
  | ok a t =>
    rw [h] at hx
    obtain rfl : t = s := hx
    exact hf a h
  | error e t =>
    rw [h] at hx
    obtain ⟨rfl, he⟩ := hx
    exact hfailed e he

end FramedStore.Effect
