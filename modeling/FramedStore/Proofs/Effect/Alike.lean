import FramedStore.Proofs.Effect.Run

/-!
# The same effect on two states

Two effects are alike if from related states they have the same result or the same failure, and leave
related states. Effects put together from parts that are alike are alike. The last part of an effect
may lead to states that are related in another way (`Leads`).
-/

namespace FramedStore.Effect

variable {σ τ α β γ : Type} (R : σ → τ → Prop)

/-- The same outcome, and states that are still related. -/
abbrev Same : EStateM.Result Error σ α → EStateM.Result Error τ α → Prop :=
  Agree R fun e s e' t => e' = e ∧ R s t

/-- From related states two effects have the same outcome, and leave states that are related in
another way. -/
def Leads (R' : σ → τ → Prop) (x : Effect σ α) (y : Effect τ α) : Prop :=
  ∀ s t, R s t → Same R' (x s) (y t)

/-- From related states two effects have the same outcome. -/
def Alike (x : Effect σ α) (y : Effect τ α) : Prop := ∀ s t, R s t → Same R (x s) (y t)

namespace Leads

variable {R} {R₁ R' : σ → τ → Prop} {x : Effect σ α} {y : Effect τ α}
  (hweaker : ∀ s t, R₁ s t → R' s t)
include hweaker

theorem weaken (h : Leads R R₁ x y) : Leads R R' x y := by
  intro s t hst
  have hsame := h s t hst
  generalize x s = outcome, y t = outcome' at hsame
  cases hsame with
  | ok a h => exact .ok a (hweaker _ _ h)
  | error h => exact .error ⟨h.1, hweaker _ _ h.2⟩

theorem bind {f : α → Effect σ β} {g : α → Effect τ β} (hx : Leads R R₁ x y)
    (hf : ∀ a, Leads R₁ R' (f a) (g a)) : Leads R R' (x >>= f) (y >>= g) := by
  intro s t hst
  have hsame := hx s t hst
  rw [bind_apply, bind_apply]
  generalize x s = outcome, y t = outcome' at hsame
  cases hsame with
  | ok a h => exact hf a _ _ h
  | error h => exact .error ⟨h.1, hweaker _ _ h.2⟩

omit hweaker in
/-- An effect on a part is like the effect, and leaves the rest alone. -/
theorem within {υ : Type} {view : υ → σ} {update : σ → υ → υ} {others : υ → Prop}
    (hview : ∀ s u, view (update s u) = s) (hothers : ∀ s u, others u → others (update s u))
    (h : Leads R R' x y) :
    Leads (fun u t => R (view u) t ∧ others u) (fun u t => R' (view u) t ∧ others u)
      (.within view update x) y := by
  rintro u t ⟨hst, hu⟩
  have hsame := h (view u) t hst
  rw [within_apply]
  generalize x (view u) = outcome, y t = outcome' at hsame
  cases hsame with
  | @ok s' t' a h => exact .ok a ⟨(hview s' u).symm ▸ h, hothers s' u hu⟩
  | @error e e' s' t' h => exact .error ⟨h.1, (hview s' u).symm ▸ h.2, hothers s' u hu⟩

end Leads

/-- Where the first parts have the same outcome, only the result that there is counts for the second
ones. -/
theorem same_bind {R} {x : Effect σ α} {y : Effect τ α} {f : α → Effect σ β} {g : α → Effect τ β}
    {s : σ} {t : τ} (hx : Same R (x s) (y t))
    (hf : ∀ a s' t', y t = .ok a t' → R s' t' → Same R (f a s') (g a t')) :
    Same R ((x >>= f) s) ((y >>= g) t) := by
  rw [bind_apply, bind_apply]
  generalize x s = outcome, hy : y t = outcome' at hx
  cases hx with
  | ok a h => exact hf a _ _ hy h
  | error h => exact .error h

/-- Where one round has the same outcome, only the round that follows counts for the others. -/
theorem same_iterate {R} {step : β → Effect σ (Round β γ)} {step' : β → Effect τ (Round β γ)}
    {rounds : Nat} {b : β} {s : σ} {t : τ} (hround : Same R (step b s) (step' b t))
    (hnext : ∀ b' s' t', step' b t = .ok (.again b') t' → R s' t' →
      Same R (iterate step rounds b' s') (iterate step' rounds b' t')) :
    Same R (iterate step (rounds + 1) b s) (iterate step' (rounds + 1) b t) := by
  rcases hs : step b s with ⟨b' | c, s'⟩ | ⟨e, s'⟩ <;>
    rcases ht : step' b t with ⟨b'' | c', t'⟩ | ⟨e', t'⟩ <;>
    rw [hs, ht] at hround <;> cases hround
  · rw [iterate_again hs, iterate_again ht]
    exact hnext _ _ _ ht ‹_›
  · rw [iterate_done hs, iterate_done ht]
    exact .ok _ ‹_›
  · rw [iterate_error hs, iterate_error ht]
    exact .error ‹_›

namespace Alike

variable {R} {x : Effect σ α} {y : Effect τ α}

theorem refl (x : Effect σ α) : Alike (· = ·) x x := by
  rintro s _ rfl
  cases x s with
  | ok a s => exact .ok a rfl
  | error e s => exact .error ⟨rfl, rfl⟩

/-- The outcome of one of them is that of the other. -/
theorem attempt (h : Alike R x y) {s s' : σ} {t : τ} {outcome : Except Error α} (hst : R s t)
    (hx : x.attempt s = .ok outcome s') : ∃ t', y.attempt t = .ok outcome t' ∧ R s' t' := by
  have hsame := h s t hst
  rw [attempt_apply] at hx ⊢
  generalize x s = result, y t = result' at hx hsame
  cases hsame with
  | ok a hst' =>
    cases hx
    exact ⟨_, rfl, hst'⟩
  | error hst' =>
    obtain ⟨rfl, hst'⟩ := hst'
    cases hx
    exact ⟨_, rfl, hst'⟩

theorem within {υ : Type} {view : υ → σ} {update : σ → υ → υ} {others : υ → Prop}
    (hview : ∀ s u, view (update s u) = s) (hothers : ∀ s u, others u → others (update s u))
    (h : Alike R x y) :
    Alike (fun u t => R (view u) t ∧ others u) (.within view update x) y :=
  Leads.within hview hothers h

theorem pure (a : α) : Alike R (Pure.pure a : Effect σ α) (Pure.pure a) :=
  fun _ _ h => .ok a h

theorem throw (e : Error) : Alike R (MonadExcept.throw e : Effect σ α) (MonadExcept.throw e) :=
  fun _ _ h => .error ⟨rfl, h⟩

theorem bind {f : α → Effect σ β} {g : α → Effect τ β} (hx : Alike R x y)
    (hf : ∀ a, Alike R (f a) (g a)) : Alike R (x >>= f) (y >>= g) :=
  Leads.bind (fun _ _ h => h) hx hf

theorem ite {x' : Effect σ α} {y' : Effect τ α} (c : Prop) [Decidable c] (hx : Alike R x y)
    (hx' : Alike R x' y') : Alike R (if c then x else x') (if c then y else y') := by
  by_cases hc : c
  · rw [if_pos hc, if_pos hc]
    exact hx
  · rw [if_neg hc, if_neg hc]
    exact hx'

/-- What stands behind a failure is not reached. -/
theorem throw_bind (e : Error) (f : α → Effect σ β) (g : α → Effect τ β) :
    Alike R ((MonadExcept.throw e : Effect σ α) >>= f) ((MonadExcept.throw e : Effect τ α) >>= g) :=
  fun _ _ h => .error ⟨rfl, h⟩

theorem iterate {step : β → Effect σ (Round β γ)} {step' : β → Effect τ (Round β γ)}
    (hstep : ∀ b, Alike R (step b) (step' b)) (rounds : Nat) (b : β) :
    Alike R (iterate step rounds b) (iterate step' rounds b) := by
  induction rounds generalizing b with
  | zero => exact fun _ _ h => .error ⟨rfl, h⟩
  | succ rounds ih => exact fun s t h => same_iterate (hstep b s t h) fun b' _ _ _ h => ih b' _ _ h

theorem scan {step : β → Effect σ (Round β γ)} {step' : β → Effect τ (Round β γ)}
    (hstep : ∀ b, Alike R (step b) (step' b)) (b : β) : Alike R (scan step b) (scan step' b) :=
  iterate hstep _ b

end Alike

end FramedStore.Effect
