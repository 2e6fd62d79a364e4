import FramedStore.Effect

/-!
# Effects on a state, and loops

What each building block of an effect does to a state (`bind_apply`, `throw_apply`, …), and the rule
for loops: an invariant that every round keeps, together with a measure that every round but the
last lowers, holds of the outcome of a whole scan (`scan_spec`).
-/

namespace FramedStore.Effect

variable {σ τ α β γ : Type}

/-! ### Building blocks -/

section Apply

variable (s t : σ)

@[simp] theorem pure_apply (a : α) : (pure a : Effect σ α) s = .ok a s := rfl

@[simp] theorem bind_apply (x : Effect σ α) (f : α → Effect σ β) :
    (x >>= f) s = match x s with
      | .ok a s => f a s
      | .error e s => .error e s := by
  simp only [bind, EStateM.bind]
  cases x s <;> rfl

theorem bind_ok {x : Effect σ α} {f : α → Effect σ β} {s t : σ} {a : α} (h : x s = .ok a t) :
    (x >>= f) s = f a t := by
  simp only [bind_apply, h]

theorem bind_error {x : Effect σ α} {f : α → Effect σ β} {s t : σ} {e : Error}
    (h : x s = .error e t) : (x >>= f) s = .error e t := by
  simp only [bind_apply, h]

theorem bind_ok_iff {x : Effect σ α} {f : α → Effect σ β} {s t : σ} {b : β} :
    (x >>= f) s = .ok b t ↔ ∃ a u, x s = .ok a u ∧ f a u = .ok b t := by
  rw [bind_apply]
  cases x s with
  | ok a u =>
    refine ⟨fun h => ⟨a, u, rfl, h⟩, ?_⟩
    rintro ⟨_, _, ⟨⟩, h⟩
    exact h
  | error e u => exact ⟨nofun, nofun⟩

theorem bind_error_iff {x : Effect σ α} {f : α → Effect σ β} {s t : σ} {e : Error} :
    (x >>= f) s = .error e t ↔ x s = .error e t ∨ ∃ a u, x s = .ok a u ∧ f a u = .error e t := by
  rw [bind_apply]
  cases x s with
  | ok a u =>
    refine ⟨fun h => .inr ⟨a, u, rfl, h⟩, ?_⟩
    rintro (h | ⟨_, _, ⟨⟩, h⟩)
    · cases h
    · exact h
  | error e u =>
    constructor
    · rintro ⟨⟩
      exact .inl rfl
    · rintro (⟨⟨⟩⟩ | ⟨_, _, h, -⟩)
      · rfl
      · cases h

theorem map_eq_ok {x : Effect σ α} {f : α → β} {s t : σ} {b : β}
    (h : (do return f (← x) : Effect σ β) s = .ok b t) : ∃ a, x s = .ok a t ∧ f a = b := by
  rw [bind_apply] at h
  cases hx : x s with
  | ok a t' =>
    rw [hx] at h
    obtain ⟨rfl, rfl⟩ := EStateM.Result.ok.inj h
    exact ⟨a, rfl, rfl⟩
  | error e t' =>
    rw [hx] at h
    cases h

@[simp] theorem throw_apply (e : Error) : (throw e : Effect σ α) s = .error e s := rfl

@[simp] theorem get_apply : (get : Effect σ σ) s = .ok s s := rfl

@[simp] theorem set_apply : (set t : Effect σ PUnit) s = .ok ⟨⟩ t := rfl

@[simp] theorem if_apply (c : Prop) [Decidable c] (x y : Effect σ α) :
    (if c then x else y) s = if c then x s else y s := by
  split <;> rfl

@[simp] theorem ofExcept_ok (a : α) : (ofExcept (.ok a) : Effect σ α) s = .ok a s := rfl

theorem attempt_apply (x : Effect σ α) :
    x.attempt s = match x s with
      | .ok a s => .ok (.ok a) s
      | .error e s => .ok (.error e) s := rfl

theorem ok_of_attempt {x : Effect σ α} {s t : σ} {a : α} (h : x.attempt s = .ok (.ok a) t) :
    x s = .ok a t := by
  rw [attempt_apply] at h
  cases hx : x s with
  | ok b u =>
    rw [hx] at h
    cases h
    rfl
  | error e u =>
    rw [hx] at h
    cases h

theorem error_of_attempt {x : Effect σ α} {s t : σ} {e : Error} (h : x.attempt s = .ok (.error e) t) :
    x s = .error e t := by
  rw [attempt_apply] at h
  cases hx : x s with
  | ok b u =>
    rw [hx] at h
    cases h
  | error e' u =>
    rw [hx] at h
    cases h
    rfl

theorem exists_attempt (x : Effect σ α) : ∃ outcome t, x.attempt s = .ok outcome t := by
  rw [attempt_apply]
  cases x s <;> exact ⟨_, _, rfl⟩

theorem within_apply (view : σ → τ) (update : τ → σ → σ) (x : Effect τ α) :
    within view update x s = match x (view s) with
      | .ok a part => .ok a (update part s)
      | .error e part => .error e (update part s) := rfl

end Apply

/-- The same for steps that cannot fail. -/
theorem stateM_bind {x : StateM σ α} {f : α → StateM σ β} {s t : σ} {a : α} (h : x s = (a, t)) :
    (x >>= f) s = f a t := by
  simp only [bind, StateT.bind, h]

/-! ### Loops -/

section Loop

variable {step : β → Effect σ (Round β γ)}

theorem iterate_again {rounds : Nat} {b b' : β} {s t : σ} (h : step b s = .ok (.again b') t) :
    iterate step (rounds + 1) b s = iterate step rounds b' t := by
  unfold iterate
  rw [iterate.go, h]

theorem iterate_done {rounds : Nat} {b : β} {c : γ} {s t : σ} (h : step b s = .ok (.done c) t) :
    iterate step (rounds + 1) b s = .ok c t := by
  unfold iterate
  rw [iterate.go, h]

theorem iterate_error {rounds : Nat} {b : β} {e : Error} {s t : σ} (h : step b s = .error e t) :
    iterate step (rounds + 1) b s = .error e t := by
  unfold iterate
  rw [iterate.go, h]

/-- What a round has to do for an invariant: the next round starts with the invariant and a lower
measure, and an answer or a failure is as wanted. -/
def Round.Keeps (inv : β → σ → Prop) (measure : β → σ → Nat)
    (wanted : EStateM.Result Error σ γ → Prop) (b : β) (s : σ) :
    EStateM.Result Error σ (Round β γ) → Prop
  | .ok (.again b') t => inv b' t ∧ measure b' t < measure b s
  | .ok (.done c) t => wanted (.ok c t)
  | .error e t => wanted (.error e t)

/-- **The rule for loops.** -/
theorem iterate_spec (inv : β → σ → Prop) (measure : β → σ → Nat)
    (wanted : EStateM.Result Error σ γ → Prop)
    (hstep : ∀ b s, inv b s → Round.Keeps inv measure wanted b s (step b s)) :
    ∀ rounds b s, inv b s → measure b s < rounds → wanted (iterate step rounds b s) := by
  intro rounds
  induction rounds with
  | zero => intro b s _ h; omega
  | succ rounds ih =>
    intro b s hinv hlt
    have hb := hstep b s hinv
    rcases hr : step b s with ⟨_ | _, t⟩ | ⟨e, t⟩
    · rw [hr] at hb
      rw [iterate_again hr]
      exact ih _ t hb.1 (Nat.lt_of_lt_of_le hb.2 (by omega))
    · rw [hr] at hb
      rw [iterate_done hr]
      exact hb
    · rw [hr] at hb
      rw [iterate_error hr]
      exact hb

/-- The rule for loops without a written bound. -/
theorem scan_spec (inv : β → σ → Prop) (measure : β → σ → Nat)
    (wanted : EStateM.Result Error σ γ → Prop)
    (hstep : ∀ b s, inv b s → Round.Keeps inv measure wanted b s (step b s)) {b : β} {s : σ}
    (hinv : inv b s) (hlt : measure b s < Offset.range) : wanted (scan step b s) :=
  iterate_spec inv measure wanted hstep _ b s hinv hlt

end Loop

end FramedStore.Effect
