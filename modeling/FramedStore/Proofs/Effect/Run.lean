import FramedStore.Proofs.Effect.Loop
import Mathlib.Data.List.Forall2
import Mathlib.Data.List.Induction

/-!
# Runs

A run makes calls one after the other, also after one that failed, and its trace holds each call with
its outcome and the states before and after it. Two runs of the same calls are compared step by step
(`forall₂_trace`): it is enough that one call takes related states to related states. Where two calls
have the same results, their outcomes `Agree`.
-/

namespace FramedStore.Effect

variable {κ σ τ α β : Type}

/-- One call of a run. -/
structure Step (κ σ α : Type) where
  call : κ
  before : σ
  outcome : Except Error α
  after : σ

/-- Makes one call. -/
def step (perform : κ → Effect σ α) (call : κ) (state : σ) : Step κ σ α :=
  match perform call state with
  | .ok a after => ⟨call, state, .ok a, after⟩
  | .error e after => ⟨call, state, .error e, after⟩

/-- Makes calls one after the other. -/
def trace (perform : κ → Effect σ α) : List κ → σ → List (Step κ σ α)
  | [], _ => []
  | call :: calls, state =>
    step perform call state :: trace perform calls (step perform call state).after

/-- The state that calls made one after the other leave. -/
def ending (perform : κ → Effect σ α) : List κ → σ → σ
  | [], state => state
  | call :: calls, state => ending perform calls (step perform call state).after

/-- Each call of a run is made in a state as wanted. -/
def Throughout (perform : κ → Effect σ α) (wanted : κ → σ → Prop) (calls : List κ) (state : σ) :
    Prop :=
  ∀ made ∈ trace perform calls state, wanted made.call made.before

variable {perform : κ → Effect σ α} {perform' : κ → Effect τ β}

theorem step_ok {call : κ} {s t : σ} {a : α} (h : perform call s = .ok a t) :
    step perform call s = ⟨call, s, .ok a, t⟩ := by
  unfold step
  rw [h]

theorem step_error {call : κ} {s t : σ} {e : Error} (h : perform call s = .error e t) :
    step perform call s = ⟨call, s, .error e, t⟩ := by
  unfold step
  rw [h]

theorem step_of_attempt {call : κ} {s t : σ} {outcome : Except Error α}
    (h : (perform call).attempt s = .ok outcome t) : step perform call s = ⟨call, s, outcome, t⟩ := by
  rw [attempt_apply] at h
  unfold step
  cases hresult : perform call s with
  | ok a after =>
    rw [hresult] at h
    cases h
    rfl
  | error e after =>
    rw [hresult] at h
    cases h
    rfl

@[simp] theorem step_call (call : κ) (s : σ) : (step perform call s).call = call := by
  unfold step
  split <;> rfl

@[simp] theorem step_before (call : κ) (s : σ) : (step perform call s).before = s := by
  unfold step
  split <;> rfl

theorem throughout_cons {wanted : κ → σ → Prop} {call : κ} {calls : List κ} {s : σ} :
    Throughout perform wanted (call :: calls) s ↔
      wanted call s ∧ Throughout perform wanted calls (step perform call s).after := by
  simp [Throughout, trace]

theorem trace_append (calls more : List κ) (s : σ) :
    trace perform (calls ++ more) s =
      trace perform calls s ++ trace perform more (ending perform calls s) := by
  induction calls generalizing s with
  | nil => rfl
  | cons first calls ih =>
    rw [List.cons_append, trace, trace, ending, ih, List.cons_append]

theorem trace_concat (calls : List κ) (call : κ) (s : σ) :
    trace perform (calls ++ [call]) s =
      trace perform calls s ++ [step perform call (ending perform calls s)] :=
  trace_append calls [call] s

theorem Throughout.front {wanted : κ → σ → Prop} {calls more : List κ} {s : σ}
    (h : Throughout perform wanted (calls ++ more) s) : Throughout perform wanted calls s := by
  intro made hmade
  refine h made ?_
  rw [trace_append]
  exact List.mem_append_left _ hmade

theorem Throughout.last {wanted : κ → σ → Prop} {calls : List κ} {call : κ} {s : σ}
    (h : Throughout perform wanted (calls ++ [call]) s) : wanted call (ending perform calls s) := by
  have hwanted := h (step perform call (ending perform calls s))
    (by rw [trace_concat]; exact List.mem_append_right _ (List.mem_singleton_self _))
  rwa [step_call, step_before] at hwanted

theorem Throughout.concat {wanted : κ → σ → Prop} {calls : List κ} {call : κ} {s : σ}
    (h : Throughout perform wanted calls s) (hlast : wanted call (ending perform calls s)) :
    Throughout perform wanted (calls ++ [call]) s := by
  intro made hmade
  rw [trace_concat, List.mem_append, List.mem_singleton] at hmade
  rcases hmade with hmade | rfl
  · exact h made hmade
  · rwa [step_call, step_before]

theorem ending_concat (calls : List κ) (call : κ) (s : σ) :
    ending perform (calls ++ [call]) s = (step perform call (ending perform calls s)).after := by
  induction calls generalizing s with
  | nil => rfl
  | cons first calls ih =>
    rw [List.cons_append, ending, ending, ih]

theorem map_call_trace (calls : List κ) (s : σ) : (trace perform calls s).map (·.call) = calls := by
  induction calls generalizing s with
  | nil => rfl
  | cons call calls ih => rw [trace, List.map_cons, step_call, ih]

theorem length_trace (calls : List κ) (s : σ) : (trace perform calls s).length = calls.length := by
  rw [← List.length_map, map_call_trace]

/-- **Two runs of the same calls.** If a call takes related states to related states, and compares
as it should, then so does every call of a run. The second run may be known to make its calls in
states of some kind. -/
theorem forall₂_trace (related : σ → τ → Prop) {wanted : κ → τ → Prop}
    {compare : Step κ σ α → Step κ τ β → Prop}
    (hstep : ∀ call s t, related s t → wanted call t →
      related (step perform call s).after (step perform' call t).after ∧
        compare (step perform call s) (step perform' call t)) :
    ∀ calls s t, related s t → Throughout perform' wanted calls t →
      List.Forall₂ compare (trace perform calls s) (trace perform' calls t) := by
  intro calls
  induction calls with
  | nil => intro s t _ _; exact .nil
  | cons call calls ih =>
    intro s t hst hall
    obtain ⟨hw, hall⟩ := throughout_cons.mp hall
    obtain ⟨hst', hc⟩ := hstep call s t hst hw
    exact .cons hc (ih _ _ hst' hall)

/-- What is wanted of the states of one run tells what is wanted of the states of another one of the same
calls. -/
theorem Throughout.related (related : σ → τ → Prop) {wanted : κ → σ → Prop} {wanted' : κ → τ → Prop}
    (hstep : ∀ call s t, related s t → wanted call s → wanted' call t ∧
      related (step perform call s).after (step perform' call t).after)
    {calls : List κ} {s : σ} {t : τ} (hstart : related s t) (hall : Throughout perform wanted calls s) :
    Throughout perform' wanted' calls t := by
  induction calls generalizing s t with
  | nil => exact nofun
  | cons call calls ih =>
    obtain ⟨hwanted, hlater⟩ := throughout_cons.mp hall
    obtain ⟨hwanted', hrelated⟩ := hstep call s t hstart hwanted
    exact throughout_cons.mpr ⟨hwanted', ih hrelated hlater⟩

/-- **Two runs in which no call fails.** If every call has the same result on both sides, whatever
calls were made before, then so have all calls of a run, and what relates the states after a run may
depend on all of its calls. -/
theorem runs_related {perform' : κ → Effect τ α} {wanted : κ → τ → Prop}
    (related : List κ → σ → τ → Prop)
    (hstep : ∀ made call s t, related made s t → wanted call t →
      ∃ a s' t', perform call s = .ok a s' ∧ perform' call t = .ok a t' ∧
        related (made ++ [call]) s' t')
    (calls : List κ) {s : σ} {t : τ} (hstart : related [] s t)
    (hall : Throughout perform' wanted calls t) :
    (trace perform calls s).map (·.outcome) = (trace perform' calls t).map (·.outcome) ∧
      related calls (ending perform calls s) (ending perform' calls t) := by
  -- from the end of the run, since the relation depends on the calls made so far
  induction calls using List.reverseRecOn with
  | nil => exact ⟨rfl, hstart⟩
  | append_singleton calls call ih =>
    obtain ⟨houtcomes, hrelated⟩ := ih hall.front
    obtain ⟨a, s', t', hs, ht, hrelated'⟩ := hstep calls call _ _ hrelated hall.last
    rw [trace_concat, trace_concat, ending_concat, ending_concat, step_ok hs, step_ok ht]
    refine ⟨?_, hrelated'⟩
    rw [List.map_append, List.map_append, houtcomes]
    rfl

/-! ### Calls with the same results -/

/-- Two outcomes agree: there is one result and states as wanted, or there are two failures as
wanted. -/
inductive Agree (made : σ → τ → Prop) (failed : Error → σ → Error → τ → Prop) :
    EStateM.Result Error σ α → EStateM.Result Error τ α → Prop
  | ok {s : σ} {t : τ} (a : α) (h : made s t) : Agree made failed (.ok a s) (.ok a t)
  | error {e e' : Error} {s : σ} {t : τ} (h : failed e s e' t) :
    Agree made failed (.error e s) (.error e' t)

section Agree

variable {made : σ → τ → Prop} {failed : Error → σ → Error → τ → Prop} {s : σ} {t : τ}

theorem Agree.map {x : Effect σ α} {y : Effect τ α} (g : α → β)
    (h : Agree made failed (x s) (y t)) :
    Agree made failed ((do return g (← x) : Effect σ β) s)
      ((do return g (← y) : Effect τ β) t) := by
  rw [bind_apply, bind_apply]
  generalize x s = outcome, y t = outcome' at h
  cases h with
  | ok a h => exact .ok (g a) h
  | error h => exact .error h

/-- The steps of two calls whose outcomes agree. -/
theorem step_of_agree {call : κ} {perform' : κ → Effect τ α}
    (h : Agree made failed (perform call s) (perform' call t)) :
    (∃ a s' t', made s' t' ∧ step perform call s = ⟨call, s, .ok a, s'⟩ ∧
        step perform' call t = ⟨call, t, .ok a, t'⟩) ∨
      ∃ e e' s' t', failed e s' e' t' ∧ step perform call s = ⟨call, s, .error e, s'⟩ ∧
        step perform' call t = ⟨call, t, .error e', t'⟩ := by
  unfold step
  generalize perform call s = outcome, perform' call t = outcome' at h
  cases h with
  | ok a h => exact .inl ⟨a, _, _, h, rfl, rfl⟩
  | error h => exact .inr ⟨_, _, _, _, h, rfl, rfl⟩

end Agree

end FramedStore.Effect
