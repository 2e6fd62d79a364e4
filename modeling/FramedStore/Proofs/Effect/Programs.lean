import FramedStore.Proofs.Effect.Run

/-!
# Programs side by side

Several programs make their calls on one state, in an order that keeps that of each program
(`Interleaves`). If the calls of one program depend on a part of the state alone, and the calls of the
others leave that part as it is, then the program comes to what it comes to alone
(`outcomesOf_trace`, `throughout_alone`).
-/

namespace FramedStore.Effect

variable {κ σ τ α β : Type}

/-! ### Schedules -/

/-- Makes a call of the program with a number. -/
def onTurn (perform : κ → Effect σ α) (turn : Nat × κ) : Effect σ α := perform turn.2

/-- The calls of the program with a number. -/
def callsOf (number : Nat) (schedule : List (Nat × κ)) : List κ :=
  (schedule.filter (·.1 == number)).map (·.2)

/-- The outcomes of the calls of the program with a number. -/
def outcomesOf (number : Nat) (steps : List (Step (Nat × κ) σ α)) : List (Except Error α) :=
  (steps.filter (·.call.1 == number)).map (·.outcome)

/-- The calls of all programs, in an order that keeps that of each program. -/
def Interleaves (programs : List (List κ)) (schedule : List (Nat × κ)) : Prop :=
  ∀ number, callsOf number schedule = programs.getD number []

variable {programs : List (List κ)} {schedule : List (Nat × κ)} {number : Nat} {call : κ}
  {perform : κ → Effect σ α}

theorem mem_callsOf : call ∈ callsOf number schedule ↔ (number, call) ∈ schedule := by
  simp [callsOf]

theorem callsOf_cons_self :
    callsOf number ((number, call) :: schedule) = call :: callsOf number schedule := by
  simp [callsOf]

theorem callsOf_cons_ne {other : Nat} (hne : other ≠ number) :
    callsOf number ((other, call) :: schedule) = callsOf number schedule := by
  simp [callsOf, hne]

theorem callsOf_concat_self :
    callsOf number (schedule ++ [(number, call)]) = callsOf number schedule ++ [call] := by
  simp [callsOf]

theorem callsOf_concat_ne {other : Nat} (hne : other ≠ number) :
    callsOf number (schedule ++ [(other, call)]) = callsOf number schedule := by
  simp [callsOf, hne]

theorem Interleaves.mem (h : Interleaves programs schedule) :
    ∀ turn ∈ schedule, turn.2 ∈ programs.getD turn.1 [] := by
  intro turn hturn
  rw [← h turn.1]
  exact mem_callsOf.mpr hturn

theorem step_onTurn (turn : Nat × κ) (s : σ) :
    step (onTurn perform) turn s =
      ⟨turn, s, (step perform turn.2 s).outcome, (step perform turn.2 s).after⟩ := by
  unfold step onTurn
  cases perform turn.2 s <;> rfl

theorem ending_onTurn (schedule : List (Nat × κ)) (s : σ) :
    ending (onTurn perform) schedule s = ending perform (schedule.map (·.2)) s := by
  induction schedule generalizing s with
  | nil => rfl
  | cons turn schedule ih => rw [ending, step_onTurn, List.map_cons, ending, ih]

theorem outcomesOf_concat (number : Nat) (schedule : List (Nat × κ)) (turn : Nat × κ) (s : σ) :
    outcomesOf number (trace (onTurn perform) (schedule ++ [turn]) s) =
      outcomesOf number (trace (onTurn perform) schedule s) ++
        if turn.1 = number then
          [(step perform turn.2 (ending (onTurn perform) schedule s)).outcome] else [] := by
  rw [trace_concat, step_onTurn, outcomesOf, List.filter_append, List.map_append]
  congr 1
  by_cases hnumber : turn.1 = number
  · rw [if_pos hnumber, List.filter_cons_of_pos (by simpa using hnumber)]
    rfl
  · rw [if_neg hnumber, List.filter_cons_of_neg (by simpa using hnumber)]
    rfl

theorem outcomesOf_congr {perform' : κ → Effect τ α} (number : Nat) {s : σ} {t : τ}
    (h : (trace (onTurn perform) schedule s).map (·.outcome) =
      (trace (onTurn perform') schedule t).map (·.outcome)) :
    outcomesOf number (trace (onTurn perform) schedule s) =
      outcomesOf number (trace (onTurn perform') schedule t) := by
  induction schedule generalizing s t with
  | nil => rfl
  | cons turn schedule ih =>
    rw [trace, trace, step_onTurn, step_onTurn] at h ⊢
    obtain ⟨houtcome, hlater⟩ := List.cons.inj h
    have hrest := ih hlater
    unfold outcomesOf at hrest ⊢
    by_cases hnumber : turn.1 = number
    · rw [List.filter_cons_of_pos (by simpa using hnumber),
        List.filter_cons_of_pos (by simpa using hnumber), List.map_cons, List.map_cons, hrest]
      exact congrArg (· :: _) houtcome
    · rw [List.filter_cons_of_neg (by simpa using hnumber),
        List.filter_cons_of_neg (by simpa using hnumber)]
      exact hrest

/-! ### What one program depends on -/

section Alone

variable (view : σ → σ)
  (hown : ∀ call ∈ callsOf number schedule, ∀ s,
    (step perform call (view s)).outcome = (step perform call s).outcome ∧
      (step perform call (view s)).after = view (step perform call s).after)
  (hother : ∀ turn ∈ schedule, turn.1 ≠ number → ∀ s, view (step perform turn.2 s).after = view s)
include hown hother

/-- **A program among others has the outcomes that it has alone.** -/
theorem outcomesOf_trace (s : σ) :
    outcomesOf number (trace (onTurn perform) schedule s) =
      (trace perform (callsOf number schedule) (view s)).map (·.outcome) := by
  induction schedule generalizing s with
  | nil => rfl
  | cons turn schedule ih =>
    obtain ⟨other, call⟩ := turn
    obtain ⟨hfirst, hother⟩ := List.forall_mem_cons.mp hother
    rw [trace, step_onTurn, outcomesOf]
    by_cases hnumber : other = number
    · subst hnumber
      rw [callsOf_cons_self] at hown ⊢
      obtain ⟨hcall, hown⟩ := List.forall_mem_cons.mp hown
      obtain ⟨houtcome, hafter⟩ := hcall s
      rw [List.filter_cons_of_pos (by simp), List.map_cons, trace, List.map_cons, houtcome, hafter,
        ← ih hown hother]
      rfl
    · rw [callsOf_cons_ne hnumber] at hown ⊢
      rw [List.filter_cons_of_neg (by simpa using hnumber), ← hfirst hnumber s, ← ih hown hother]
      rfl

/-- What is wanted of the states of all calls, and of less of a state, holds of a program alone. -/
theorem throughout_alone {wanted : κ → σ → Prop} (hless : ∀ call s, wanted call s → wanted call (view s))
    (s : σ) (h : Throughout (onTurn perform) (fun turn => wanted turn.2) schedule s) :
    Throughout perform wanted (callsOf number schedule) (view s) := by
  induction schedule generalizing s with
  | nil => exact nofun
  | cons turn schedule ih =>
    obtain ⟨other, call⟩ := turn
    obtain ⟨hwanted, hlater⟩ := throughout_cons.mp h
    obtain ⟨hfirst, hother⟩ := List.forall_mem_cons.mp hother
    rw [step_onTurn] at hlater
    by_cases hnumber : other = number
    · subst hnumber
      rw [callsOf_cons_self] at hown ⊢
      obtain ⟨hcall, hown⟩ := List.forall_mem_cons.mp hown
      rw [throughout_cons, (hcall s).2]
      exact ⟨hless call s hwanted, ih hown hother _ hlater⟩
    · rw [callsOf_cons_ne hnumber] at hown ⊢
      rw [← hfirst hnumber s]
      exact ih hown hother _ hlater

end Alone

/-! ### Calls of one kind -/

/-- If the calls of a kind are all of one program, they are in the order of that program. -/
theorem Interleaves.filter_eq (h : Interleaves programs schedule) {kind : κ → Bool}
    (hkind : ∀ other, other ≠ number → ∀ call ∈ programs.getD other [], kind call = false) :
    (schedule.map (·.2)).filter kind = (programs.getD number []).filter kind := by
  have hsame : ∀ turn ∈ schedule, (kind turn.2 && turn.1 == number) = kind turn.2 := by
    intro turn hturn
    by_cases hnumber : turn.1 = number
    · simp [hnumber]
    · rw [hkind turn.1 hnumber turn.2 (h.mem turn hturn), Bool.false_and]
  rw [← h number, callsOf, List.filter_map, List.filter_map, List.filter_filter]
  exact congrArg (List.map (·.2)) (List.filter_congr fun turn hturn => (hsame turn hturn).symm)

theorem filter_flatten_eq {kind : κ → Bool}
    (hkind : ∀ other, other ≠ number → ∀ call ∈ programs.getD other [], kind call = false) :
    programs.flatten.filter kind = (programs.getD number []).filter kind := by
  induction programs generalizing number with
  | nil => rfl
  | cons program programs ih =>
    rw [List.flatten_cons, List.filter_append]
    cases number with
    | zero =>
      have hnone : programs.flatten.filter kind = [] := by
        rw [List.filter_eq_nil_iff]
        intro call hcall
        obtain ⟨other, hother, hmem⟩ := List.mem_flatten.mp hcall
        obtain ⟨place, hplace⟩ := List.mem_iff_getElem?.mp hother
        have hcalls : (program :: programs).getD (place + 1) [] = other := by simp [hplace]
        rw [hkind (place + 1) (Nat.succ_ne_zero place) call (hcalls ▸ hmem)]
        exact Bool.false_ne_true
      rw [hnone, List.append_nil]
      rfl
    | succ number =>
      have hnone : program.filter kind = [] := by
        rw [List.filter_eq_nil_iff]
        intro call hcall
        rw [hkind 0 (Nat.succ_ne_zero number).symm call hcall]
        exact Bool.false_ne_true
      rw [hnone, List.nil_append]
      exact ih fun other hother => hkind (other + 1) fun heq => hother (Nat.succ.inj heq)

end FramedStore.Effect
