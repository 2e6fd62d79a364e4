import FramedStore.Proofs.Effect.Loop
import FramedStore.Record.Cursor

/-!
# Steps of a cursor

What an effect on the storage and a move do to a cursor, and what repeating a step comes to. `collect`
repeats a step that gives an answer or none; its result is read off the answers that the step gives
one after the other (`Yields`): all of them, if then as many are there as wanted, or there are no
more (`collect_of_yields`). It fails where the step does after fewer answers than wanted, which are
then lost (`collect_error_iff`).
-/

namespace FramedStore.Cursor

open Effect

variable {σ α : Type} {one : Effect σ (Option α)} {s t : σ} {found : List α}

/-! ### Single steps -/

theorem onStorage_ok {effect : Effect σ α} {cursor : Cursor σ} {storage : σ} {a : α}
    (h : effect cursor.storage = .ok a storage) :
    onStorage effect cursor = .ok a ⟨storage, cursor.offset⟩ := by
  rw [onStorage, within_apply, h]

theorem onStorage_eq_ok {effect : Effect σ α} {cursor after : Cursor σ} {a : α}
    (h : onStorage effect cursor = .ok a after) :
    effect cursor.storage = .ok a after.storage ∧ after.offset = cursor.offset := by
  rw [onStorage, within_apply] at h
  split at h
  · rename_i heffect
    cases h
    exact ⟨heffect, rfl⟩
  · cases h

@[simp] theorem seek_apply (offset : Nat) (cursor : Cursor σ) :
    seek offset cursor = .ok ⟨⟩ ⟨cursor.storage, offset⟩ := rfl

/-! ### Repeated steps -/

/-- From the first state to the second, a step gives these answers one after the other. -/
inductive Yields (one : Effect σ (Option α)) : σ → List α → σ → Prop
  | nil (s : σ) : Yields one s [] s
  | cons {s t u : σ} {a : α} {more : List α} (first : one s = .ok (some a) t)
      (rest : Yields one t more u) : Yields one s (a :: more) u

/-- How a repetition ends after answers have been found: that many are wanted, or there is no more
although no fewer are wanted. -/
def Ends (one : Effect σ (Option α)) (wanted : Option Nat) (count : Nat) (t : σ) : Prop :=
  wanted = some count ∨ (∀ n ∈ wanted, count ≤ n) ∧ one t = .ok none t

theorem Ends.of_succ {wanted : Option Nat} {count : Nat} (h : Ends one wanted (count + 1) t) :
    wanted ≠ some 0 ∧ Ends one (wanted.map (· - 1)) count t := by
  rcases h with rfl | ⟨hle, hnone⟩
  · exact ⟨by simp, .inl rfl⟩
  · refine ⟨fun hzero => ?_, .inr ⟨fun n hn => ?_, hnone⟩⟩
    · have := hle 0 hzero
      omega
    · obtain ⟨m, hm, rfl⟩ := Option.map_eq_some_iff.mp hn
      have := hle m hm
      omega

theorem collectRound_none {wanted : Option Nat} (found : List α) (hwanted : wanted ≠ some 0)
    (h : one s = .ok none t) : collectRound one (wanted, found) s = .ok (.done found.reverse) t := by
  unfold collectRound
  simp only [if_apply]
  rw [if_neg hwanted]
  exact bind_ok h

theorem collectRound_last {wanted : Option Nat} (found : List α) (h : Ends one wanted 0 t) :
    collectRound one (wanted, found) t = .ok (.done found.reverse) t := by
  by_cases hzero : wanted = some 0
  · subst hzero
    rfl
  · exact collectRound_none found hzero (h.resolve_left hzero).2

theorem collectRound_again {wanted : Option Nat} (found : List α) {a : α}
    (hwanted : wanted ≠ some 0) (h : one s = .ok (some a) t) :
    collectRound one (wanted, found) s = .ok (.again (wanted.map (· - 1), a :: found)) t := by
  unfold collectRound
  simp only [if_apply]
  rw [if_neg hwanted]
  exact bind_ok h

theorem collectRound_error {wanted : Option Nat} (found : List α) {e : Error}
    (hwanted : wanted ≠ some 0) (h : one s = .error e t) :
    collectRound one (wanted, found) s = .error e t := by
  unfold collectRound
  simp only [if_apply]
  rw [if_neg hwanted]
  exact bind_error h

theorem iterate_collectRound (h : Yields one s found t) (before : List α) {wanted : Option Nat}
    (hends : Ends one wanted found.length t) {rounds : Nat} (hrounds : found.length < rounds) :
    iterate (collectRound one) rounds (wanted, before) s = .ok (before.reverse ++ found) t := by
  induction h generalizing before wanted rounds with
  | nil t =>
    obtain ⟨rounds, rfl⟩ := Nat.exists_eq_add_one.mpr hrounds
    rw [List.append_nil]
    exact iterate_done (collectRound_last before hends)
  | @cons s t u a more first rest ih =>
    obtain ⟨rounds, rfl⟩ := Nat.exists_eq_add_one.mpr (Nat.zero_lt_of_lt hrounds)
    obtain ⟨hwanted, hends⟩ := hends.of_succ
    rw [iterate_again (collectRound_again before hwanted first),
      ih (a :: before) hends (Nat.lt_of_succ_lt_succ hrounds), List.reverse_cons,
      List.append_assoc]
    rfl

/-- Fewer answers are there than wanted, so that a repetition goes on. -/
def Fewer (count : Nat) (wanted : Option Nat) : Prop := ∀ n ∈ wanted, count < n

theorem fewer_zero_iff {wanted : Option Nat} : Fewer 0 wanted ↔ wanted ≠ some 0 := by
  cases wanted <;> simp [Fewer, Nat.pos_iff_ne_zero]

theorem fewer_succ_iff {count : Nat} {wanted : Option Nat} :
    Fewer (count + 1) wanted ↔ wanted ≠ some 0 ∧ Fewer count (wanted.map (· - 1)) := by
  cases wanted with
  | none => simp [Fewer]
  | some n =>
    simp only [Fewer, Option.mem_def, Option.map_some, Option.some.injEq, forall_eq', ne_eq]
    omega

/-- A repetition breaks off where a step fails although fewer answers are there than wanted. -/
def BreaksOff (one : Effect σ (Option α)) (wanted : Option Nat) (s : σ) (found : List α) (last : σ)
    (e : Error) (t : σ) : Prop :=
  Yields one s found last ∧ Fewer found.length wanted ∧ one last = .error e t

theorem iterate_collectRound_of_breaksOff {last : σ} {e : Error} (before : List α)
    {wanted : Option Nat} (h : BreaksOff one wanted s found last e t) {rounds : Nat}
    (hrounds : found.length < rounds) :
    iterate (collectRound one) rounds (wanted, before) s = .error e t := by
  obtain ⟨hyields, hfewer, hlast⟩ := h
  induction hyields generalizing before wanted rounds with
  | nil s =>
    obtain ⟨rounds, rfl⟩ := Nat.exists_eq_add_one.mpr hrounds
    exact iterate_error (collectRound_error before (fewer_zero_iff.mp hfewer) hlast)
  | @cons s t u a more first rest ih =>
    obtain ⟨rounds, rfl⟩ := Nat.exists_eq_add_one.mpr (Nat.zero_lt_of_lt hrounds)
    obtain ⟨hwanted, hfewer⟩ := fewer_succ_iff.mp hfewer
    rw [iterate_again (collectRound_again before hwanted first)]
    exact ih (a :: before) (Nat.lt_of_succ_lt_succ hrounds) hfewer hlast

/-- A repetition fails where a step does, or since answers never end. -/
theorem breaksOff_of_iterate {e : Error} {before : List α} {wanted : Option Nat} {rounds : Nat}
    (h : iterate (collectRound one) rounds (wanted, before) s = .error e t) :
    (∃ found last, BreaksOff one wanted s found last e t) ∨
      ∃ found, Yields one s found t ∧ found.length = rounds := by
  induction rounds generalizing s before wanted with
  | zero =>
    cases h
    exact .inr ⟨[], .nil _, rfl⟩
  | succ rounds ih =>
    by_cases hwanted : wanted = some 0
    · cases h.symm.trans (iterate_done (collectRound_last before (.inl hwanted)))
    rcases hone : one s with ⟨_ | a, u⟩ | ⟨e', u⟩
    · cases h.symm.trans (iterate_done (collectRound_none before hwanted hone))
    · rw [iterate_again (collectRound_again before hwanted hone)] at h
      rcases ih h with ⟨found, last, hyields, hfewer, hlast⟩ | ⟨found, hyields, hlength⟩
      · exact .inl ⟨a :: found, last, .cons hone hyields, fewer_succ_iff.mpr ⟨hwanted, hfewer⟩, hlast⟩
      · exact .inr ⟨a :: found, .cons hone hyields, congrArg Nat.succ hlength⟩
    · rw [iterate_error (collectRound_error before hwanted hone)] at h
      cases h
      exact .inl ⟨[], s, .nil s, fewer_zero_iff.mpr hwanted, hone⟩

/-- Answers are few if every one of them lowers a measure. -/
theorem Yields.length_le (inv : σ → Prop) (measure : σ → Nat)
    (hstep : ∀ s a t, inv s → one s = .ok (some a) t → inv t ∧ measure t < measure s)
    (h : Yields one s found t) (hs : inv s) : inv t ∧ found.length + measure t ≤ measure s := by
  induction h with
  | nil s => exact ⟨hs, by simp⟩
  | cons first rest ih =>
    obtain ⟨ht, hlt⟩ := hstep _ _ _ hs first
    obtain ⟨hu, hle⟩ := ih ht
    refine ⟨hu, ?_⟩
    simp only [List.length_cons]
    omega

/-- **What a repetition comes to.** -/
theorem collect_of_yields {max : Int} (h : Yields one s found t)
    (hends : Ends one (limit max) found.length t) (hlt : found.length < Offset.range) :
    collect max one s = .ok found t :=
  iterate_collectRound h [] hends hlt

/-- **How a repetition fails**, if a measure below the bound on its rounds goes down with every
answer. -/
theorem collect_error_iff (inv : σ → Prop) (measure : σ → Nat) {max : Int} {e : Error}
    (hstep : ∀ s a t, inv s → one s = .ok (some a) t → inv t ∧ measure t < measure s)
    (hs : inv s) (hlt : measure s < Offset.range) :
    collect max one s = .error e t ↔ ∃ found last, BreaksOff one (limit max) s found last e t := by
  constructor
  · intro h
    rcases breaksOff_of_iterate h with h | ⟨found, hyields, hlength⟩
    · exact h
    · have := (hyields.length_le inv measure hstep hs).2
      omega
  · rintro ⟨found, last, h⟩
    have := (h.1.length_le inv measure hstep hs).2
    exact iterate_collectRound_of_breaksOff [] h (by omega)

end FramedStore.Cursor
