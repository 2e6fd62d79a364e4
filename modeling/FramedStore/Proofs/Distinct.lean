import Mathlib.Data.List.Basic
import Mathlib.Data.List.Nodup

/-!
# Lists without repetitions

`List.eraseDups` keeps the first occurrence of each element.
-/

namespace FramedStore

variable {α : Type} [DecidableEq α]

theorem filter_ne_of_not_mem {left : α} {list : List α} (h : left ∉ list) :
    list.filter (· ≠ left) = list := by
  rw [List.filter_eq_self]
  intro other hother
  rw [decide_eq_true_iff]
  rintro rfl
  exact h hother

theorem eraseDups_filter (keep : α → Bool) (list : List α) :
    (list.filter keep).eraseDups = list.eraseDups.filter keep := by
  cases list with
  | nil => rfl
  | cons first list =>
    have hrest := eraseDups_filter keep (list.filter fun other => !other == first)
    rw [List.filter_filter] at hrest
    rw [List.eraseDups_cons]
    cases hkeep : keep first with
    | true =>
      rw [List.filter_cons_of_pos hkeep, List.filter_cons_of_pos hkeep, List.eraseDups_cons,
        List.filter_filter, ← hrest]
      simp only [Bool.and_comm]
    | false =>
      rw [List.filter_cons_of_neg (by simp [hkeep]), List.filter_cons_of_neg (by simp [hkeep]),
        ← hrest]
      -- what is kept is not the first one
      congr 1
      refine List.filter_congr fun other _ => ?_
      by_cases heq : other = first
      · rw [heq, hkeep]
        rfl
      · simp [heq]
termination_by list.length
decreasing_by exact Nat.lt_succ_of_le (List.length_filter_le _ _)

theorem nodup_eraseDups (list : List α) : list.eraseDups.Nodup := by
  cases list with
  | nil => exact List.nodup_nil
  | cons first list =>
    rw [List.eraseDups_cons, List.nodup_cons, List.mem_eraseDups]
    exact ⟨by simp, nodup_eraseDups _⟩
termination_by list.length
decreasing_by exact Nat.lt_succ_of_le (List.length_filter_le _ _)

/-- One more than is needed is enough, if one is left out. -/
theorem take_filter_take (left : α) {list : List α} (hnodup : list.Nodup) (count : Nat) :
    ((list.take (count + 1)).filter (· ≠ left)).take count =
      (list.filter (· ≠ left)).take count := by
  induction list generalizing count with
  | nil => rfl
  | cons first list ih =>
    obtain ⟨hfirst, hnodup⟩ := List.nodup_cons.mp hnodup
    rw [List.take_succ_cons]
    by_cases heq : first = left
    · subst heq
      have hfront : first ∉ list.take count := fun hmem => hfirst (List.mem_of_mem_take hmem)
      rw [List.filter_cons_of_neg (by simp), List.filter_cons_of_neg (by simp),
        filter_ne_of_not_mem hfirst, filter_ne_of_not_mem hfront, List.take_take, Nat.min_self]
    · rw [List.filter_cons_of_pos (by simpa using heq), List.filter_cons_of_pos (by simpa using heq)]
      cases count with
      | zero => rfl
      | succ count => rw [List.take_succ_cons, List.take_succ_cons, ih hnodup]

end FramedStore
