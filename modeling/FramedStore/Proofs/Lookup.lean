import Mathlib.Data.List.Basic

/-!
# Look-ups in lists of pairs

A key may occur more than once. Either no pair is under it, or there is a first one
(`absent_or_first`); and in both cases what is found, and what is left if the first pair or all pairs
under it are removed, can be said.
-/

namespace FramedStore

variable {α β : Type} [BEq α] [LawfulBEq α] {key other : α} {value : β} {entries : List (α × β)}

theorem mem_of_lookup (h : entries.lookup key = some value) : (key, value) ∈ entries := by
  obtain ⟨before, after, rfl, -⟩ := List.lookup_eq_some_iff.mp h
  exact List.mem_append_right _ List.mem_cons_self

theorem lookup_cons_ne (h : other ≠ key) :
    ((key, value) :: entries).lookup other = entries.lookup other := by
  rw [List.lookup_cons, beq_eq_false_iff_ne.mpr h]

/-! ### The first pair under a key -/

omit [BEq α] [LawfulBEq α] in
theorem absent_or_first (entries : List (α × β)) (key : α) :
    (∀ e ∈ entries, e.1 ≠ key) ∨ ∃ before value after,
      entries = before ++ (key, value) :: after ∧ ∀ e ∈ before, e.1 ≠ key := by
  induction entries with
  | nil => exact .inl nofun
  | cons entry entries ih =>
    by_cases heq : entry.1 = key
    · exact .inr ⟨[], entry.2, entries, by rw [← heq]; rfl, nofun⟩
    · rcases ih with habsent | ⟨before, value, after, rfl, hbefore⟩
      · exact .inl (List.forall_mem_cons.mpr ⟨heq, habsent⟩)
      · exact .inr ⟨entry :: before, value, after, rfl, List.forall_mem_cons.mpr ⟨heq, hbefore⟩⟩

section Absent

variable (habsent : ∀ e ∈ entries, e.1 ≠ key)
include habsent

theorem find?_absent : entries.find? (·.1 == key) = none :=
  List.find?_eq_none.mpr (by simpa using habsent)

theorem eraseP_absent : entries.eraseP (·.1 == key) = entries :=
  List.eraseP_of_forall_not (by simpa using habsent)

theorem filter_absent : entries.filter (·.1 != key) = entries :=
  List.filter_eq_self.mpr (by simpa using habsent)

theorem countP_absent : entries.countP (·.1 == key) = 0 :=
  List.countP_eq_zero.mpr (by simpa using habsent)

end Absent

section First

variable {before after : List (α × β)} (hbefore : ∀ e ∈ before, e.1 ≠ key)
include hbefore

theorem find?_first : (before ++ (key, value) :: after).find? (·.1 == key) = some (key, value) := by
  rw [List.find?_append, find?_absent hbefore, List.find?_cons_of_pos (by simp), Option.none_or]

theorem eraseP_first : (before ++ (key, value) :: after).eraseP (·.1 == key) = before ++ after := by
  rw [List.eraseP_append_right _ (by simpa using hbefore), List.eraseP_cons_of_pos (by simp)]

theorem filter_first :
    (before ++ (key, value) :: after).filter (·.1 != key) = before ++ after.filter (·.1 != key) := by
  rw [List.filter_append, filter_absent hbefore, List.filter_cons_of_neg (by simp)]

theorem countP_first :
    (before ++ (key, value) :: after).countP (·.1 == key) = after.countP (·.1 == key) + 1 := by
  rw [List.countP_append, countP_absent hbefore, List.countP_cons_of_pos (by simp), Nat.zero_add]

end First

/-! ### Pairs under other keys -/

variable [DecidableEq α]

theorem lookup_filter_ne (h : other ≠ key) :
    (entries.filter (·.1 ≠ key)).lookup other = entries.lookup other := by
  induction entries with
  | nil => rfl
  | cons entry entries ih =>
    by_cases hentry : entry.1 = key
    · rw [List.filter_cons_of_neg (by simpa using hentry), ih]
      exact (lookup_cons_ne (hentry ▸ h)).symm
    · rw [List.filter_cons_of_pos (by simpa using hentry), List.lookup_cons, ih, List.lookup_cons]

end FramedStore
