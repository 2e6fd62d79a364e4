import FramedStore.Bytes
import Mathlib.Data.List.Basic

/-!
# Slices and splices

What slices, overwrites, removals and insertions come to on a byte string that is given in parts, and
how long byte strings are that stand for the items of a list.
-/

namespace FramedStore.Bytes

/-- The most bytes that one byte string, in memory or in a file, can have. -/
def capacity : Nat := 0x7FFFFFFFFFFFFFFF

theorem lt_range_of_le_capacity {length : Nat} (h : length ≤ capacity) : length < Offset.range := by
  unfold capacity at h
  unfold Offset.range
  omega

/-- Positions in a byte string, and a little behind it, are added without starting over. -/
theorem offset_add_eq {a b : Nat} (h : a ≤ capacity) (hb : b ≤ capacity + 1) :
    Offset.add a b = a + b := by
  unfold Offset.add
  unfold capacity at h hb
  exact Nat.mod_eq_of_lt (by unfold Offset.range; omega)

variable {bytes front middle rest : Bytes} {start stop : Nat}

/-! ### Slices -/

@[simp] theorem slice_self (bytes : Bytes) (start : Nat) : bytes.slice start start = [] := by
  simp [slice]

@[simp] theorem slice_all (bytes : Bytes) : bytes.slice 0 bytes.length = bytes := by
  simp [slice]

theorem length_slice (h : stop ≤ bytes.length) : (bytes.slice start stop).length = stop - start := by
  simp [slice]
  omega

theorem slice_to_end (bytes : Bytes) (start : Nat) :
    bytes.slice start bytes.length = bytes.drop start := by
  rw [slice, List.take_of_length_le (by simp)]

theorem slice_append_slice {middle : Nat} (h1 : start ≤ middle) (h2 : middle ≤ stop) :
    bytes.slice start middle ++ bytes.slice middle stop = bytes.slice start stop := by
  unfold slice
  have hdrop : bytes.drop middle = (bytes.drop start).drop (middle - start) := by
    rw [List.drop_drop]
    congr 1
    omega
  rw [hdrop, ← List.take_add]
  congr 1
  omega

/-! ### Removals and insertions -/

theorem remove_middle (front middle rest : Bytes) :
    (front ++ middle ++ rest).remove front.length (front.length + middle.length) =
      front ++ rest := by
  rw [remove, List.append_assoc, List.take_left, ← List.append_assoc, ← List.length_append,
    List.drop_left]

@[simp] theorem remove_self (bytes : Bytes) (start : Nat) : bytes.remove start start = bytes :=
  List.take_append_drop start bytes

theorem length_remove {bytes : Bytes} {start stop : Nat} (hle : start ≤ stop)
    (hstop : stop ≤ bytes.length) :
    (bytes.remove start stop).length = bytes.length - (stop - start) := by
  rw [remove, List.length_append, List.length_take, List.length_drop]
  omega

@[simp] theorem insertAt_nil (bytes : Bytes) (position : Nat) :
    bytes.insertAt position [] = bytes := by
  simp [insertAt]

/-! ### Overwriting

What stands before a patch, with zeros where that is short, has as many bytes as the patch's
position says. -/

section Overwrite

variable {patch : Bytes} {n : Nat}

theorem length_before_patch (bytes : Bytes) (start : Nat) :
    (bytes.take start ++ List.replicate (start - bytes.length) 0).length = start := by
  rw [List.length_append, List.length_take, List.length_replicate]
  omega

theorem take_overwrite (hn : n ≤ start) (hlength : n ≤ bytes.length) :
    (bytes.overwrite start patch).take n = bytes.take n := by
  unfold overwrite
  rw [List.append_assoc, List.append_assoc, List.take_append_of_le_length (by simp; omega),
    List.take_take, Nat.min_eq_left hn]

theorem take_overwrite_end (h : start ≤ bytes.length) :
    (bytes.overwrite start patch).take (start + patch.length) = bytes.take start ++ patch := by
  unfold overwrite
  rw [Nat.sub_eq_zero_of_le h, List.replicate_zero, List.append_nil, List.take_left']
  rw [List.length_append, List.length_take, Nat.min_eq_left h]

theorem drop_overwrite_start (bytes : Bytes) (start : Nat) (patch : Bytes) :
    (bytes.overwrite start patch).drop start = patch ++ bytes.drop (start + patch.length) := by
  unfold overwrite
  rw [List.append_assoc, List.drop_left' (length_before_patch bytes start)]

theorem drop_overwrite (h : start + patch.length ≤ n) :
    (bytes.overwrite start patch).drop n = bytes.drop n := by
  obtain ⟨k, rfl⟩ := Nat.exists_eq_add_of_le h
  rw [← List.drop_drop, ← List.drop_drop, drop_overwrite_start, List.drop_left, List.drop_drop]

theorem length_overwrite (bytes : Bytes) (start : Nat) (patch : Bytes) :
    (bytes.overwrite start patch).length = max bytes.length (start + patch.length) := by
  unfold overwrite
  rw [List.length_append, List.length_append, length_before_patch, List.length_drop]
  omega

theorem overwrite_nil (h : start ≤ bytes.length) : bytes.overwrite start [] = bytes := by
  unfold overwrite
  rw [Nat.sub_eq_zero_of_le h]
  simp

theorem overwrite_length (bytes patch : Bytes) :
    bytes.overwrite bytes.length patch = bytes ++ patch := by
  simp [overwrite]

theorem nil_overwrite_zero (patch : Bytes) : overwrite [] 0 patch = patch := by
  simp [overwrite]

/-- A patch over the gap that a moved tail has left. -/
theorem overwrite_eq_insertAt {moved : Bytes} (hlength : start ≤ moved.length)
    (htake : moved.take start = bytes.take start)
    (hdrop : moved.drop (start + patch.length) = bytes.drop start) :
    moved.overwrite start patch = bytes.insertAt start patch := by
  unfold overwrite insertAt
  rw [Nat.sub_eq_zero_of_le hlength, htake, hdrop, List.replicate_zero, List.append_nil]

theorem insertAt_eq_overwrite (h : start ≤ bytes.length) :
    bytes.overwrite start (patch ++ bytes.drop start) = bytes.insertAt start patch := by
  have hend : bytes.drop (start + (patch ++ bytes.drop start).length) = [] := by
    rw [List.drop_eq_nil_iff, List.length_append, List.length_drop]
    omega
  unfold overwrite insertAt
  rw [Nat.sub_eq_zero_of_le h, hend, List.replicate_zero, List.append_nil, List.append_nil,
    List.append_assoc]

theorem resize_of_le (h : n ≤ bytes.length) : bytes.resize n = bytes.take n := by
  rw [resize, Nat.sub_eq_zero_of_le h, List.replicate_zero, List.append_nil]

end Overwrite

/-! ### Items one behind the other -/

/-- Behind what stands at a position stands the rest. -/
theorem drop_behind {bytes front rest : Bytes} {position : Nat}
    (h : bytes.drop position = front ++ rest) : bytes.drop (position + front.length) = rest := by
  rw [← List.drop_drop, h, List.drop_left]

/-- Items of at least `least` bytes each. -/
theorem mul_length_le_flatMap {α : Type} {encode : α → Bytes} {least : Nat}
    (h : ∀ item, least ≤ (encode item).length) (items : List α) :
    least * items.length ≤ (items.flatMap encode).length := by
  induction items with
  | nil => exact Nat.zero_le _
  | cons item items ih =>
    have hitem := h item
    rw [List.flatMap_cons, List.length_append, List.length_cons, Nat.mul_succ]
    omega

/-- Items of at least one byte each. -/
theorem length_le_flatMap {α : Type} {encode : α → Bytes} (h : ∀ item, encode item ≠ [])
    (items : List α) : items.length ≤ (items.flatMap encode).length := by
  have hle := mul_length_le_flatMap (fun item => List.length_pos_iff.mpr (h item)) items
  omega

/-- A scan over items that fit into a byte string has rounds enough. -/
theorem length_lt_range {α : Type} {encode : α → Bytes} (h : ∀ item, encode item ≠ [])
    {bytes rest : Bytes} {position : Nat} {items : List α} (hcap : bytes.length ≤ capacity)
    (hitems : bytes.drop position = items.flatMap encode ++ rest) :
    items.length < Offset.range := by
  have h1 := length_le_flatMap h items
  have h2 := congrArg List.length hitems
  rw [List.length_drop, List.length_append] at h2
  have h3 := lt_range_of_le_capacity hcap
  omega

/-- Every byte string is items, and behind them bytes that start with none. -/
theorem exists_eq_flatMap {α : Type} {encode : α → Bytes} (h : ∀ item, encode item ≠ [])
    (bytes : Bytes) :
    ∃ (items : List α) (rest : Bytes), bytes = items.flatMap encode ++ rest ∧
      ∀ item, ¬ encode item <+: rest := by
  induction hlength : bytes.length using Nat.strongRecOn generalizing bytes with
  | ind length ih =>
    by_cases hitem : ∃ item, encode item <+: bytes
    · obtain ⟨item, rest, rfl⟩ := hitem
      have hpos := List.length_pos_iff.mpr (h item)
      rw [List.length_append] at hlength
      obtain ⟨items, rest', rfl, hrest⟩ := ih rest.length (by omega) rest rfl
      exact ⟨item :: items, rest', by rw [List.flatMap_cons, List.append_assoc], hrest⟩
    · exact ⟨[], bytes, rfl, fun item h => hitem ⟨item, h⟩⟩

end FramedStore.Bytes
