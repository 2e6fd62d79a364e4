import FramedStore.Proofs.Bytes.Splice

/-!
# Moving a tail block by block

Bytes are removed or put in by moving what is behind them, one block after the other, within one
byte string. A block is read before it is written over: to the front, the first block is moved
first, to the back, the last one.
-/

namespace FramedStore.Bytes

variable {original bytes : Bytes} {start stop gap position count : Nat}

theorem slice_of_drop_eq (h : bytes.drop position = original.drop position) (stop : Nat) :
    bytes.slice position stop = original.slice position stop := by
  unfold slice
  rw [h]

theorem slice_of_take_eq (h : bytes.take stop = original.take stop) (start : Nat) :
    bytes.slice start stop = original.slice start stop := by
  unfold slice
  rw [← List.drop_take, ← List.drop_take, h]

theorem slice_append_drop (h : start ≤ stop) :
    bytes.slice start stop ++ bytes.drop stop = bytes.drop start := by
  have hdrop : bytes.drop stop = (bytes.drop start).drop (stop - start) := by
    rw [List.drop_drop]
    congr 1
    omega
  rw [slice, hdrop, List.take_append_drop]

/-! ### To the front -/

/-- The bytes between `stop` and `position` have been moved to `start`; those behind are still in
their place. -/
structure MovedLeft (original : Bytes) (start stop position : Nat) (bytes : Bytes) : Prop where
  length_eq : bytes.length = original.length
  front : bytes.take (position - (stop - start)) =
    original.take start ++ original.slice stop position
  back : bytes.drop position = original.drop position

namespace MovedLeft

theorem init (h : start ≤ stop) : MovedLeft original start stop stop original where
  length_eq := rfl
  front := by rw [Nat.sub_sub_self h, slice_self, List.append_nil]
  back := rfl

/-- One more block. -/
theorem step (h : MovedLeft original start stop position bytes) (hstart : start ≤ stop)
    (hstop : stop ≤ position) (hcount : position + count ≤ original.length) :
    MovedLeft original start stop (position + count)
      (bytes.overwrite (position - (stop - start)) (bytes.slice position (position + count))) := by
  have hblock := slice_of_drop_eq h.back (position + count)
  have hlength : (bytes.slice position (position + count)).length = count := by
    rw [length_slice (by rw [h.length_eq]; exact hcount)]
    omega
  have hle : position - (stop - start) ≤ bytes.length := by
    rw [h.length_eq]
    omega
  refine ⟨?_, ?_, ?_⟩
  · rw [length_overwrite, hlength, h.length_eq]
    omega
  · have hend : position + count - (stop - start) =
        position - (stop - start) + (bytes.slice position (position + count)).length := by
      rw [hlength]
      omega
    rw [hend, take_overwrite_end hle, h.front, hblock, List.append_assoc,
      slice_append_slice hstop (Nat.le_add_right _ _)]
  · rw [drop_overwrite (by rw [hlength]; omega), ← List.drop_drop, h.back, List.drop_drop]

/-- When the last block has been moved, the removed bytes are all that is left to cut off. -/
theorem resize (h : MovedLeft original start stop original.length bytes) :
    bytes.resize (original.length - (stop - start)) = original.remove start stop := by
  rw [resize_of_le (by rw [h.length_eq]; omega), h.front, slice_to_end]
  rfl

end MovedLeft

/-! ### To the back -/

/-- The bytes from `position` on have been moved `gap` bytes to the back; those before it are still
in their place. -/
structure MovedRight (original : Bytes) (gap position : Nat) (bytes : Bytes) : Prop where
  front : bytes.take position = original.take position
  back : bytes.drop (position + gap) = original.drop position

namespace MovedRight

theorem init (original : Bytes) (gap : Nat) :
    MovedRight original gap original.length original where
  front := rfl
  back := by
    rw [List.drop_of_length_le (Nat.le_add_right _ _), List.drop_of_length_le (Nat.le_refl _)]

theorem le_length (h : MovedRight original gap position bytes)
    (hposition : position ≤ original.length) : position ≤ bytes.length := by
  have hlength := congrArg List.length h.front
  rw [List.length_take, List.length_take] at hlength
  omega

/-- One more block. -/
theorem step (h : MovedRight original gap position bytes) (hposition : position ≤ original.length)
    (hstart : start ≤ position) :
    MovedRight original gap start (bytes.overwrite (start + gap) (bytes.slice start position)) := by
  have hle := h.le_length hposition
  have hlength : (bytes.slice start position).length = position - start := length_slice hle
  refine ⟨?_, ?_⟩
  · rw [take_overwrite (Nat.le_add_right _ _) (Nat.le_trans hstart hle),
      ← Nat.min_eq_left hstart, ← List.take_take, h.front, List.take_take]
  · have hend : start + gap + (bytes.slice start position).length = position + gap := by
      rw [hlength]
      omega
    rw [drop_overwrite_start, hend, h.back, slice_of_take_eq h.front, slice_append_drop hstart]

/-- When the first block has been moved, there is room for the bytes that are put in. -/
theorem overwrite {added : Bytes} (h : MovedRight original added.length position bytes)
    (hposition : position ≤ original.length) :
    bytes.overwrite position added = original.insertAt position added :=
  overwrite_eq_insertAt (h.le_length hposition) h.front h.back

end MovedRight

end FramedStore.Bytes
