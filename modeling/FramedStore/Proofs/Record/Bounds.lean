import FramedStore.Proofs.Record.Framing
import FramedStore.Proofs.Storage.Memory
import FramedStore.Record.Bounds

/-!
# Records found in memory

At the start of a record in memory, `boundsAt?` gives the bounds of that record, whatever stands
before and behind it, and leaves the memory as it is (`boundsAt?_of_isPrefix`).
-/

namespace FramedStore.Framing

open Effect

variable {framing : Framing} {content rest : Bytes} {memory : Memory}

/-- The bounds of the record of a content that starts at `position`. -/
def boundsOf (framing : Framing) (position : Nat) (content : Bytes) : Bounds :=
  ⟨position, position + (framing.indicator content).length,
    position + (framing.encode content).length⟩

theorem length_encode (framing : Framing) (content : Bytes) :
    (framing.encode content).length = (framing.indicator content).length + content.length :=
  List.length_append

theorem contentLength_boundsOf (framing : Framing) (position : Nat) (content : Bytes) :
    (framing.boundsOf position content).contentLength = content.length := by
  simp only [boundsOf, Bounds.contentLength, length_encode]
  omega

theorem maxIndicator_le (framing : Framing) : framing.maxIndicator ≤ 21 := by
  cases framing <;> decide

@[simp] theorem ofExcept_ok (position : Nat) {α : Type} (a : α) :
    (Malformation.ofExcept position (.ok a) : Effect Memory α) memory = .ok a memory := rfl

/-- The first byte is that of the content, whether it stands in the window or behind it. -/
theorem firstByte?_apply {bytes window : Bytes} {header limit position : Nat}
    (hcap : bytes.length ≤ Bytes.capacity) (hdrop : bytes.drop position = content ++ rest)
    (hwindow : ∃ indicator, indicator.length = header ∧
      window = (indicator ++ (content ++ rest)).take limit) :
    firstByte? window ⟨header, content.length⟩ position (⟨bytes⟩ : Memory) =
      .ok content.head? ⟨bytes⟩ := by
  obtain ⟨indicator, rfl, rfl⟩ := hwindow
  obtain _ | ⟨first, content⟩ := content
  · rfl
  unfold firstByte?
  rw [if_neg (by simp)]
  dsimp only
  by_cases hlt : indicator.length < limit
  · have hget : ((indicator ++ (first :: content ++ rest)).take limit)[indicator.length]? =
        some first := by
      simp [List.getElem?_take_of_lt hlt]
    rw [hget]
    rfl
  · have hget : ((indicator ++ (first :: content ++ rest)).take limit)[indicator.length]? =
        none := by
      simp
      omega
    have hlen := congrArg List.length hdrop
    simp only [List.length_drop, List.cons_append, List.length_cons] at hlen
    have hslice : bytes.slice position (position + 1) = [first] := by
      simp [Bytes.slice, hdrop]
    rw [hget, Bytes.offset_add_eq (by omega) (by unfold Bytes.capacity; omega)]
    simp only [bind_apply, Memory.slice_of_le _ (Nat.le_succ position)
      (show position + 1 ≤ (⟨bytes⟩ : Memory).content.length by simp only; omega), hslice]
    rfl

/-- **At a record, its bounds are found.** -/
theorem boundsAt?_of_isPrefix {bytes : Bytes} {position : Nat} (hcap : bytes.length ≤ Bytes.capacity)
    (h : framing.encode content <+: bytes.drop position) :
    framing.boundsAt? position (⟨bytes⟩ : Memory) =
      .ok (some (framing.boundsOf position content)) ⟨bytes⟩ := by
  obtain ⟨rest, hdrop⟩ := h
  rw [encode, List.append_assoc] at hdrop
  have hmax := maxIndicator_le framing
  have hpos := length_indicator_pos framing content
  have htotal : bytes.length - position =
      (framing.indicator content).length + (content.length + rest.length) := by
    simpa using (congrArg List.length hdrop).symm
  have hbody : bytes.drop (position + (framing.indicator content).length) = content ++ rest :=
    Bytes.drop_behind hdrop.symm
  have hlt : content.length < Offset.range := Bytes.lt_range_of_le_capacity (by omega)
  have hadd : Offset.add position framing.maxIndicator = position + framing.maxIndicator :=
    Bytes.offset_add_eq (by omega) (by unfold Bytes.capacity; omega)
  have hstart : Offset.add position (framing.indicator content).length =
      position + (framing.indicator content).length :=
    Bytes.offset_add_eq (by omega) (by omega)
  have hwindow : bytes.slice position (min bytes.length (position + framing.maxIndicator)) =
      (framing.indicator content ++ (content ++ rest)).take framing.maxIndicator := by
    have hcount : min bytes.length (position + framing.maxIndicator) - position =
        min framing.maxIndicator (framing.indicator content ++ (content ++ rest)).length := by
      simp only [List.length_append]
      omega
    rw [Bytes.slice, ← hdrop, hcount]
    exact List.take_eq_take_min.symm
  have hfront : framing.indicator content <+:
      (framing.indicator content ++ (content ++ rest)).take framing.maxIndicator :=
    List.prefix_take_iff.mpr ⟨List.prefix_append _ _, length_indicator_le framing hlt⟩
  have hfirst : firstByte?
      ((framing.indicator content ++ (content ++ rest)).take framing.maxIndicator)
      ⟨(framing.indicator content).length, content.length⟩
      (position + (framing.indicator content).length) (⟨bytes⟩ : Memory) =
        .ok content.head? ⟨bytes⟩ :=
    firstByte?_apply hcap hbody ⟨_, rfl, rfl⟩
  have hslice := Memory.slice_of_le (⟨bytes⟩ : Memory)
    (show position ≤ min bytes.length (position + framing.maxIndicator) by omega)
    (Nat.min_le_left _ _)
  unfold boundsAt?
  refine (bind_ok (Memory.size_apply _)).trans ?_
  simp only [hadd, if_apply]
  rw [if_neg (by omega)]
  refine (bind_ok hslice).trans ?_
  simp only [hwindow, readIndicator_of_isPrefix hlt hfront]
  refine (bind_ok (ofExcept_ok _ _)).trans ?_
  simp only [hstart, if_apply]
  rw [if_neg (by omega)]
  refine (bind_ok hfirst).trans ?_
  rw [checkContent_of_isPrefix hfront]
  refine (bind_ok (ofExcept_ok _ _)).trans ?_
  rw [boundsOf, length_encode, ← Nat.add_assoc]
  rfl

theorem boundsAt?_end {position : Nat} (h : memory.content.length ≤ position) :
    framing.boundsAt? position memory = .ok none memory := by
  unfold boundsAt?
  refine (bind_ok (Memory.size_apply _)).trans ?_
  simp only [if_apply]
  rw [if_pos h]
  rfl

/-- Between the bounds of a record stands its content. -/
theorem slice_boundsOf {bytes : Bytes} {position : Nat}
    (h : framing.encode content <+: bytes.drop position) :
    Storage.slice (framing.boundsOf position content).content
        (framing.boundsOf position content).stop (⟨bytes⟩ : Memory) =
      .ok content ⟨bytes⟩ := by
  obtain ⟨rest, hdrop⟩ := h
  have hlen := congrArg List.length hdrop
  have hpos := length_indicator_pos framing content
  simp only [List.length_append, length_encode, List.length_drop] at hlen
  have hbody : bytes.drop (position + (framing.indicator content).length) = content ++ rest := by
    rw [encode, List.append_assoc] at hdrop
    exact Bytes.drop_behind hdrop.symm
  simp only [boundsOf, length_encode]
  rw [Memory.slice_of_le _ (by omega) (by simp only; omega)]
  simp only [Bytes.slice, hbody]
  rw [List.take_append_of_le_length (by omega), List.take_of_length_le (by omega)]

/-- A record that is added stands behind the bytes there were. -/
theorem append_apply {bytes : Bytes}
    (hcap : (bytes ++ framing.encode content).length ≤ Bytes.capacity) :
    framing.append content (⟨bytes⟩ : Memory) =
      .ok (framing.boundsOf bytes.length content) ⟨bytes ++ framing.encode content⟩ := by
  rw [List.length_append, length_encode] at hcap
  have hstart : Offset.add bytes.length (framing.indicator content).length =
      bytes.length + (framing.indicator content).length :=
    Bytes.offset_add_eq (by omega) (by omega)
  have hstop : Offset.add (bytes.length + (framing.indicator content).length) content.length =
      bytes.length + (framing.encode content).length := by
    rw [Bytes.offset_add_eq (by omega) (by omega), length_encode, Nat.add_assoc]
  unfold append
  refine (bind_ok (Memory.size_apply _)).trans ?_
  refine (bind_ok (Memory.append_apply _ _)).trans ?_
  rw [pure_apply, hstart, hstop]
  rfl

end FramedStore.Framing
