import FramedStore.Proofs.Record.Bounds

/-!
# Records that are found stand there

The converse of finding a record: whatever bytes are in a memory, bounds are given only for a record
that stands at the position, and looking changes nothing (`boundsAt?_cases`).
-/

namespace FramedStore.Framing

open Effect

variable {framing : Framing} {content bytes window : Bytes} {found : Indicator} {position : Nat}

theorem header_of_read (h : framing.readIndicator window = .ok found) :
    found.headerLength ≤ window.length ∧ found.contentLength < Offset.range := by
  cases framing with
  | byte =>
    obtain ⟨hlt, hheader, hfront⟩ := Nested.spelling_of_read (fun _ => rfl) (fun _ => rfl) h
    rw [hheader]
    exact ⟨hfront.length_le, hlt⟩
  | text =>
    obtain ⟨hlt, hheader, guard, -, hfront⟩ := TextIndicator.numeral_of_read h
    have hle := hfront.length_le
    rw [List.length_append, List.length_singleton] at hle
    rw [hheader]
    exact ⟨hle, hlt⟩

/-- At most one record stands at the front of a byte string. -/
theorem encode_isPrefix_unique {other : Bytes} (hcap : bytes.length ≤ Bytes.capacity)
    (h : framing.encode content <+: bytes) (hother : framing.encode other <+: bytes) :
    content = other := by
  have hsplit : ∀ c, framing.encode c <+: bytes →
      ∃ rest, framing.splitFirst? bytes = .ok (some (c, rest)) := by
    intro c hc
    have hle := hc.length_le
    rw [length_encode] at hle
    obtain ⟨rest, rfl⟩ := hc
    exact ⟨rest, splitFirst?_encode_append (Bytes.lt_range_of_le_capacity (by omega)) rest⟩
  obtain ⟨rest, h1⟩ := hsplit content h
  obtain ⟨rest', h2⟩ := hsplit other hother
  rw [h1] at h2
  cases h2
  rfl

theorem ofExcept_cases {α : Type} (memory : Memory) (position : Nat) (x : Except Malformation α) :
    (∃ a, x = .ok a ∧ (Malformation.ofExcept position x : Effect Memory α) memory =
        .ok a memory) ∨
      ∃ cause, (Malformation.ofExcept position x : Effect Memory α) memory =
        .error (.malformed position cause) memory := by
  cases x with
  | ok a => exact .inl ⟨a, rfl, rfl⟩
  | error cause => exact .inr ⟨cause, rfl⟩

/-- An indicator that is read in a window, with a content behind it that it fits, starts the record of
that content. -/
theorem encode_isPrefix_of_read {bytes window : Bytes} {found : Indicator}
    (hread : framing.readIndicator window = .ok found) (hwindow : window <+: bytes)
    (hcheck : framing.checkContent window found
      ((bytes.drop found.headerLength).take found.contentLength).head? = .ok ())
    (hlength : found.headerLength + found.contentLength ≤ bytes.length) :
    framing.encode ((bytes.drop found.headerLength).take found.contentLength) <+: bytes := by
  have hcontent : ((bytes.drop found.headerLength).take found.contentLength).length =
      found.contentLength := by
    rw [List.length_take, List.length_drop]
    omega
  obtain ⟨-, hfront, hfound⟩ := indicator_of_read hread hcheck hcontent
  have hheader := congrArg Indicator.headerLength hfound
  dsimp only at hheader
  have hindicator : framing.indicator ((bytes.drop found.headerLength).take found.contentLength) =
      bytes.take found.headerLength := by
    have htake := List.prefix_iff_eq_take.mp (hfront.trans hwindow)
    rwa [← hheader] at htake
  rw [encode, hindicator, ← List.take_add]
  exact List.take_prefix _ _

/-- Where no record stands, nothing is found. -/
theorem boundsAt?_error (hcap : bytes.length ≤ Bytes.capacity) (hlt : position < bytes.length)
    (hnone : ∀ content, ¬ framing.encode content <+: bytes.drop position) :
    ∃ cause, framing.boundsAt? position (⟨bytes⟩ : Memory) =
      .error (.malformed position cause) ⟨bytes⟩ := by
  have hmax := maxIndicator_le framing
  have hadd : Offset.add position framing.maxIndicator = position + framing.maxIndicator :=
    Bytes.offset_add_eq (by omega) (by unfold Bytes.capacity; omega)
  have hslice := Memory.slice_of_le (⟨bytes⟩ : Memory)
    (show position ≤ min bytes.length (position + framing.maxIndicator) by omega)
    (Nat.min_le_left _ _)
  have hwindow : bytes.slice position (min bytes.length (position + framing.maxIndicator)) <+:
      bytes.drop position := List.take_prefix _ _
  unfold boundsAt?
  rw [bind_ok (Memory.size_apply _)]
  simp only [hadd, if_apply]
  rw [if_neg (by omega), bind_ok hslice]
  dsimp only at hwindow ⊢
  generalize bytes.slice position (min bytes.length (position + framing.maxIndicator)) = window
    at hwindow ⊢
  rcases ofExcept_cases ⟨bytes⟩ position (framing.readIndicator window) with
    ⟨found, hread, hfound⟩ | ⟨cause, hcause⟩
  swap
  · exact ⟨cause, bind_error hcause⟩
  obtain ⟨hheader, -⟩ := header_of_read hread
  have hfits := hwindow.length_le
  rw [List.length_drop] at hfits
  have hstart : Offset.add position found.headerLength = position + found.headerLength :=
    Bytes.offset_add_eq (by omega) (by omega)
  rw [bind_ok hfound]
  simp only [hstart, if_apply]
  by_cases hpast : bytes.length < position + found.headerLength + found.contentLength
  · rw [if_pos hpast]
    exact ⟨_, rfl⟩
  rw [if_neg hpast]
  have hdrop : (bytes.drop position).drop found.headerLength =
      bytes.drop (position + found.headerLength) := List.drop_drop
  have hcontent : ((bytes.drop (position + found.headerLength)).take found.contentLength).length =
      found.contentLength := by
    rw [List.length_take, List.length_drop]
    omega
  have hcut : ∃ indicator : Bytes, indicator.length = found.headerLength ∧
      window = (indicator ++
        ((bytes.drop (position + found.headerLength)).take found.contentLength ++
          (bytes.drop (position + found.headerLength)).drop found.contentLength)).take
            window.length := by
    refine ⟨(bytes.drop position).take found.headerLength, ?_, ?_⟩
    · rw [List.length_take, List.length_drop]
      omega
    · rw [List.take_append_drop, ← hdrop, List.take_append_drop]
      exact List.prefix_iff_eq_take.mp hwindow
  have hfirst := firstByte?_apply hcap (List.take_append_drop found.contentLength _).symm hcut
  rw [hcontent] at hfirst
  rw [bind_ok hfirst]
  rcases ofExcept_cases ⟨bytes⟩ position (framing.checkContent window found
      ((bytes.drop (position + found.headerLength)).take found.contentLength).head?) with
    ⟨_, hcheck, -⟩ | ⟨cause, hcause⟩
  · rw [← hdrop] at hcheck
    have hlength : found.headerLength + found.contentLength ≤ (bytes.drop position).length := by
      rw [List.length_drop]
      omega
    exact absurd (encode_isPrefix_of_read hread hwindow hcheck hlength) (hnone _)
  · exact ⟨cause, bind_error hcause⟩

/-- **What looking at a position comes to.** At the end there is nothing; before it there is a record,
or bytes that are refused. The memory stays as it is. -/
theorem boundsAt?_cases (framing : Framing) (position : Nat)
    (hcap : bytes.length ≤ Bytes.capacity) :
    (bytes.length ≤ position ∧
      framing.boundsAt? position (⟨bytes⟩ : Memory) = .ok none ⟨bytes⟩) ∨
    (∃ content, framing.encode content <+: bytes.drop position ∧
      framing.boundsAt? position (⟨bytes⟩ : Memory) =
        .ok (some (framing.boundsOf position content)) ⟨bytes⟩) ∨
    (position < bytes.length ∧ (∀ content, ¬ framing.encode content <+: bytes.drop position) ∧
      ∃ cause, framing.boundsAt? position (⟨bytes⟩ : Memory) =
        .error (.malformed position cause) ⟨bytes⟩) := by
  rcases Nat.lt_or_ge position bytes.length with hlt | hge
  · by_cases hstands : ∃ content, framing.encode content <+: bytes.drop position
    · obtain ⟨content, hcontent⟩ := hstands
      exact .inr (.inl ⟨content, hcontent, boundsAt?_of_isPrefix hcap hcontent⟩)
    · have hnone : ∀ content, ¬ framing.encode content <+: bytes.drop position :=
        fun content hcontent => hstands ⟨content, hcontent⟩
      exact .inr (.inr ⟨hlt, hnone, boundsAt?_error hcap hlt hnone⟩)
  · exact .inl ⟨hge, boundsAt?_end hge⟩

end FramedStore.Framing
