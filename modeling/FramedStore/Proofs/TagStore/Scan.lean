import FramedStore.Proofs.TagStore.Layout

/-!
# Scans over entries in memory

What the scans for all entries, all tags and their number give. Each goes through the entries at the
front of a memory and on behind them, whatever stands there (`entries_behind`, `tags_behind`,
`size_behind`), by an induction on the entries that are still ahead.
-/

namespace FramedStore.TagStore

open Effect

variable {framing : Framing} {bytes : Bytes} {position : Nat}

/-- A scan that collects one item from each entry. -/
theorem iterate_collect {α : Type} {item : Entry → α}
    {step : Nat × List α → Effect Memory (Round (Nat × List α) (List α))}
    (hstep : ∀ position found entry, encodePair framing entry.1 entry.2 <+: bytes.drop position →
      step (position, found) ⟨bytes⟩ =
        .ok (.again ((pairOf framing position entry).stop, item entry :: found)) ⟨bytes⟩)
    {entries : List Entry} (found : List α) {rest : Bytes}
    (h : bytes.drop position = encodeEntries framing entries ++ rest) (rounds : Nat) :
    iterate step (rounds + entries.length) (position, found) (⟨bytes⟩ : Memory) =
      iterate step rounds (position + (encodeEntries framing entries).length,
        (entries.map item).reverse ++ found) ⟨bytes⟩ := by
  induction entries generalizing position found with
  | nil => rfl
  | cons entry entries ih =>
    rw [encodeEntries_cons, List.append_assoc] at h
    rw [List.length_cons, ← Nat.add_assoc, iterate_again (hstep _ _ entry ⟨_, h.symm⟩), pairOf_stop,
      ih _ (Bytes.drop_behind h), encodeEntries_cons, List.length_append, Nat.add_assoc, List.map_cons,
      List.reverse_cons, List.append_assoc, List.singleton_append]

variable (hcap : bytes.length ≤ Bytes.capacity)
include hcap

/-- The records of an entry are counted in two rounds. -/
theorem iterate_sizeRound {entries : List Entry} {rest : Bytes} (pairs : Nat)
    (h : bytes.drop position = encodeEntries framing entries ++ rest) (rounds : Nat) :
    iterate (sizeRound framing) (rounds + 2 * entries.length) (position, 2 * pairs)
        (⟨bytes⟩ : Memory) =
      iterate (sizeRound framing) rounds (position + (encodeEntries framing entries).length,
        2 * (pairs + entries.length)) ⟨bytes⟩ := by
  induction entries generalizing position pairs with
  | nil => rfl
  | cons entry entries ih =>
    rw [encodeEntries_cons, List.append_assoc] at h
    have hpair : encodePair framing entry.1 entry.2 <+: bytes.drop position := ⟨_, h.symm⟩
    have htag : sizeRound framing (position, 2 * pairs) (⟨bytes⟩ : Memory) =
        .ok (.again ((pairOf framing position entry).tag.stop, 2 * pairs + 1)) ⟨bytes⟩ :=
      (bind_ok (Framing.boundsAt?_of_isPrefix hcap (tag_isPrefix hpair))).trans rfl
    have hvalue : sizeRound framing ((pairOf framing position entry).tag.stop, 2 * pairs + 1)
        (⟨bytes⟩ : Memory) =
        .ok (.again ((pairOf framing position entry).stop, 2 * (pairs + 1))) ⟨bytes⟩ :=
      (bind_ok (Framing.boundsAt?_of_isPrefix hcap (value_isPrefix hpair))).trans rfl
    rw [List.length_cons, Nat.mul_add_one, ← Nat.add_assoc, iterate_again htag,
      iterate_again hvalue, pairOf_stop, ih (pairs + 1) (Bytes.drop_behind h), encodeEntries_cons,
      List.length_append, Nat.add_assoc position, Nat.add_right_comm pairs 1, Nat.add_assoc pairs]

section Behind

variable {stored : List Entry} {rest : Bytes} (h : bytes = encodeEntries framing stored ++ rest)
include h

/-- There are more rounds than the records of the entries need. -/
theorem exists_rounds : ∃ rounds, Offset.range = rounds + 2 + 2 * stored.length := by
  have htwo := two_mul_length_le framing stored
  have hcap' := hcap
  rw [h, List.length_append] at hcap'
  unfold Bytes.capacity at hcap'
  exact ⟨Offset.range - 2 - 2 * stored.length, by unfold Offset.range; omega⟩

theorem scan_collect {α : Type} (item : Entry → α)
    {step : Nat × List α → Effect Memory (Round (Nat × List α) (List α))}
    (hstep : ∀ position found entry, encodePair framing entry.1 entry.2 <+: bytes.drop position →
      step (position, found) ⟨bytes⟩ =
        .ok (.again ((pairOf framing position entry).stop, item entry :: found)) ⟨bytes⟩) :
    ∃ rounds, scan step (0, []) (⟨bytes⟩ : Memory) =
      iterate step (rounds + 1) ((encodeEntries framing stored).length, (stored.map item).reverse)
        ⟨bytes⟩ := by
  obtain ⟨rounds, hrounds⟩ := exists_rounds hcap h
  have hcollect := iterate_collect hstep [] (List.drop_zero.trans h)
    (rounds + 1 + stored.length + 1)
  rw [Nat.zero_add, List.append_nil] at hcollect
  refine ⟨_, Eq.trans ?_ hcollect⟩
  unfold scan
  congr 1
  omega

theorem entries_behind : ∃ rounds, entries framing (⟨bytes⟩ : Memory) =
    iterate (entriesRound framing) (rounds + 1)
      ((encodeEntries framing stored).length, stored.reverse) ⟨bytes⟩ := by
  have hround : ∀ position found entry,
      encodePair framing entry.1 entry.2 <+: bytes.drop position →
        entriesRound framing (position, found) (⟨bytes⟩ : Memory) =
          .ok (.again ((pairOf framing position entry).stop, id entry :: found)) ⟨bytes⟩ :=
    fun _ _ _ hpair => (bind_ok (pairAt?_of_isPrefix hcap hpair)).trans
      ((bind_ok (readPair_pairOf hpair)).trans rfl)
  have hscan := scan_collect hcap h id hround
  rw [List.map_id] at hscan
  exact hscan

theorem tags_behind : ∃ rounds, tags framing (⟨bytes⟩ : Memory) =
    iterate (tagsRound framing) (rounds + 1)
      ((encodeEntries framing stored).length, (stored.map (·.1)).reverse) ⟨bytes⟩ :=
  scan_collect hcap h _ fun _ _ _ hpair =>
    (bind_ok (pairAt?_of_isPrefix hcap hpair)).trans ((bind_ok (readTag_pairOf hpair)).trans rfl)

theorem size_behind : ∃ rounds, size framing (⟨bytes⟩ : Memory) =
    iterate (sizeRound framing) (rounds + 2)
      ((encodeEntries framing stored).length, 2 * stored.length) ⟨bytes⟩ := by
  obtain ⟨rounds, hrounds⟩ := exists_rounds hcap h
  have hsize := iterate_sizeRound hcap 0 (List.drop_zero.trans h) (rounds + 2)
  rw [← hrounds, Nat.zero_add, Nat.zero_add] at hsize
  exact ⟨rounds, hsize⟩

end Behind

section Apply

variable {stored : List Entry} (h : bytes.drop 0 = encodeEntries framing stored)
include h

omit hcap in
theorem eq_of_drop_zero : bytes = encodeEntries framing stored ++ [] := by
  rw [List.append_nil, ← h, List.drop_zero]

omit hcap in
theorem length_le_of_drop_zero :
    (⟨bytes⟩ : Memory).content.length ≤ (encodeEntries framing stored).length := by
  rw [← h, List.drop_zero]

/-- All entries are found, in their order. -/
theorem entries_apply : entries framing (⟨bytes⟩ : Memory) = .ok stored ⟨bytes⟩ := by
  obtain ⟨rounds, hentries⟩ := entries_behind hcap (eq_of_drop_zero h)
  rw [hentries, iterate_done ((bind_ok (pairAt?_end (length_le_of_drop_zero h))).trans rfl),
    List.reverse_reverse]

/-- All tags are found, in the order of the entries. -/
theorem tags_apply : tags framing (⟨bytes⟩ : Memory) = .ok (stored.map (·.1)) ⟨bytes⟩ := by
  obtain ⟨rounds, htags⟩ := tags_behind hcap (eq_of_drop_zero h)
  rw [htags, iterate_done ((bind_ok (pairAt?_end (length_le_of_drop_zero h))).trans rfl),
    List.reverse_reverse]

/-- The entries are counted. -/
theorem size_apply : size framing (⟨bytes⟩ : Memory) = .ok stored.length ⟨bytes⟩ := by
  obtain ⟨rounds, hsize⟩ := size_behind hcap (eq_of_drop_zero h)
  rw [hsize]
  refine iterate_done ((bind_ok (Framing.boundsAt?_end (length_le_of_drop_zero h))).trans ?_)
  simp

end Apply

end FramedStore.TagStore
