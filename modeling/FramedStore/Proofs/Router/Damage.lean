import Mathlib
import FramedStore.Proofs.Router.Composite

/-!
# Changes that fail

A put removes the old pairs while it scans, and the removal of a namespace removes entries while it
walks. Where they meet bytes that are no record they fail, and what they have removed so far is gone
(`failed_put_removes`), but nothing else is changed (`failed_change_keeps_rest`).
-/

namespace FramedStore.TagStore

open Effect Walk

variable {framing : Framing}

/-- A put that fails meets bytes that are no pair. It has removed the pairs under its tag in front of
them, and nothing else; the values under other tags are found as before. -/
theorem put_error {tag : String} {value : Bytes} {memory after : Memory} {e : Error}
    (hcap : memory.content.length ≤ Bytes.capacity)
    (h : put framing tag value memory = .error e after) :
    ∃ pairs rest, memory.content = encodeRaws framing pairs ++ rest ∧
      NoPair framing rest ∧ rest ≠ [] ∧
      after.content = encodeRaws framing (without tag pairs) ++ rest ∧
      ∀ other found, other ≠ tag → get? framing other memory = .ok (some found) memory →
        get? framing other after = .ok (some found) after := by
  obtain ⟨bytes⟩ := memory
  obtain ⟨pairs, rest, rfl, hrest⟩ := exists_split framing bytes
  have hleaves := eraseAll_raw tag hrest hcap
  unfold put at h
  rw [bind_apply] at h
  rcases herase : eraseAll framing tag (⟨encodeRaws framing pairs ++ rest⟩ : Memory) with
    ⟨removed, left⟩ | ⟨e', left⟩
  · rw [herase] at h
    cases h
  rw [herase] at h hleaves
  obtain ⟨hne, rfl⟩ := hleaves
  cases h
  refine ⟨pairs, rest, rfl, hrest, hne, rfl, ?_⟩
  intro other found hother hget
  have hless := length_encodeRaws_without_le framing tag pairs
  have hcap' : (encodeRaws framing (without tag pairs) ++ rest).length ≤ Bytes.capacity := by
    simp only [List.length_append] at hcap ⊢
    omega
  rw [get?_eq_some hrest hcap] at hget
  rw [get?_eq_some hrest hcap', firstValue_without hother]
  exact ⟨hget.1, rfl⟩

/-- The removal of a namespace that fails meets bytes that are no entry. It has removed the entries of
the namespace in front of them, and nothing else. -/
theorem clearSuper_error {super : String} {memory after : Memory} {e : Error}
    (hcap : memory.content.length ≤ Bytes.capacity)
    (h : Composite.clearSuper framing super memory = .error e after) :
    ∃ entries rest, memory.content = encodeEntries framing entries ++ rest ∧
      NoEntry framing rest ∧ rest ≠ [] ∧
      after.content = encodeEntries framing (kept (Composite.belongs super) entries) ++ rest := by
  obtain ⟨bytes⟩ := memory
  obtain ⟨entries, rest, rfl, hrest⟩ := exists_entries framing bytes
  have houtcome := Composite.clearSuper_outcome super hrest hcap
  rw [h] at houtcome
  obtain ⟨hne, rfl⟩ := houtcome
  exact ⟨entries, rest, rfl, hrest, hne, rfl⟩

/-- A put that fails has lost the value that it was to replace, and a namespace that could not be
removed has lost an entry. -/
theorem failed_put_removes :
    (get? .byte "a" (⟨[1, 97, 1, 1, 5]⟩ : Memory) = .ok (some [1]) ⟨[1, 97, 1, 1, 5]⟩ ∧
      put .byte "a" [2] (⟨[1, 97, 1, 1, 5]⟩ : Memory) =
        .error (.malformed 0 (.pastStorage 5 1)) ⟨[5]⟩ ∧
      get? .byte "a" (⟨[5]⟩ : Memory) = .error (.malformed 0 (.pastStorage 5 1)) ⟨[5]⟩) ∧
    Composite.clearSuper .byte "" (⟨[2, 48, 97, 0, 5]⟩ : Memory) =
      .error (.malformed 0 (.pastStorage 5 1)) ⟨[5]⟩ := by
  refine ⟨⟨?_, ?_, ?_⟩, ?_⟩
  · cbv
  · cbv
  · cbv
  · cbv

/-- **A change that fails removes what it was to remove in front of the damage, and nothing else.** -/
theorem failed_change_keeps_rest (framing : Framing) (memory after : Memory) (e : Error)
    (hcap : memory.content.length ≤ Bytes.capacity) :
    (∀ tag value, put framing tag value memory = .error e after →
      ∃ pairs rest, memory.content = encodeRaws framing pairs ++ rest ∧
        NoPair framing rest ∧ rest ≠ [] ∧
        after.content = encodeRaws framing (without tag pairs) ++ rest ∧
        ∀ other found, other ≠ tag → get? framing other memory = .ok (some found) memory →
          get? framing other after = .ok (some found) after) ∧
    ∀ super, Composite.clearSuper framing super memory = .error e after →
      ∃ entries rest, memory.content = encodeEntries framing entries ++ rest ∧
        NoEntry framing rest ∧ rest ≠ [] ∧
        after.content = encodeEntries framing (kept (Composite.belongs super) entries) ++ rest := by
  constructor
  · intro tag value h
    exact put_error hcap h
  · intro super h
    exact clearSuper_error hcap h

/-- The value under another tag is found after the failure. -/
theorem failed_change_keeps_rest_between :
    put .byte "a" [2] (⟨[1, 97, 1, 1, 1, 98, 1, 7, 5]⟩ : Memory) =
      .error (.malformed 4 (.pastStorage 5 5)) ⟨[1, 98, 1, 7, 5]⟩ ∧
    ∃ pairs rest, ([1, 97, 1, 1, 1, 98, 1, 7, 5] : Bytes) = encodeRaws .byte pairs ++ rest ∧
      NoPair .byte rest ∧ rest ≠ [] ∧
      ([1, 98, 1, 7, 5] : Bytes) = encodeRaws .byte (without "a" pairs) ++ rest ∧
      ∀ other found, other ≠ "a" →
        get? .byte other (⟨[1, 97, 1, 1, 1, 98, 1, 7, 5]⟩ : Memory) =
          .ok (some found) ⟨[1, 97, 1, 1, 1, 98, 1, 7, 5]⟩ →
        get? .byte other (⟨[1, 98, 1, 7, 5]⟩ : Memory) = .ok (some found) ⟨[1, 98, 1, 7, 5]⟩ := by
  have hput : put .byte "a" [2] (⟨[1, 97, 1, 1, 1, 98, 1, 7, 5]⟩ : Memory) =
      .error (.malformed 4 (.pastStorage 5 5)) ⟨[1, 98, 1, 7, 5]⟩ := by cbv
  have hcap : ([1, 97, 1, 1, 1, 98, 1, 7, 5] : Bytes).length ≤ Bytes.capacity := by decide
  exact ⟨hput, (failed_change_keeps_rest .byte _ _ _ hcap).1 "a" [2] hput⟩

end FramedStore.TagStore
