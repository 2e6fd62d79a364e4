import FramedStore.Proofs.Storage.File

/-!
# Storages that keep what is added

What a program relies on that only adds to a storage and reads it back: `Storage.Lawful`. Memory and
files keep these laws.
-/

namespace FramedStore

open Effect

/-- The states of a storage that hold a byte string: they give its length and its slices, which they
hold still, and take more bytes behind it. -/
structure Storage.Lawful {σ : Type} [Storage σ] (holds : σ → Bytes → Prop) : Prop where
  size {s : σ} {bytes : Bytes} (h : holds s bytes) :
    ∃ t, holds t bytes ∧ (Storage.size : Effect σ Nat) s = .ok bytes.length t
  slice {s : σ} {bytes : Bytes} (h : holds s bytes) {start stop : Nat} (hstart : start ≤ stop)
    (hstop : stop ≤ bytes.length) :
    ∃ t, holds t bytes ∧ Storage.slice start stop s = .ok (bytes.slice start stop) t
  append {s : σ} {bytes : Bytes} (h : holds s bytes) (added : Bytes) :
    ∃ t, holds t (bytes ++ added) ∧ Storage.append added s = .ok ⟨⟩ t

theorem Memory.lawful : Storage.Lawful fun (memory : Memory) bytes => memory.content = bytes where
  size := by
    rintro memory _ rfl
    exact ⟨memory, rfl, Memory.size_apply memory⟩
  slice := by
    rintro memory _ rfl start stop hstart hstop
    exact ⟨memory, rfl, Memory.slice_of_le memory hstart hstop⟩
  append := by
    rintro memory _ rfl added
    exact ⟨_, rfl, Memory.append_apply memory added⟩

namespace File

/-- What memory does with the bytes of a file, the file does too. -/
theorem ok_of_agree {α : Type} {x : Effect File α} {y : Effect Memory α} {file : File} {a : α}
    {content : Bytes} (h : Agree file (x file) (y ⟨file.content⟩))
    (hy : y ⟨file.content⟩ = .ok a ⟨content⟩) :
    ∃ after, (Ready after ∧ after.content = content) ∧ x file = .ok a after := by
  rw [hy] at h
  generalize x file = outcome at h
  cases h with
  | ok a h => exact ⟨_, ⟨h.1, (Memory.mk.inj h.2).symm⟩, rfl⟩

theorem lawful : Storage.Lawful fun file bytes => Ready file ∧ file.content = bytes where
  size := by
    rintro file _ ⟨h, rfl⟩
    exact ok_of_agree (size_agree h) (Memory.size_apply _)
  slice := by
    rintro file _ ⟨h, rfl⟩ start stop hstart hstop
    exact ok_of_agree (slice_agree h start stop) (Memory.slice_of_le _ hstart hstop)
  append := by
    rintro file _ ⟨h, rfl⟩ added
    exact ok_of_agree (append_agree h added) (Memory.append_apply _ added)

end File

end FramedStore
