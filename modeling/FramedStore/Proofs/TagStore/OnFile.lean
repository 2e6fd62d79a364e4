import FramedStore.Proofs.Storage.File
import FramedStore.Proofs.TagStore.Alike

/-!
# Tag stores in an open file

The calls of a tag store on an open file have the outcomes that they have on a memory with its bytes,
as long as the blocks of the file can be moved about. This holds of every relation between files and
memories that a change of the bytes does not touch (`Mirrors`).
-/

namespace FramedStore.File

open Effect

/-- A relation between open files and memories with their bytes that is kept where both get other
bytes. -/
structure Mirrors (R : File → Memory → Prop) : Prop where
  ready : ∀ {file memory}, R file memory → file.Ready
  content_eq : ∀ {file memory}, R file memory → file.content = memory.content
  holding : ∀ {file memory} (content : Bytes), R file memory → R (file.holding content) ⟨content⟩

namespace Mirrors

variable {R : File → Memory → Prop} (hR : Mirrors R)
include hR

/-- The calls that add no bytes have the same outcome in an open file and in memory. -/
theorem alikeCut : Storage.AlikeCut fun (file : File) (memory : Memory) =>
    R file memory ∧ memory.content.length < Offset.range where
  size file memory h := by
    have hsize : Storage.size file = .ok file.handle.size file := rfl
    rw [hsize, (hR.ready h.1).size_eq, hR.content_eq h.1, Memory.size_apply]
    exact .ok _ h
  slice start stop file memory h := by
    rw [slice_apply (hR.ready h.1), Memory.slice_apply, hR.content_eq h.1]
    by_cases hrange : start ≤ stop ∧ stop ≤ memory.content.length
    · rw [if_pos hrange, if_pos hrange]
      exact .ok _ h
    · rw [if_neg hrange, if_neg hrange]
      exact .error ⟨rfl, h⟩
  delete start stop file memory h := by
    -- the blocks behind the gap are moved in fewer rounds than there are positions
    have hlt : file.content.length < Offset.range := hR.content_eq h.1 ▸ h.2
    rw [delete_apply (hR.ready h.1) hlt, Memory.delete_apply, hR.content_eq h.1]
    by_cases hrange : start ≤ stop ∧ stop ≤ memory.content.length
    · rw [if_pos hrange, if_pos hrange]
      by_cases hempty : start = stop
      · rw [if_pos hempty, hempty, Bytes.remove_self]
        exact .ok _ h
      · rw [if_neg hempty]
        refine .ok _ ⟨hR.holding _ h.1, Nat.lt_of_le_of_lt ?_ h.2⟩
        rw [Bytes.length_remove hrange.1 hrange.2]
        exact Nat.sub_le _ _
    · rw [if_neg hrange, if_neg hrange]
      exact .error ⟨rfl, h⟩
  clear file memory h := by
    have hclear : Storage.clear file = Storage.setAll [] file := rfl
    rw [hclear, setAll_apply (hR.ready h.1), Memory.clear_apply]
    exact .ok _ ⟨hR.holding [] h.1, by decide⟩

theorem leads_append (added : Bytes) :
    Leads (fun (file : File) (memory : Memory) =>
        R file memory ∧ memory.content.length < Offset.range)
      R (Storage.append added) (Storage.append added) := by
  intro file memory h
  rw [append_apply (hR.ready h.1), Memory.append_apply, hR.content_eq h.1]
  exact .ok _ (hR.holding _ h.1)

end Mirrors

/-! ### The file at a path -/

/-- The file at a written path is open, and holds the bytes of a memory. -/
structure Stores (written : String) (file : File) (memory : Memory) : Prop where
  ready : file.Ready
  written_eq : file.handle.written = written
  content_eq : file.content = memory.content

theorem mirrors_stores (written : String) : Mirrors (Stores written) where
  ready := Stores.ready
  content_eq := Stores.content_eq
  holding content h :=
    ⟨h.ready.holding content, h.written_eq, h.ready.content_holding content⟩

/-- The bytes are found on the disk. -/
theorem Stores.read? {written : String} {file : File} {memory : Memory}
    (h : Stores written file memory) :
    file.disk.read? (Path.ofString written) = some memory.content := by
  have hfile := h.ready.placed.isFile
  rw [h.written_eq, Disk.isFile, Option.isSome_iff_exists] at hfile
  obtain ⟨content, hcontent⟩ := hfile
  rw [hcontent, ← h.content_eq, File.content, h.ready.path_eq, h.written_eq, hcontent]
  rfl

end FramedStore.File
