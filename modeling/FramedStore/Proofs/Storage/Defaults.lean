import FramedStore.Proofs.Effect.Run
import FramedStore.Proofs.Storage.Memory
import FramedStore.Storage.Restricted

/-!
# Calls with their default definitions

A storage that has the required calls only, and gets the others from their definitions in terms of
these, does what a storage in memory does. Only the range that a refused insertion reports is
another one.
-/

namespace FramedStore

open Effect

namespace Storage

variable {σ α β : Type} [Storage σ]

/-! ### Insertions -/

/-- The default definition of an insertion. -/
def insertByDefault (position : Nat) (added : Bytes) : Effect σ Unit := do
  let size ← Storage.size
  checkRange position size size
  let tail ← Storage.slice position size
  Storage.set position (added ++ tail)

section Insert

variable {s t : σ} {content added : Bytes} {position : Nat}

theorem insertByDefault_ok (hposition : position ≤ content.length)
    (hsize : Storage.size s = .ok content.length s)
    (hslice : Storage.slice position content.length s = .ok (content.drop position) s)
    (hset : Storage.set position (added ++ content.drop position) s = .ok ⟨⟩ t) :
    insertByDefault position added s = .ok ⟨⟩ t := by
  unfold insertByDefault
  refine (bind_ok hsize).trans ?_
  rw [checkRange_bind, if_pos ⟨hposition, Nat.le_refl _⟩]
  exact (bind_ok hslice).trans hset

theorem insertByDefault_error (hposition : content.length < position)
    (hsize : Storage.size s = .ok content.length s) :
    insertByDefault position added s =
      .error (.outOfRange position content.length content.length) s := by
  unfold insertByDefault
  refine (bind_ok hsize).trans ?_
  rw [checkRange_bind, if_neg (fun h => Nat.not_le.mpr hposition h.1)]

end Insert

/-! ### Storages with the required calls only -/

/-- An outcome in memory as one of a storage whose states `hold` a memory. -/
def lift (hold : Memory → σ) : EStateM.Result Error Memory α → EStateM.Result Error σ α
  | .ok a memory => .ok a (hold memory)
  | .error e memory => .error e (hold memory)

/-- The required calls are made on the memory that a state holds, and all others are the default
ones. -/
structure RequiredOnly (hold : Memory → σ) : Prop where
  size_eq : ∀ memory, Storage.size (hold memory) = lift hold (Storage.size memory)
  slice_eq : ∀ start stop memory,
    Storage.slice start stop (hold memory) = lift hold (Storage.slice start stop memory)
  setAll_eq : ∀ content memory,
    Storage.setAll content (hold memory) = lift hold (Storage.setAll content memory)
  append_eq : ∀ added memory,
    Storage.append added (hold memory) = lift hold (Storage.append added memory)
  set_eq : ∀ start patch memory,
    Storage.set start patch (hold memory) = lift hold (Storage.set start patch memory)
  delete_eq : ∀ start stop memory,
    Storage.delete start stop (hold memory) = lift hold (Storage.delete start stop memory)
  getAll_eq : (Storage.getAll : Effect σ Bytes) = do Storage.slice 0 (← Storage.size)
  insert_eq : ∀ position added,
    (Storage.insert position added : Effect σ Unit) = insertByDefault position added
  clear_eq : (Storage.clear : Effect σ Unit) = Storage.setAll []
  sync_eq : (Storage.sync : Effect σ Unit) = pure ()
  close_eq : (Storage.close : Effect σ Unit) = pure ()

/-- The outcomes of a call are the same, but for the range that is out of range. -/
abbrev AgreeByDefault (hold : Memory → σ) (memory : Memory) :
    EStateM.Result Error σ α → EStateM.Result Error Memory α → Prop :=
  Effect.Agree (fun after memory => after = hold memory)
    (fun e after e' memory' => after = hold memory ∧ memory' = memory ∧
      (∃ start stop size, e = .outOfRange start stop size) ∧
      ∃ start stop size, e' = .outOfRange start stop size)

variable {hold : Memory → σ} {memory : Memory}

omit [Storage σ] in
theorem agreeByDefault_lift {outcome : EStateM.Result Error Memory α}
    (h : memory.MadeOrRefused outcome) :
    AgreeByDefault hold memory (lift hold outcome) outcome := by
  cases h with
  | made a after => exact .ok a rfl
  | refused start stop size => exact .error ⟨rfl, rfl, ⟨_, _, _, rfl⟩, ⟨_, _, _, rfl⟩⟩

omit [Storage σ] in
theorem lift_map {x : Effect σ α} {y : Effect Memory α} (g : α → β)
    (h : x (hold memory) = lift hold (y memory)) :
    (do return g (← x) : Effect σ β) (hold memory) =
      lift hold ((do return g (← y) : Effect Memory β) memory) := by
  rw [bind_apply, bind_apply, h]
  cases y memory <;> rfl

namespace RequiredOnly

variable (h : RequiredOnly hold)
include h

theorem getAll_apply (memory : Memory) :
    Storage.getAll (hold memory) = lift hold (Storage.getAll memory) := by
  have hslice := h.slice_eq 0 memory.content.length memory
  rw [memory.slice_of_le (Nat.zero_le _) (Nat.le_refl _), Bytes.slice_all] at hslice
  rw [h.getAll_eq]
  exact (bind_ok (h.size_eq memory)).trans hslice

/-- The tail that is read is written again behind the bytes that are put in. -/
theorem insert_agree (position : Nat) (added : Bytes) :
    AgreeByDefault hold memory (Storage.insert position added (hold memory))
      (Storage.insert position added memory) := by
  have hsize : Storage.size (hold memory) = .ok memory.content.length (hold memory) :=
    h.size_eq memory
  rw [h.insert_eq, Memory.insert_apply]
  by_cases hposition : position ≤ memory.content.length
  · have hslice := h.slice_eq position memory.content.length memory
    rw [memory.slice_of_le hposition (Nat.le_refl _), Bytes.slice_to_end] at hslice
    have hset := h.set_eq position (added ++ memory.content.drop position) memory
    rw [Memory.set_apply, if_pos hposition, Bytes.insertAt_eq_overwrite hposition] at hset
    rw [if_pos hposition, insertByDefault_ok hposition hsize hslice hset]
    exact .ok _ rfl
  · rw [if_neg hposition, insertByDefault_error (Nat.not_le.mp hposition) hsize]
    exact .error ⟨rfl, rfl, ⟨_, _, _, rfl⟩, ⟨_, _, _, rfl⟩⟩

/-- A call that is no insertion does just what it does in memory. -/
theorem perform_eq_lift {call : Call} (hcall : ∀ position added, call ≠ .insert position added)
    (memory : Memory) :
    perform call (hold memory) = lift hold (perform call memory) := by
  cases call with
  | size => exact lift_map _ (h.size_eq memory)
  | slice start stop => exact lift_map _ (h.slice_eq start stop memory)
  | getAll => exact lift_map _ (h.getAll_apply memory)
  | setAll content => exact lift_map _ (h.setAll_eq content memory)
  | append added => exact lift_map _ (h.append_eq added memory)
  | set start patch => exact lift_map _ (h.set_eq start patch memory)
  | delete start stop => exact lift_map _ (h.delete_eq start stop memory)
  | insert position added => exact absurd rfl (hcall position added)
  | clear =>
    refine lift_map _ ?_
    rw [h.clear_eq]
    exact h.setAll_eq [] memory
  | sync =>
    refine lift_map _ ?_
    rw [h.sync_eq]
    rfl
  | close =>
    refine lift_map _ ?_
    rw [h.close_eq]
    rfl

/-- **A call with its default definition does what it does in memory.** -/
theorem perform_agree (call : Call) (memory : Memory) :
    AgreeByDefault hold memory (perform call (hold memory)) (perform call memory) := by
  by_cases hinsert : ∃ position added, call = .insert position added
  · obtain ⟨position, added, rfl⟩ := hinsert
    exact (h.insert_agree position added).map _
  · rw [h.perform_eq_lift fun position added heq => hinsert ⟨position, added, heq⟩]
    exact agreeByDefault_lift (memory.perform_madeOrRefused call)

end RequiredOnly

end Storage

/-! ### The restricted storage -/

namespace Restricted

theorem onMemory_apply {α : Type} (x : Effect Memory α) (memory : Memory) :
    onMemory x { memory } = Storage.lift (fun memory => { memory }) (x memory) := by
  unfold onMemory
  rw [within_apply]
  cases x memory <;> rfl

/-- A storage that refuses nothing has the required calls only. -/
theorem requiredOnly : Storage.RequiredOnly fun memory => ({ memory } : Restricted) where
  size_eq := onMemory_apply Storage.size
  slice_eq start stop := onMemory_apply (Storage.slice start stop)
  setAll_eq content := onMemory_apply (Storage.setAll content)
  append_eq added := onMemory_apply (Storage.append added)
  set_eq start patch := onMemory_apply (Storage.set start patch)
  delete_eq start stop := onMemory_apply (Storage.delete start stop)
  getAll_eq := rfl
  insert_eq _ _ := rfl
  clear_eq := rfl
  sync_eq := rfl
  close_eq := rfl

end Restricted

end FramedStore
