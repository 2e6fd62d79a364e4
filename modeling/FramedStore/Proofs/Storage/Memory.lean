import FramedStore.Proofs.Bytes.Splice
import FramedStore.Proofs.Effect.Loop
import FramedStore.Storage.Call
import FramedStore.Storage.Memory

/-!
# Calls on a storage in memory

Each call is one operation on the content, or is refused for its range and changes nothing.
-/

namespace FramedStore

open Effect

theorem checkRange_bind {σ α : Type} (start stop size : Nat) (next : Unit → Effect σ α) (s : σ) :
    (checkRange start stop size >>= next) s =
      if start ≤ stop ∧ stop ≤ size then next () s
      else .error (.outOfRange start stop size) s := by
  by_cases h : start ≤ stop ∧ stop ≤ size <;> simp [checkRange, h]

namespace Memory

variable (memory : Memory) {start stop position : Nat}

theorem edit_apply (start stop : Nat) (change : Bytes → Bytes) :
    edit start stop change memory =
      if start ≤ stop ∧ stop ≤ memory.content.length then .ok () ⟨change memory.content⟩
      else .error (.outOfRange start stop memory.content.length) memory := by
  simp only [edit, bind_apply memory get, get_apply, checkRange_bind]
  rfl

@[simp] theorem size_apply : (Storage.size : Effect Memory Nat) memory =
    .ok memory.content.length memory := rfl

theorem slice_apply (start stop : Nat) : Storage.slice start stop memory =
    if start ≤ stop ∧ stop ≤ memory.content.length then .ok (memory.content.slice start stop) memory
    else .error (.outOfRange start stop memory.content.length) memory := by
  simp only [Storage.slice, bind_apply memory get, get_apply, checkRange_bind]
  rfl

theorem slice_of_le (h1 : start ≤ stop) (h2 : stop ≤ memory.content.length) :
    Storage.slice start stop memory = .ok (memory.content.slice start stop) memory := by
  rw [slice_apply, if_pos ⟨h1, h2⟩]

/-- To read does not change the memory. -/
theorem after_slice {found : Bytes} {after : Memory}
    (h : Storage.slice start stop memory = .ok found after) : after = memory := by
  rw [slice_apply] at h
  split at h
  · exact (EStateM.Result.ok.inj h).2.symm
  · cases h

@[simp] theorem setAll_apply (content : Bytes) :
    Storage.setAll content memory = .ok ⟨⟩ ⟨content⟩ := rfl

@[simp] theorem append_apply (added : Bytes) :
    Storage.append added memory = .ok ⟨⟩ ⟨memory.content ++ added⟩ := rfl

theorem set_apply (start : Nat) (patch : Bytes) : Storage.set start patch memory =
    if start ≤ memory.content.length then .ok ⟨⟩ ⟨memory.content.overwrite start patch⟩
    else .error (.outOfRange start start memory.content.length) memory := by
  rw [show Storage.set start patch memory = edit start start (·.overwrite start patch) memory
    from rfl, edit_apply]
  simp

theorem delete_apply (start stop : Nat) : Storage.delete start stop memory =
    if start ≤ stop ∧ stop ≤ memory.content.length then .ok ⟨⟩ ⟨memory.content.remove start stop⟩
    else .error (.outOfRange start stop memory.content.length) memory :=
  edit_apply memory start stop _

theorem insert_apply (position : Nat) (added : Bytes) : Storage.insert position added memory =
    if position ≤ memory.content.length then .ok ⟨⟩ ⟨memory.content.insertAt position added⟩
    else .error (.outOfRange position position memory.content.length) memory := by
  rw [show Storage.insert position added memory =
    edit position position (·.insertAt position added) memory from rfl, edit_apply]
  simp

@[simp] theorem getAll_apply : Storage.getAll memory = .ok memory.content memory := rfl

@[simp] theorem clear_apply : Storage.clear memory = .ok ⟨⟩ (⟨[]⟩ : Memory) := rfl

@[simp] theorem sync_apply : Storage.sync memory = .ok ⟨⟩ memory := rfl

/-- The outcome of a call in memory: it is made, or refused for its range. -/
inductive MadeOrRefused {α : Type} : EStateM.Result Error Memory α → Prop
  | made (a : α) (after : Memory) : MadeOrRefused (.ok a after)
  | refused (start stop size : Nat) : MadeOrRefused (.error (.outOfRange start stop size) memory)

namespace MadeOrRefused

variable {memory} {α β : Type}

theorem map {x : Effect Memory α} (g : α → β) (h : MadeOrRefused memory (x memory)) :
    MadeOrRefused memory ((do return g (← x) : Effect Memory β) memory) := by
  rw [bind_apply]
  generalize x memory = outcome at h
  cases h with
  | made a after => exact .made (g a) after
  | refused start stop size => exact .refused start stop size

theorem ite {c : Prop} [Decidable c] (a : α) (after : Memory) (start stop size : Nat) :
    MadeOrRefused memory
      (if c then .ok a after else .error (.outOfRange start stop size) memory) := by
  split
  · exact .made a after
  · exact .refused start stop size

end MadeOrRefused

theorem perform_madeOrRefused (call : Storage.Call) :
    MadeOrRefused memory (Storage.perform call memory) := by
  cases call with
  | slice start stop =>
    refine .map _ ?_
    rw [slice_apply]
    exact .ite _ _ _ _ _
  | set start patch =>
    refine .map _ ?_
    rw [set_apply]
    exact .ite _ _ _ _ _
  | delete start stop =>
    refine .map _ ?_
    rw [delete_apply]
    exact .ite _ _ _ _ _
  | insert position added =>
    refine .map _ ?_
    rw [insert_apply]
    exact .ite _ _ _ _ _
  | size => exact .made _ _
  | getAll => exact .made _ _
  | setAll content => exact .made _ _
  | append added => exact .made _ _
  | clear => exact .made _ _
  | sync => exact .made _ _
  | close => exact .made _ _

end Memory

end FramedStore
