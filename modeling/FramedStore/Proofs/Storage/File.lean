import FramedStore.Proofs.Bytes.Move
import FramedStore.Proofs.Disk
import FramedStore.Proofs.Effect.Run
import FramedStore.Proofs.Storage.Memory
import FramedStore.Storage.Call
import FramedStore.Storage.File

/-!
# Calls on an open file

What each call on an open file comes to: the file holds other bytes and a note of their number
(`holding`), or the call is refused for its range and the file is as it was.
-/

namespace FramedStore.File

open Effect

/-- The file with other bytes. -/
def put (file : File) (content : Bytes) : File :=
  { file with disk := file.disk.put file.handle.path (.file content) }

/-- The file with another note of its length. -/
def noted (file : File) (size : Nat) : File := { file with handle := { file.handle with size } }

/-- The file with other bytes and a note of their number. -/
def holding (file : File) (content : Bytes) : File := (file.put content).noted content.length

variable {file moved : File} {start stop position count : Nat} {content patch : Bytes}

theorem put_put (file : File) (content content' : Bytes) :
    (file.put content).put content' = file.put content' := by
  unfold put
  rw [Disk.put_put]

theorem content_put (h : file.handle.path ≠ []) (content : Bytes) :
    (file.put content).content = content := by
  unfold File.content put
  rw [Disk.read?_put_self h]
  rfl

theorem put_noted (file : File) (content : Bytes) (size : Nat) :
    (file.noted size).put content = (file.put content).noted size := rfl

theorem noted_noted (file : File) (size size' : Nat) :
    (file.noted size).noted size' = file.noted size' := rfl

theorem content_noted (file : File) (size : Nat) : (file.noted size).content = file.content := rfl

/-! ### Positioned access -/

section Access

variable (hopen : file.handle.isOpen = true)
include hopen

theorem bytes_apply : bytes file = .ok file.content file := by
  unfold bytes
  simp [hopen]

theorem alter_apply (change : Bytes → Bytes) :
    alter change file = .ok ⟨⟩ (file.put (change file.content)) :=
  (bind_ok (bytes_apply hopen)).trans rfl

theorem readAt_apply (h : position + count ≤ file.content.length) :
    readAt position count file = .ok (file.content.slice position (position + count)) file := by
  have hlength : (file.content.slice position (position + count)).length =
      position + count - position := Bytes.length_slice h
  unfold readAt
  refine (bind_ok (bytes_apply hopen)).trans ?_
  simp [hlength]

theorem writeAt_apply (h : patch ≠ [] ∨ position ≤ file.content.length) :
    writeAt position patch file = .ok ⟨⟩ (file.put (file.content.overwrite position patch)) := by
  refine (alter_apply hopen _).trans ?_
  split
  · rename_i hempty
    obtain rfl := List.isEmpty_iff.mp hempty
    rcases h with h | h
    · exact absurd rfl h
    · rw [Bytes.overwrite_nil h]
  · rfl

theorem setLength_apply (length : Nat) :
    setLength length file = .ok ⟨⟩ ((file.put (file.content.resize length)).noted length) :=
  (bind_ok (alter_apply hopen _)).trans rfl

theorem flush_apply : flush file = .ok ⟨⟩ file :=
  (bind_ok (bytes_apply hopen)).trans rfl

theorem afterWrite_apply : afterWrite file = .ok ⟨⟩ file := by
  unfold afterWrite
  refine (bind_ok (get_apply file)).trans ?_
  rw [if_apply, flush_apply hopen]
  split <;> rfl

/-- The end of a change: the bytes that are in the file by then are counted. -/
theorem noteSize_afterWrite (size : Nat) :
    (do noteSize size; afterWrite : Effect File Unit) file = .ok ⟨⟩ (file.noted size) :=
  (bind_ok rfl).trans (afterWrite_apply hopen)

end Access

/-! ### Moving the tail -/

/-- `moved` is `file` with other bytes. -/
def Rewrites (file moved : File) : Prop := ∀ content, moved.put content = file.put content

namespace Rewrites

theorem refl (file : File) : Rewrites file file := fun _ => rfl

theorem put (h : Rewrites file moved) (content : Bytes) : Rewrites file (moved.put content) := by
  intro content'
  rw [put_put]
  exact h content'

theorem handle_eq (h : Rewrites file moved) : moved.handle = file.handle := by
  have hhandle : (moved.put []).handle = (file.put []).handle := by rw [h []]
  exact hhandle

end Rewrites

theorem moveLeft_end {gap : Nat} (h : file.handle.size ≤ position) :
    moveLeft gap position file = .ok (.done ()) file := by
  unfold moveLeft
  refine (bind_ok (get_apply file)).trans ?_
  rw [if_apply, if_pos h, pure_apply]

theorem moveRight_end {gap : Nat} (h : position ≤ start) :
    moveRight start gap position file = .ok (.done ()) file := by
  unfold moveRight
  rw [if_apply, if_pos h, pure_apply]

section Block

variable {gap : Nat} (hopen : file.handle.isOpen = true)
include hopen

theorem moveLeft_block (hsize : file.handle.size = file.content.length)
    (hposition : position < file.content.length)
    (hcount : count = min blockSize (file.content.length - position)) :
    moveLeft gap position file = .ok (.again (position + count))
      (file.put (file.content.overwrite (position - gap)
        (file.content.slice position (position + count)))) := by
  have hread : position + count ≤ file.content.length := by omega
  have hwrite : position - gap ≤ file.content.length := by omega
  unfold moveLeft
  refine (bind_ok (get_apply file)).trans ?_
  simp only [hsize, ← hcount]
  rw [if_apply, if_neg (by omega)]
  refine (bind_ok (readAt_apply hopen hread)).trans ?_
  exact (bind_ok (writeAt_apply hopen (.inr hwrite))).trans rfl

theorem moveRight_block (hposition : position ≤ file.content.length) (hstart : start < position)
    (hcount : count = min blockSize (position - start)) :
    moveRight start gap position file = .ok (.again (position - count))
      (file.put (file.content.overwrite (position - count + gap)
        (file.content.slice (position - count) position))) := by
  have hpos : 0 < count := by
    rw [hcount]
    exact Nat.lt_min.mpr ⟨by decide, by omega⟩
  have hend : position - count + count = position := Nat.sub_add_cancel (by omega)
  have hblock : file.content.slice (position - count) position ≠ [] := by
    rw [← List.length_pos_iff, Bytes.length_slice hposition]
    omega
  have hread := readAt_apply hopen (Nat.le_trans (Nat.le_of_eq hend) hposition)
  rw [hend] at hread
  unfold moveRight
  rw [if_apply, if_neg (by omega)]
  simp only [← hcount]
  refine (bind_ok hread).trans ?_
  exact (bind_ok (writeAt_apply hopen (.inl hblock))).trans rfl

end Block

section Move

variable (hopen : file.handle.isOpen = true) (hpath : file.handle.path ≠ [])
  (hlt : file.content.length < Offset.range)
include hopen hpath hlt

/-- The tail behind `stop` is moved to `start`. -/
theorem scan_moveLeft (hsize : file.handle.size = file.content.length) (hstart : start ≤ stop)
    (hstop : stop ≤ file.content.length) :
    ∃ moved, scan (moveLeft (stop - start)) stop file = .ok ⟨⟩ moved ∧ Rewrites file moved ∧
      file.content.MovedLeft start stop file.content.length moved.content := by
  refine scan_spec
    (fun position moved => stop ≤ position ∧ position ≤ file.content.length ∧
      Rewrites file moved ∧ file.content.MovedLeft start stop position moved.content)
    (fun position _ => file.content.length - position)
    (fun outcome => ∃ moved, outcome = .ok () moved ∧ Rewrites file moved ∧
      file.content.MovedLeft start stop file.content.length moved.content)
    ?_ ⟨Nat.le_refl _, hstop, .refl file, .init hstart⟩ (by omega)
  rintro position moved ⟨hle, hlength, hrewrites, hmoved⟩
  have hhandle := hrewrites.handle_eq
  have hnote : moved.handle.size = moved.content.length := by
    rw [hhandle, hsize, hmoved.length_eq]
  rcases Nat.lt_or_ge position moved.content.length with hmore | hend
  · -- the block that is read has not been written over yet
    rw [moveLeft_block (hhandle ▸ hopen) hnote hmore rfl]
    have hcount : 0 < min blockSize (moved.content.length - position) :=
      Nat.lt_min.mpr ⟨by decide, by omega⟩
    have hread : position + min blockSize (moved.content.length - position) ≤
        file.content.length := by
      rw [← hmoved.length_eq]
      omega
    refine ⟨⟨by omega, hread, hrewrites.put _, ?_⟩, ?_⟩
    · rw [content_put (hhandle ▸ hpath)]
      exact hmoved.step hstart hle hread
    · dsimp only
      omega
  · rw [moveLeft_end (by rw [hnote]; exact hend)]
    obtain rfl : position = file.content.length := by
      rw [hmoved.length_eq] at hend
      omega
    exact ⟨moved, rfl, hrewrites, hmoved⟩

/-- The tail behind `start` is moved to make room for `gap` bytes. -/
theorem scan_moveRight (gap : Nat) (hstart : start ≤ file.content.length) :
    ∃ moved, scan (moveRight start gap) file.content.length file = .ok ⟨⟩ moved ∧
      Rewrites file moved ∧ file.content.MovedRight gap start moved.content := by
  refine scan_spec
    (fun position moved => start ≤ position ∧ position ≤ file.content.length ∧
      Rewrites file moved ∧ file.content.MovedRight gap position moved.content)
    (fun position _ => position)
    (fun outcome => ∃ moved, outcome = .ok () moved ∧ Rewrites file moved ∧
      file.content.MovedRight gap start moved.content)
    ?_ ⟨hstart, Nat.le_refl _, .refl file, .init _ _⟩ hlt
  rintro position moved ⟨hle, hlength, hrewrites, hmoved⟩
  have hhandle := hrewrites.handle_eq
  rcases Nat.lt_or_ge start position with hmore | hend
  · -- a gap longer than a block makes the first write start behind the end of the file
    rw [moveRight_block (hhandle ▸ hopen) (hmoved.le_length hlength) hmore rfl]
    have hcount : 0 < min blockSize (position - start) :=
      Nat.lt_min.mpr ⟨by decide, by omega⟩
    refine ⟨⟨by omega, by omega, hrewrites.put _, ?_⟩, ?_⟩
    · rw [content_put (hhandle ▸ hpath)]
      exact hmoved.step hlength (by omega)
    · dsimp only
      omega
  · rw [moveRight_end hend]
    obtain rfl : position = start := by omega
    exact ⟨moved, rfl, hrewrites, hmoved⟩

end Move

/-! ### Calls -/

/-- An open file in its place, with a note of its length that is right. -/
structure Ready (file : File) : Prop where
  isOpen : file.handle.isOpen = true
  path_eq : file.handle.path = Path.ofString file.handle.written
  placed : file.disk.Placed file.handle.written
  size_eq : file.handle.size = file.content.length

namespace Ready

theorem path_ne_nil (h : Ready file) : file.handle.path ≠ [] := by
  rw [h.path_eq]
  exact h.placed.ne_nil

theorem content_holding (h : Ready file) (content : Bytes) :
    (file.holding content).content = content :=
  content_put h.path_ne_nil content

theorem holding (h : Ready file) (content : Bytes) : Ready (file.holding content) where
  isOpen := h.isOpen
  path_eq := h.path_eq
  placed := by
    have hplaced := h.placed.put content
    rw [← h.path_eq] at hplaced
    exact hplaced
  size_eq := by
    rw [h.content_holding]
    rfl

end Ready

/-- What a call on a file comes to is what it comes to in memory: either it is made and leaves the
same bytes, or it is refused and the file is as it was. -/
abbrev Agree {α : Type} (file : File) :
    EStateM.Result Error File α → EStateM.Result Error Memory α → Prop :=
  Effect.Agree (fun after memory => Ready after ∧ memory = ⟨after.content⟩)
    (fun e after e' memory => e = e' ∧ after = file ∧ memory = ⟨file.content⟩)

namespace Agree

variable {α : Type}

theorem made (a : α) (after : File) (h : Ready after) :
    Agree file (.ok a after) (.ok a ⟨after.content⟩) :=
  .ok a ⟨h, rfl⟩

theorem refused (e : Error) :
    Agree (α := α) file (.error e file) (.error e ⟨file.content⟩) :=
  .error ⟨rfl, rfl, rfl⟩

theorem holding (h : Ready file) (a : α) (content : Bytes) :
    Agree file (.ok a (file.holding content)) (.ok a ⟨content⟩) :=
  .ok a ⟨h.holding content, congrArg Memory.mk (h.content_holding content).symm⟩

end Agree

theorem openAt_apply {disk : Disk} {written : String} (h : disk.Placed written)
    (syncMode : SyncMode) :
    openAt written syncMode disk = .ok
      { written, path := Path.ofString written, syncMode,
        size := ((disk.read? (Path.ofString written)).getD []).length } disk := by
  unfold openAt
  refine (bind_ok (get_apply disk)).trans ?_
  rw [h.openFile]
  exact (bind_ok (set_apply disk disk)).trans rfl

/-- **A file that has been opened is ready.** -/
theorem ready_of_openAt {written : String} {syncMode : SyncMode} {disk disk' : Disk}
    {handle : Handle} (h : openAt written syncMode disk = .ok handle disk') :
    Ready ⟨disk', handle⟩ := by
  unfold openAt at h
  rw [bind_ok (get_apply disk)] at h
  cases hopen : disk.openFile written with
  | error fault =>
    rw [hopen] at h
    cases h
  | ok made =>
    rw [hopen] at h
    have hok : EStateM.Result.ok _ made = .ok handle disk' := h
    obtain ⟨rfl, rfl⟩ := EStateM.Result.ok.inj hok
    exact ⟨rfl, rfl, Disk.placed_of_openFile hopen, rfl⟩

section Calls

variable (h : Ready file)
include h

theorem size_agree : Agree file (Storage.size file) (Storage.size (⟨file.content⟩ : Memory)) := by
  have hsize : Storage.size file = .ok file.handle.size file := rfl
  rw [hsize, h.size_eq]
  exact .made _ file h

theorem slice_apply (start stop : Nat) : Storage.slice start stop file =
    if start ≤ stop ∧ stop ≤ file.content.length then .ok (file.content.slice start stop) file
    else .error (.outOfRange start stop file.content.length) file := by
  have hcheck : Storage.slice start stop file = _ := bind_ok (get_apply file)
  rw [hcheck, checkRange_bind, h.size_eq]
  by_cases hrange : start ≤ stop ∧ stop ≤ file.content.length
  · have hstop : start + (stop - start) = stop := Nat.add_sub_of_le hrange.1
    rw [if_pos hrange, if_pos hrange, if_apply]
    split
    · rename_i heq
      subst heq
      rw [Bytes.slice_self]
      rfl
    · have hread := readAt_apply h.isOpen (Nat.le_trans (Nat.le_of_eq hstop) hrange.2)
      rw [hread, hstop]
  · rw [if_neg hrange, if_neg hrange]

theorem slice_agree (start stop : Nat) :
    Agree file (Storage.slice start stop file)
      (Storage.slice start stop (⟨file.content⟩ : Memory)) := by
  rw [slice_apply h, Memory.slice_apply]
  split
  · exact .made _ file h
  · exact .refused _

theorem setAll_apply (content : Bytes) :
    Storage.setAll content file = .ok ⟨⟩ (file.holding content) := by
  have hcut := setLength_apply h.isOpen 0
  have hwrite : writeAt 0 content ((file.put (file.content.resize 0)).noted 0) = _ :=
    writeAt_apply h.isOpen (.inr (Nat.zero_le _))
  refine (bind_ok hcut).trans ((bind_ok hwrite).trans ((noteSize_afterWrite ?_ _).trans ?_))
  · exact h.isOpen
  · have hcontent : ((file.put (file.content.resize 0)).noted 0).content = [] := by
      rw [content_noted, content_put h.path_ne_nil, Bytes.resize_of_le (Nat.zero_le _),
        List.take_zero]
    rw [hcontent, Bytes.nil_overwrite_zero, put_noted, noted_noted, put_put]
    rfl

theorem setAll_agree (content : Bytes) :
    Agree file (Storage.setAll content file)
      (Storage.setAll content (⟨file.content⟩ : Memory)) := by
  rw [setAll_apply h]
  exact .holding h _ content

theorem append_apply (added : Bytes) :
    Storage.append added file = .ok ⟨⟩ (file.holding (file.content ++ added)) := by
  have hwrite : writeAt file.content.length added file = _ :=
    writeAt_apply h.isOpen (.inr (Nat.le_refl _))
  refine (bind_ok (get_apply file)).trans ?_
  rw [h.size_eq]
  refine (bind_ok hwrite).trans ((noteSize_afterWrite ?_ _).trans ?_)
  · exact h.isOpen
  · rw [Bytes.overwrite_length, ← List.length_append]
    rfl

theorem append_agree (added : Bytes) :
    Agree file (Storage.append added file) (Storage.append added (⟨file.content⟩ : Memory)) := by
  rw [append_apply h, Memory.append_apply]
  exact .holding h _ _

theorem set_agree (start : Nat) (patch : Bytes) :
    Agree file (Storage.set start patch file)
      (Storage.set start patch (⟨file.content⟩ : Memory)) := by
  have hcheck : Storage.set start patch file = _ := bind_ok (get_apply file)
  rw [hcheck, checkRange_bind, h.size_eq, Memory.set_apply]
  simp only [Nat.le_refl, true_and]
  by_cases hstart : start ≤ file.content.length
  · have hset : (do
        writeAt start patch
        noteSize (max file.content.length (start + patch.length))
        afterWrite : Effect File Unit) file =
        .ok ⟨⟩ (file.holding (file.content.overwrite start patch)) := by
      refine (bind_ok (writeAt_apply h.isOpen (.inr hstart))).trans ?_
      refine (noteSize_afterWrite ?_ _).trans ?_
      · exact h.isOpen
      · rw [← Bytes.length_overwrite]
        rfl
    rw [if_pos hstart, if_pos hstart, hset]
    exact .holding h _ _
  · rw [if_neg hstart, if_neg hstart]
    exact .refused _

theorem delete_apply (hlt : file.content.length < Offset.range) (start stop : Nat) :
    Storage.delete start stop file =
      if start ≤ stop ∧ stop ≤ file.content.length then
        .ok ⟨⟩ (if start = stop then file else file.holding (file.content.remove start stop))
      else .error (.outOfRange start stop file.content.length) file := by
  have hcheck : Storage.delete start stop file = _ := bind_ok (get_apply file)
  rw [hcheck, checkRange_bind, h.size_eq]
  by_cases hrange : start ≤ stop ∧ stop ≤ file.content.length
  · obtain ⟨moved, hscan, hrewrites, hmoved⟩ :=
      scan_moveLeft h.isOpen h.path_ne_nil hlt h.size_eq hrange.1 hrange.2
    have hopen : moved.handle.isOpen = true := by
      rw [hrewrites.handle_eq]
      exact h.isOpen
    rw [if_pos hrange, if_pos hrange, if_apply]
    split
    · rfl
    · have hcut := setLength_apply hopen (file.content.length - (stop - start))
      refine (bind_ok hscan).trans ((bind_ok hcut).trans ((afterWrite_apply ?_).trans ?_))
      · exact hopen
      · rw [hmoved.resize, hrewrites, ← Bytes.length_remove hrange.1 hrange.2]
        rfl
  · rw [if_neg hrange, if_neg hrange]

theorem delete_agree (hlt : file.content.length < Offset.range) (start stop : Nat) :
    Agree file (Storage.delete start stop file)
      (Storage.delete start stop (⟨file.content⟩ : Memory)) := by
  rw [delete_apply h hlt, Memory.delete_apply]
  by_cases hrange : start ≤ stop ∧ stop ≤ file.content.length
  · rw [if_pos hrange, if_pos hrange]
    split
    · rename_i heq
      subst heq
      rw [Bytes.remove_self]
      exact .made _ file h
    · exact .holding h _ _
  · rw [if_neg hrange, if_neg hrange]
    exact .refused _

theorem insert_agree (hlt : file.content.length < Offset.range) (position : Nat) (added : Bytes) :
    Agree file (Storage.insert position added file)
      (Storage.insert position added (⟨file.content⟩ : Memory)) := by
  have hcheck : Storage.insert position added file = _ := bind_ok (get_apply file)
  rw [hcheck, checkRange_bind, h.size_eq, Memory.insert_apply]
  simp only [Nat.le_refl, true_and]
  by_cases hposition : position ≤ file.content.length
  · obtain ⟨moved, hscan, hrewrites, hmoved⟩ :=
      scan_moveRight h.isOpen h.path_ne_nil hlt added.length hposition
    rw [if_pos hposition, if_pos hposition, if_apply]
    split
    · rename_i hempty
      obtain rfl := List.isEmpty_iff.mp hempty
      rw [Bytes.insertAt_nil]
      exact .made _ file h
    · have hopen : moved.handle.isOpen = true := by
        rw [hrewrites.handle_eq]
        exact h.isOpen
      have hlength : (file.content.insertAt position added).length =
          file.content.length + added.length := by
        simp only [Bytes.insertAt, List.length_append, List.length_take, List.length_drop]
        omega
      have hroom : position ≤ moved.content.length := hmoved.le_length hposition
      have hinsert : (do
          scan (moveRight position added.length) file.content.length
          writeAt position added
          noteSize (file.content.length + added.length)
          afterWrite : Effect File Unit) file =
          .ok ⟨⟩ (file.holding (file.content.insertAt position added)) := by
        refine (bind_ok hscan).trans ((bind_ok (writeAt_apply hopen (.inr hroom))).trans ?_)
        refine (noteSize_afterWrite ?_ _).trans ?_
        · exact hopen
        · rw [hmoved.overwrite hposition, hrewrites, ← hlength]
          rfl
      rw [hinsert]
      exact .holding h _ _
  · rw [if_neg hposition, if_neg hposition]
    exact .refused _

theorem getAll_agree :
    Agree file (Storage.getAll file) (Storage.getAll (⟨file.content⟩ : Memory)) := by
  have hslice := slice_agree h 0 file.content.length
  rw [Memory.slice_of_le _ (Nat.zero_le _) (Nat.le_refl _), Bytes.slice_all] at hslice
  have hgetAll : Storage.getAll file = Storage.slice 0 file.handle.size file := rfl
  rw [hgetAll, h.size_eq]
  exact hslice

theorem sync_agree : Agree file (Storage.sync file) (Storage.sync (⟨file.content⟩ : Memory)) := by
  have hsync : Storage.sync file = .ok ⟨⟩ file := flush_apply h.isOpen
  rw [hsync]
  exact .made _ file h

/-- A file in its place is opened once more as it is. -/
theorem reopen_apply : reopen file = .ok ⟨⟩ file := by
  obtain ⟨disk, written, path, size, syncMode, isOpen⟩ := file
  obtain ⟨hopen, hpath, hplaced, hsize⟩ := h
  dsimp only [File.content] at hopen hpath hplaced hsize
  subst hopen hpath hsize
  unfold reopen
  refine (bind_ok (get_apply _)).trans ?_
  rw [bind_apply, within_apply, openAt_apply hplaced]
  rfl

/-- **A call on an open file comes to what it comes to in memory.** -/
theorem perform_agree (hlt : file.content.length < Offset.range) {call : Storage.Call}
    (hcall : call ≠ .close) :
    Agree file (Storage.perform call file) (Storage.perform call (⟨file.content⟩ : Memory)) := by
  cases call with
  | size => exact (size_agree h).map _
  | slice start stop => exact (slice_agree h start stop).map _
  | getAll => exact (getAll_agree h).map _
  | setAll content => exact (setAll_agree h content).map _
  | append added => exact (append_agree h added).map _
  | set start patch => exact (set_agree h start patch).map _
  | delete start stop => exact (delete_agree h hlt start stop).map _
  | insert position added => exact (insert_agree h hlt position added).map _
  | clear => exact (setAll_agree h []).map _
  | sync => exact (sync_agree h).map _
  | close => exact absurd rfl hcall

end Calls

end FramedStore.File
