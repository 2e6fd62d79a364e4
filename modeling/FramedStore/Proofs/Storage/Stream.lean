import FramedStore.Proofs.Bytes.Splice
import FramedStore.Proofs.Effect.Run
import FramedStore.Proofs.Storage.Memory
import FramedStore.Storage.Stream

/-!
# What a stream delivers

A stream over a range gives the bytes of the range in their order, whatever numbers of bytes are asked
for and whichever slices of the storage fail (`stream_delivers_range`): what has been read and what is
still ahead are always the whole range, a failed read changes nothing, and the slices that were given
stand one behind the other.
-/

namespace FramedStore

open Effect

/-! ### Storages whose slices may fail -/

/-- The outcome of a slice of a content: the right bytes, or a failure at will. -/
def Storage.SliceOf {σ : Type} (holds : σ → Prop) (content : Bytes) (start stop : Nat) :
    EStateM.Result Error σ Bytes → Prop
  | .ok bytes t => start ≤ stop ∧ stop ≤ content.length ∧ bytes = content.slice start stop ∧ holds t
  | .error _ t => holds t

/-- The states of a storage with a content, which tells its size and gives no wrong slices. -/
structure Storage.Serves {σ : Type} [Storage σ] (holds : σ → Prop) (content : Bytes) : Prop where
  size {s : σ} (h : holds s) : ∃ t, holds t ∧ (Storage.size : Effect σ Nat) s = .ok content.length t
  slice {s : σ} (h : holds s) (start stop : Nat) :
    Storage.SliceOf holds content start stop (Storage.slice start stop s)

/-- A storage with a list of the slices that it has given. -/
structure Recorded (σ : Type) where
  storage : σ
  slices : List (Nat × Nat) := []

namespace Recorded

variable {σ : Type} [Storage σ]

instance : Storage (Recorded σ) where
  __ := Storage.inPart Recorded.storage (fun storage recorded => { recorded with storage })
  slice start stop := do
    let bytes ← Effect.within Recorded.storage (fun storage recorded => { recorded with storage })
      (Storage.slice start stop)
    modify fun recorded => { recorded with slices := recorded.slices ++ [(start, stop)] }
    return bytes

theorem size_of_ok {recorded : Recorded σ} {size : Nat} {t : σ}
    (h : (Storage.size : Effect σ Nat) recorded.storage = .ok size t) :
    (Storage.size : Effect (Recorded σ) Nat) recorded = .ok size ⟨t, recorded.slices⟩ := by
  change Effect.within Recorded.storage _ Storage.size recorded = _
  rw [within_apply, h]

theorem slice_apply (start stop : Nat) (recorded : Recorded σ) :
    Storage.slice start stop recorded =
      match Storage.slice start stop recorded.storage with
      | .ok bytes t => .ok bytes ⟨t, recorded.slices ++ [(start, stop)]⟩
      | .error e t => .error e ⟨t, recorded.slices⟩ := by
  refine (bind_apply recorded _ _).trans ?_
  rw [within_apply]
  cases Storage.slice start stop recorded.storage <;> rfl

end Recorded

namespace Stream

/-! ### How far a stream has come -/

/-- Slices that start at a position, go on to another one without gaps, and are chunks. -/
inductive Consecutive (start : Nat) : List (Nat × Nat) → Nat → Prop
  | nil : Consecutive start [] start
  | snoc {slices : List (Nat × Nat)} {position next : Nat} (h : Consecutive start slices position)
      (hlt : position < next) (hle : next ≤ position + chunkSize) :
      Consecutive start (slices ++ [(position, next)]) next

/-- The bytes that a stream over a content will still give. -/
def ahead (content : Bytes) (stream : Stream) : Bytes :=
  stream.buffer.drop stream.used ++ content.slice stream.position stream.stop

/-- The stream stands at a place of the range up to `stop`: the fetched bytes from there on are not yet
read, and those behind them not yet fetched. -/
structure StandsAt (content : Bytes) (stop place : Nat) (stream : Stream) : Prop where
  stop_eq : stream.stop = stop
  position_le : stream.position ≤ stop
  used_le : stream.used ≤ stream.buffer.length
  place_add : place + (stream.buffer.length - stream.used) = stream.position
  buffered : stream.buffer.drop stream.used = content.slice place stream.position

variable {content : Bytes} {start stop place : Nat} {stream : Stream}

theorem standsAt_start (h : start ≤ stop) :
    StandsAt content stop start { position := start, stop := stop } :=
  ⟨rfl, h, Nat.le_refl _, rfl, by simp⟩

namespace StandsAt

variable (h : StandsAt content stop place stream)
include h

theorem place_le : place ≤ stop := by
  have h1 := h.place_add
  have h2 := h.position_le
  omega

theorem remaining_eq : place + stream.remaining = stop := by
  have h1 := h.place_add
  have h2 := h.position_le
  rw [remaining, h.stop_eq]
  omega

theorem ahead_eq : stream.ahead content = content.slice place stop := by
  have h1 := h.place_add
  rw [ahead, h.buffered, h.stop_eq]
  exact Bytes.slice_append_slice (by omega) h.position_le

theorem isUsedUp_iff : stream.isUsedUp = true ↔ place = stream.position := by
  have h1 := h.place_add
  have h2 := h.used_le
  rw [isUsedUp, beq_iff_eq]
  omega

theorem length_taken (count : Nat) :
    ((stream.buffer.drop stream.used).take count).length = min count (stream.position - place) := by
  have h1 := h.place_add
  rw [List.length_take, List.length_drop]
  omega

/-- The bytes that are read next are those of the content at the place. -/
theorem take_eq (count : Nat) :
    (stream.buffer.drop stream.used).take count =
      content.slice place (place + ((stream.buffer.drop stream.used).take count).length) := by
  rw [h.length_taken, h.buffered, Bytes.slice, Bytes.slice, List.take_take, Nat.add_sub_cancel_left]

/-- Fetched bytes are read in their order. -/
theorem used (count : Nat) :
    StandsAt content stop
      (place + ((stream.buffer.drop stream.used).take count).length)
      { stream with used := stream.used + ((stream.buffer.drop stream.used).take count).length } := by
  have h1 := h.place_add
  have h2 := h.used_le
  have hlength := h.length_taken count
  refine ⟨h.stop_eq, h.position_le, ?_, ?_, ?_⟩
  · dsimp only
    omega
  · dsimp only
    omega
  · rw [← List.drop_drop, h.buffered, Bytes.slice, Bytes.slice, List.drop_take, List.drop_drop,
      Nat.sub_sub]

end StandsAt

/-! ### Single reads -/

section Apply

variable {σ : Type} (reader : OpenStream σ)

theorem takeFetched_apply (count : Nat) : takeFetched count reader =
    .ok ((reader.stream.buffer.drop reader.stream.used).take count)
      ⟨reader.storage, { reader.stream with
        used := reader.stream.used +
          ((reader.stream.buffer.drop reader.stream.used).take count).length }⟩ := rfl

variable [Storage σ]

theorem refill_apply : refill reader =
    match Storage.slice reader.stream.position
        (min reader.stream.stop (Offset.add reader.stream.position chunkSize)) reader.storage with
    | .ok buffer t => .ok ⟨⟩ ⟨t,
        { position := min reader.stream.stop (Offset.add reader.stream.position chunkSize)
          stop := reader.stream.stop
          buffer := buffer }⟩
    | .error e t => .error (.io (.other e.message)) ⟨t, reader.stream⟩ := by
  unfold refill
  rw [bind_ok (get_apply reader), bind_apply, attempt_apply, onStorage, within_apply]
  cases Storage.slice reader.stream.position
    (min reader.stream.stop (Offset.add reader.stream.position chunkSize)) reader.storage <;> rfl

variable {reader}

theorem next_fetched (h : reader.stream.isUsedUp = false) (count : Nat) :
    next count reader = takeFetched count reader := by
  unfold next
  rw [bind_ok (get_apply reader)]
  simp [h]

theorem next_end (h : reader.stream.isUsedUp = true)
    (hend : reader.stream.stop ≤ reader.stream.position) (count : Nat) :
    next count reader = .ok [] reader := by
  unfold next
  rw [bind_ok (get_apply reader)]
  simp [h, hend]

theorem next_refill (h : reader.stream.isUsedUp = true)
    (hlt : reader.stream.position < reader.stream.stop) (count : Nat) :
    next count reader = (refill >>= fun _ => takeFetched count) reader := by
  have hmore : ¬ reader.stream.stop ≤ reader.stream.position := Nat.not_le.mpr hlt
  unfold next
  rw [bind_ok (get_apply reader)]
  simp [h, hmore]

end Apply

/-! ### Reads of a stream over a range -/

variable {σ : Type} [Storage σ] {holds : σ → Prop} {reader after : OpenStream (Recorded σ)}

/-- The reader has come to a place of the range from `start` up to `stop`, by slices that stand one
behind the other. -/
structure Reads (holds : σ → Prop) (content : Bytes) (start stop place : Nat)
    (reader : OpenStream (Recorded σ)) : Prop where
  holds : holds reader.storage.storage
  stands : StandsAt content stop place reader.stream
  slices : Consecutive start reader.storage.slices reader.stream.position

/-- The storage fails to give the next chunk. -/
def ChunkFails (reader : OpenStream (Recorded σ)) : Prop :=
  ∃ e t, Storage.slice reader.stream.position
    (min reader.stream.stop (Offset.add reader.stream.position chunkSize)) reader.storage.storage =
      .error e t

/-- The outcome of a read at a place: the bytes that stand there, none of them only at the end of the
range or if none were wanted; or a failure of the storage that leaves the stream and the place. -/
def NextAt (holds : σ → Prop) (content : Bytes) (start stop place count : Nat)
    (reader : OpenStream (Recorded σ)) : EStateM.Result Error (OpenStream (Recorded σ)) Bytes → Prop
  | .ok bytes after => Reads holds content start stop (place + bytes.length) after ∧
      bytes = content.slice place (place + bytes.length) ∧ bytes.length ≤ count ∧
      (0 < count → bytes = [] → place = stop)
  | .error _ after => Reads holds content start stop place after ∧ after.stream = reader.stream ∧
      ChunkFails reader

/-- A chunk that starts at the place is fetched, or nothing changes. -/
theorem refill_reads (hserves : Storage.Serves holds content)
    (h : Reads holds content start stop place reader) (hplace : place = reader.stream.position)
    (hlt : reader.stream.position < reader.stream.stop) :
    match refill reader with
    | .ok _ after => Reads holds content start stop place after ∧ place < after.stream.position
    | .error _ after => Reads holds content start stop place after ∧
        after.stream = reader.stream ∧ ChunkFails reader := by
  have hslice := hserves.slice h.holds reader.stream.position
    (min reader.stream.stop (Offset.add reader.stream.position chunkSize))
  rw [refill_apply, Recorded.slice_apply, ChunkFails]
  generalize hend : min reader.stream.stop (Offset.add reader.stream.position chunkSize) = chunkEnd
    at hslice ⊢
  rcases hresult : Storage.slice reader.stream.position chunkEnd reader.storage.storage with
    ⟨bytes, t⟩ | ⟨e, t⟩
  · rw [hresult] at hslice
    obtain ⟨hstart, hstop, rfl, ht⟩ := hslice
    -- a sum that starts over is in front of the chunk, and no slice is given for it
    have hmore : reader.stream.position < chunkEnd ∧
        chunkEnd ≤ reader.stream.position + chunkSize := by
      unfold Offset.add chunkSize Offset.range at hend
      unfold chunkSize
      omega
    have hlength : (content.slice reader.stream.position chunkEnd).length =
        chunkEnd - reader.stream.position := Bytes.length_slice hstop
    have hle : chunkEnd ≤ reader.stream.stop := hend ▸ Nat.min_le_left _ _
    refine ⟨⟨ht, ⟨h.stands.stop_eq, ?_, Nat.zero_le _, ?_, ?_⟩, ?_⟩, ?_⟩
    · exact h.stands.stop_eq ▸ hle
    · dsimp only
      omega
    · rw [List.drop_zero, hplace]
    · exact h.slices.snoc hmore.1 hmore.2
    · exact hplace ▸ hmore.1
  · rw [hresult] at hslice
    exact ⟨⟨hslice, h.stands, h.slices⟩, rfl, e, t, rfl⟩

/-- Fetched bytes are read, if there are any. -/
theorem takeFetched_reads (h : Reads holds content start stop place reader) {count : Nat}
    (hmore : 0 < count → place < reader.stream.position) :
    NextAt holds content start stop place count reader (takeFetched count reader) := by
  rw [takeFetched_apply]
  refine ⟨⟨h.holds, h.stands.used count, h.slices⟩, h.stands.take_eq count,
    List.length_take_le _ _, fun hcount hnil => ?_⟩
  have hlength := h.stands.length_taken count
  have hpos := hmore hcount
  rw [hnil, List.length_nil] at hlength
  omega

/-- **What one read comes to.** -/
theorem next_reads (hserves : Storage.Serves holds content)
    (h : Reads holds content start stop place reader) (count : Nat) :
    NextAt holds content start stop place count reader (next count reader) := by
  have hplace := h.stands.place_add
  by_cases hused : reader.stream.isUsedUp = true
  · have hat := h.stands.isUsedUp_iff.mp hused
    rcases Nat.lt_or_ge reader.stream.position reader.stream.stop with hlt | hend
    · have hrefill := refill_reads hserves h hat hlt
      rw [next_refill hused hlt, bind_apply]
      rcases hresult : refill reader with ⟨_, after⟩ | ⟨e, after⟩
      · rw [hresult] at hrefill
        exact takeFetched_reads hrefill.1 fun _ => hrefill.2
      · rw [hresult] at hrefill
        exact hrefill
    · rw [next_end hused hend]
      have hle := h.stands.position_le
      rw [h.stands.stop_eq] at hend
      exact ⟨h, by simp, Nat.zero_le _, fun _ _ => by omega⟩
  · have hfetched : place < reader.stream.position := by
      rw [h.stands.isUsedUp_iff] at hused
      omega
    rw [next_fetched (by simpa using hused)]
    exact takeFetched_reads h fun _ => hfetched

/-! ### Runs of reads -/

/-- The bytes that the reads of a run gave. -/
def delivered {τ : Type} (steps : List (Step Nat τ Bytes)) : Bytes :=
  steps.flatMap fun read => match read.outcome with
    | .ok bytes => bytes
    | .error _ => []

/-- A read gives the next bytes and keeps the others ahead, or fails with the storage and leaves the
stream as it was. -/
def Continues (content : Bytes) (read : Step Nat (OpenStream (Recorded σ)) Bytes) : Prop :=
  match read.outcome with
  | .ok bytes => bytes ++ read.after.stream.ahead content = read.before.stream.ahead content ∧
      bytes.length ≤ read.call ∧ (0 < read.call → bytes = [] → read.after.stream.remaining = 0)
  | .error _ => read.after.stream = read.before.stream ∧ ChunkFails read.before

/-- What reads of a stream over a range come to. -/
structure Delivers (content : Bytes) (start stop : Nat)
    (reads : List (Step Nat (OpenStream (Recorded σ)) Bytes)) (after : OpenStream (Recorded σ)) :
    Prop where
  /-- The bytes delivered and those to come are the range. -/
  whole : delivered reads ++ after.stream.ahead content = content.slice start stop
  remaining : (delivered reads).length + after.stream.remaining = stop - start
  /-- Nothing that `remaining` takes away is more than what it is taken from. -/
  within : after.stream.position ≤ after.stream.stop ∧ after.stream.used ≤ after.stream.buffer.length
  slices : Consecutive start after.storage.slices after.stream.position
  continues : ∀ read ∈ reads, Continues content read

theorem continues_step (hserves : Storage.Serves holds content)
    (h : Reads holds content start stop place reader) (count : Nat) :
    Continues content (step next count reader) ∧
      Reads holds content start stop (place + (delivered [step next count reader]).length)
        (step next count reader).after ∧
      delivered [step next count reader] =
        content.slice place (place + (delivered [step next count reader]).length) := by
  have hnext := next_reads hserves h count
  rcases hresult : next count reader with ⟨bytes, after⟩ | ⟨e, after⟩
  · rw [hresult] at hnext
    obtain ⟨hafter, hbytes, hcount, hlast⟩ := hnext
    have hdelivered : delivered [step next count reader] = bytes := by
      simp [delivered, step_ok hresult]
    rw [hdelivered, step_ok hresult]
    refine ⟨⟨?_, hcount, fun hpos hnil => ?_⟩, hafter, hbytes⟩
    · rw [hafter.stands.ahead_eq, h.stands.ahead_eq,
        ← Bytes.slice_append_slice (Nat.le_add_right place bytes.length) hafter.stands.place_le,
        ← hbytes]
    · have hremaining := hafter.stands.remaining_eq
      have hend := hlast hpos hnil
      dsimp only
      omega
  · rw [hresult] at hnext
    obtain ⟨hafter, hstream, hfails⟩ := hnext
    have hdelivered : delivered [step next count reader] = [] := by
      simp [delivered, step_error hresult]
    rw [hdelivered, step_error hresult]
    exact ⟨⟨hstream, hfails⟩, hafter, by simp⟩

/-- What every run of reads keeps. -/
theorem reads_run (hserves : Storage.Serves holds content)
    (hstart : Reads holds content start stop start reader) (counts : List Nat) :
    (∀ read ∈ trace next counts reader, Continues content read) ∧
      Reads holds content start stop (start + (delivered (trace next counts reader)).length)
        (ending next counts reader) ∧
      delivered (trace next counts reader) =
        content.slice start (start + (delivered (trace next counts reader)).length) := by
  induction counts using List.reverseRecOn with
  | nil => exact ⟨nofun, hstart, by simp [delivered, trace]⟩
  | append_singleton counts count ih =>
    obtain ⟨hreads, hend, hbytes⟩ := ih
    obtain ⟨hread, hafter, hmore⟩ := continues_step hserves hend count
    have hdelivered : delivered (trace next (counts ++ [count]) reader) =
        delivered (trace next counts reader) ++
          delivered [step next count (ending next counts reader)] := by
      rw [trace_concat]
      exact List.flatMap_append
    rw [hdelivered, ending_concat, List.length_append, ← Nat.add_assoc]
    refine ⟨fun read hmem => ?_, hafter, ?_⟩
    · rw [trace_concat, List.mem_append, List.mem_singleton] at hmem
      rcases hmem with hmem | rfl
      · exact hreads read hmem
      · exact hread
    · rw [← Bytes.slice_append_slice (Nat.le_add_right start _) (Nat.le_add_right _ _), ← hbytes,
        ← hmore]

/-- **A stream delivers its range.** A range outside the content is refused. For any other one, whatever
numbers of bytes are asked for and whichever slices fail, what has been read and what is to come are
the whole range, a read gives no bytes only at the end, one that fails leaves the stream as it was, and
the slices given by the storage are chunks one behind the other. -/
theorem stream_delivers_range (hserves : Storage.Serves holds content) {s : σ} (hs : holds s)
    (start stop : Nat) :
    (¬ (start ≤ stop ∧ stop ≤ content.length) →
      ∃ t, ofRange start stop (⟨s, []⟩ : Recorded σ) =
        .error (.outOfRange start stop content.length) t) ∧
    (start ≤ stop ∧ stop ≤ content.length →
      ∃ stream t, ofRange start stop (⟨s, []⟩ : Recorded σ) = .ok stream t ∧
        ∀ counts, Delivers content start stop (trace next counts ⟨t, stream⟩)
          (ending next counts ⟨t, stream⟩)) := by
  obtain ⟨t, ht, hsize⟩ := hserves.size hs
  have hopen : ofRange start stop (⟨s, []⟩ : Recorded σ) =
      if start ≤ stop ∧ stop ≤ content.length then
        .ok { position := start, stop := stop } ⟨t, []⟩
      else .error (.outOfRange start stop content.length) ⟨t, []⟩ := by
    unfold ofRange
    rw [bind_ok (Recorded.size_of_ok hsize), checkRange_bind]
    rfl
  refine ⟨fun hrange => ⟨_, hopen.trans (if_neg hrange)⟩,
    fun hrange => ⟨_, _, hopen.trans (if_pos hrange), fun counts => ?_⟩⟩
  have hstart : Reads holds content start stop start
      (⟨⟨t, []⟩, { position := start, stop := stop }⟩ : OpenStream (Recorded σ)) :=
    ⟨ht, standsAt_start hrange.1, .nil⟩
  obtain ⟨hreads, hend, hbytes⟩ := reads_run hserves hstart counts
  have hplace := hend.stands.place_le
  have hremaining := hend.stands.remaining_eq
  refine ⟨?_, by omega, ⟨?_, hend.stands.used_le⟩, hend.slices, hreads⟩
  · rw [hend.stands.ahead_eq, ← Bytes.slice_append_slice (Nat.le_add_right start _) hplace, ← hbytes]
  · rw [hend.stands.stop_eq]
    exact hend.stands.position_le

end Stream

/-! ### A storage with failing slices -/

/-- A memory that fails the slices for which the list says so, one after the other. -/
structure Unsteady where
  memory : Memory
  failing : List Bool

namespace Unsteady

instance : Storage Unsteady where
  __ := Storage.inPart Unsteady.memory (fun memory unsteady => { unsteady with memory })
  slice start stop := do
    let unsteady ← get
    set { unsteady with failing := unsteady.failing.tail }
    if unsteady.failing.head? = some true then throw (.io (.other "no slice"))
    Effect.within Unsteady.memory (fun memory unsteady => { unsteady with memory })
      (Storage.slice start stop)

theorem serves (content : Bytes) :
    Storage.Serves (fun unsteady : Unsteady => unsteady.memory.content = content) content where
  size := by
    rintro unsteady rfl
    exact ⟨unsteady, rfl, rfl⟩
  slice := by
    rintro ⟨⟨content⟩, failing⟩ rfl start stop
    have hslice : Storage.slice start stop (⟨⟨content⟩, failing⟩ : Unsteady) =
        if failing.head? = some true then .error (.io (.other "no slice")) ⟨⟨content⟩, failing.tail⟩
        else if start ≤ stop ∧ stop ≤ content.length then
          .ok (content.slice start stop) ⟨⟨content⟩, failing.tail⟩
        else .error (.outOfRange start stop content.length) ⟨⟨content⟩, failing.tail⟩ := by
      refine (bind_ok (get_apply _)).trans ((bind_ok (set_apply _ _)).trans ?_)
      by_cases hfails : failing.head? = some true
      · simp [hfails]
      · by_cases hrange : start ≤ stop ∧ stop ≤ content.length <;>
          simp [hfails, hrange, within_apply, Memory.slice_apply]
    rw [hslice]
    split
    · exact rfl
    · split
      · rename_i hrange
        exact ⟨hrange.1, hrange.2, rfl, rfl⟩
      · exact rfl

end Unsteady

namespace Stream

/-- A stream over a memory whose first slice fails. -/
theorem stream_delivers_range_retried :
    Storage.Serves (fun unsteady : Unsteady => unsteady.memory.content = [1, 2, 3, 4, 5])
        [1, 2, 3, 4, 5] ∧
      (∃ t, ofRange 1 6 (⟨⟨⟨[1, 2, 3, 4, 5]⟩, [true]⟩, []⟩ : Recorded Unsteady) =
        .error (.outOfRange 1 6 5) t) ∧
      ∃ stream t, ofRange 1 4 (⟨⟨⟨[1, 2, 3, 4, 5]⟩, [true]⟩, []⟩ : Recorded Unsteady) =
          .ok stream t ∧
        ∀ counts, Delivers [1, 2, 3, 4, 5] 1 4 (trace next counts ⟨t, stream⟩)
          (ending next counts ⟨t, stream⟩) :=
  have hserves := Unsteady.serves [1, 2, 3, 4, 5]
  ⟨hserves, (stream_delivers_range hserves rfl 1 6).1 (by decide),
    (stream_delivers_range hserves rfl 1 4).2 (by decide)⟩

/-- The read that fails is made again, and goes on where it stood. -/
example :
    (trace next [0, 2, 5, 1]
        (⟨⟨⟨⟨[1, 2, 3, 4, 5]⟩, [true]⟩, []⟩, { position := 1, stop := 4 }⟩ :
          OpenStream (Recorded Unsteady))).map (·.outcome) =
      [.error (.io (.other (Error.io (.other "no slice")).message)), .ok [2, 3], .ok [4], .ok []] := by
  rfl

end Stream

end FramedStore
