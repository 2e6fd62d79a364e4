import FramedStore.Proofs.Record.Found
import FramedStore.Proofs.Record.Trailer
import FramedStore.Proofs.Storage.Stream

/-!
# Sums of positions

Positions have 64 bits, and a storage may be nearly as long as there are positions: a remote storage is
as long as its server says. The calls that work with positions are given here with any way to add and
subtract (`Arithmetic`), which needs to be right only where 64 bits suffice (`Exact`) and may fail or start
over elsewhere. That they come to the same outcome then shows that no sum on their way starts over.
-/

namespace FramedStore

open Effect

/-- A way to add and to subtract positions. -/
structure Arithmetic (σ : Type) where
  add (a b : Nat) : Effect σ Nat
  sub (a b : Nat) : Effect σ Nat

namespace Arithmetic

variable {σ : Type}

/-- Sums and differences of 64-bit positions are right if they are 64-bit positions themselves. -/
structure Exact (ops : Arithmetic σ) : Prop where
  add {a b : Nat} (h : a + b < Offset.range) : ops.add a b = pure (a + b)
  sub {a b : Nat} (ha : a < Offset.range) (h : b ≤ a) : ops.sub a b = pure (a - b)

/-- The arithmetic of unbounded numbers. -/
def unbounded : Arithmetic σ where
  add a b := pure (a + b)
  sub a b := pure (a - b)

/-- The arithmetic of 64 bits, which starts over from zero past the last position. -/
def wrapping : Arithmetic σ where
  add a b := pure (Offset.add a b)
  sub a b := pure (Offset.add a (Offset.range - b))

theorem exact_unbounded : Exact (unbounded : Arithmetic σ) := ⟨fun _ => rfl, fun _ _ => rfl⟩

theorem exact_wrapping : Exact (wrapping : Arithmetic σ) where
  add h := congrArg pure (Nat.mod_eq_of_lt h)
  sub {a b} ha h := by
    refine congrArg pure ?_
    unfold Offset.add Offset.range at *
    omega

/-! ### The calls in any arithmetic -/

section Calls

variable [Storage σ] (ops : Arithmetic σ)

/-- The first byte of a content, with the sum in any arithmetic. -/
def firstByte? (window : Bytes) (indicator : Indicator) (position : Nat) :
    Effect σ (Option UInt8) := do
  if indicator.contentLength = 0 then return none
  match window[indicator.headerLength]? with
  | some found => return some found
  | none => return (← Storage.slice position (← ops.add position 1)).head?

/-- The bounds of the record at a position, with the sums in any arithmetic. The sum that the length of
the content takes part in is compared and never kept if it is too large. -/
def boundsAt? (framing : Framing) (position : Nat) : Effect σ (Option Bounds) := do
  let size ← Storage.size
  if size ≤ position then return none
  let window ← Storage.slice position (min size (← ops.add position framing.maxIndicator))
  let indicator ← Malformation.ofExcept position (framing.readIndicator window)
  let content ← ops.add position indicator.headerLength
  let stop := content + indicator.contentLength
  if size < stop then
    throw (.malformed position (.pastStorage indicator.contentLength size))
  let first ← ops.firstByte? window indicator content
  Malformation.ofExcept position (framing.checkContent window indicator first)
  return some ⟨position, content, stop⟩

/-- The bounds of the record that ends at a position, with the sum and the difference in any
arithmetic. -/
def boundsBefore? (tail : Nat) : Effect σ (Option TailBounds) := do
  if tail = 0 then return none
  let size ← Storage.size
  if size < tail then throw (.outOfRange tail tail size)
  let windowStart := tail - Trailer.maxLength
  let window ← Storage.slice windowStart tail
  let trailer ← Malformation.ofExcept tail (Trailer.read window)
  let contentEnd ← ops.add windowStart (window.length - trailer.headerLength)
  if contentEnd < trailer.contentLength then
    throw (.malformed tail (.beforeStorage trailer.contentLength))
  let content ← ops.sub contentEnd trailer.contentLength
  return some ⟨content, contentEnd, tail⟩

end Calls

/-- The number of bytes that a stream has still to give, in any arithmetic. -/
def remaining (ops : Arithmetic σ) (stream : Stream) : Effect σ Nat := do
  ops.add (← ops.sub stream.stop stream.position) (← ops.sub stream.buffer.length stream.used)

section Streams

variable [Storage σ] (ops : Arithmetic (OpenStream σ))

/-- Fetches the next chunk of a stream, with the sum in any arithmetic. -/
def refill : Effect (OpenStream σ) Unit := do
  let stream := (← get).stream
  let chunkEnd := min stream.stop (← ops.add stream.position Stream.chunkSize)
  match ← (Stream.onStorage (Storage.slice stream.position chunkEnd)).attempt with
  | .ok buffer =>
    modify ({ · with stream := { position := chunkEnd, stop := stream.stop, buffer } })
  | .error e => throw (.io (.other e.message))

/-- Reads at most so many bytes of a stream, with the sum in any arithmetic. -/
def next (count : Nat) : Effect (OpenStream σ) Bytes := do
  let stream := (← get).stream
  if stream.isUsedUp && stream.stop ≤ stream.position then return []
  if stream.isUsedUp then ops.refill
  Stream.takeFetched count

end Streams

/-! The calls are those in 64 bits, and the look back, whose numbers are taken as they are, the one
without a bound. -/

theorem wrapping_boundsAt? [Storage σ] (framing : Framing) (position : Nat) :
    (wrapping : Arithmetic σ).boundsAt? framing position = framing.boundsAt? position := rfl

theorem wrapping_next [Storage σ] (count : Nat) :
    (wrapping : Arithmetic (OpenStream σ)).next count = Stream.next count := rfl

theorem unbounded_boundsBefore? [Storage σ] (tail : Nat) :
    (unbounded : Arithmetic σ).boundsBefore? tail = Trailer.boundsBefore? tail := rfl

end Arithmetic

/-! ### Storages of any size -/

/-- The states of a storage that tells a size, if it tells any, and gives no slices but such as lie
inside it and are as long as asked for. A slice may fail at will. -/
structure Storage.Honours {σ : Type} [Storage σ] (holds : σ → Prop) (size : Nat) : Prop where
  size_ok {s t : σ} {found : Nat} (h : holds s) (hsize : Storage.size s = .ok found t) :
    found = size ∧ holds t
  slice_ok {s t : σ} {start stop : Nat} {bytes : Bytes} (h : holds s)
    (hslice : Storage.slice start stop s = .ok bytes t) :
    start ≤ stop ∧ stop ≤ size ∧ bytes.length = stop - start ∧ holds t
  slice_error {s t : σ} {start stop : Nat} {e : Error} (h : holds s)
    (hslice : Storage.slice start stop s = .error e t) : holds t

/-- Two effects that start alike are alike if they go on alike from where the first part leads. -/
theorem Effect.bind_congr_at {σ α β : Type} {x : Effect σ α} {f g : α → Effect σ β} {s : σ}
    (h : ∀ a t, x s = .ok a t → f a t = g a t) : (x >>= f) s = (x >>= g) s := by
  rw [bind_apply, bind_apply]
  cases hx : x s with
  | ok a t => exact h a t hx
  | error e t => rfl

theorem Malformation.ofExcept_eq_ok {σ α : Type} {position : Nat} {x : Except Malformation α} {a : α}
    {s t : σ} (h : (Malformation.ofExcept position x : Effect σ α) s = .ok a t) :
    x = .ok a ∧ t = s := by
  cases x with
  | ok b => cases h; exact ⟨rfl, rfl⟩
  | error cause => cases h

namespace Arithmetic

section Looks

variable {σ : Type} [Storage σ] {holds : σ → Prop} {size : Nat} {ops : Arithmetic σ} {s : σ}
  {framing : Framing} {position : Nat}

/-- The place of the first byte is the only sum, and it lies inside the content. -/
theorem firstByte?_eq (hops : ops.Exact) {window : Bytes} {indicator : Indicator}
    (hfits : position + indicator.contentLength < Offset.range) :
    ops.firstByte? window indicator position = Framing.firstByte? window indicator position := by
  unfold firstByte? Framing.firstByte?
  by_cases hempty : indicator.contentLength = 0
  · rw [if_pos hempty, if_pos hempty]
  · have hnext : position + 1 < Offset.range := by omega
    have hadd : Offset.add position 1 = position + 1 := Nat.mod_eq_of_lt hnext
    rw [if_neg hempty, if_neg hempty, hops.add hnext, hadd]
    rfl

variable (hhonours : Storage.Honours holds size) (hs : holds s) (hsize : size < Offset.range)
include hhonours hs hsize

theorem boundsAt?_eq (hops : ops.Exact)
    (hfits : position < size → position + framing.maxIndicator < Offset.range) :
    ops.boundsAt? framing position s = framing.boundsAt? position s := by
  refine bind_congr_at fun found t hfound => ?_
  obtain ⟨rfl, ht⟩ := hhonours.size_ok hs hfound
  rw [if_apply, if_apply]
  refine ite_congr rfl (fun _ => rfl) fun hlt => ?_
  have hwindow := hfits (Nat.lt_of_not_le hlt)
  have hadd : Offset.add position framing.maxIndicator = position + framing.maxIndicator :=
    Nat.mod_eq_of_lt hwindow
  rw [hops.add hwindow, hadd, bind_ok (pure_apply t _)]
  refine bind_congr_at fun window u hslice => ?_
  obtain ⟨-, hstop, hlength, -⟩ := hhonours.slice_ok ht hslice
  refine bind_congr_at fun indicator v hread => ?_
  -- the indicator lies in the window, and the window in the storage
  have hheader := (Framing.header_of_read (Malformation.ofExcept_eq_ok hread).1).1
  have hcontent : position + indicator.headerLength < Offset.range := by omega
  have hadd : Offset.add position indicator.headerLength = position + indicator.headerLength :=
    Nat.mod_eq_of_lt hcontent
  rw [hops.add hcontent, bind_ok (pure_apply v _), hadd]
  dsimp only
  rw [if_apply, if_apply]
  refine ite_congr rfl (fun _ => rfl) fun hpast => ?_
  rw [firstByte?_eq hops (by omega)]

/-- Where the end of the window is no position any more, the look fails. -/
theorem boundsAt?_overruns (hlt : position < size)
    (hover : Offset.range ≤ position + framing.maxIndicator) :
    ∃ e t, framing.boundsAt? position s = .error e t := by
  have hmax := framing.maxIndicator_le
  rcases h : framing.boundsAt? position s with ⟨bounds, t⟩ | ⟨e, t⟩
  · obtain ⟨found, t, hfound, h⟩ := bind_ok_iff.mp h
    obtain ⟨rfl, ht⟩ := hhonours.size_ok hs hfound
    rw [if_apply, if_neg (Nat.not_le.mpr hlt)] at h
    obtain ⟨window, u, hslice, -⟩ := bind_ok_iff.mp h
    obtain ⟨hle, -⟩ := hhonours.slice_ok ht hslice
    unfold Offset.add Offset.range at *
    omega
  · exact ⟨e, t, rfl⟩

theorem boundsBefore?_eq (hops : ops.Exact) (tail : Nat) :
    ops.boundsBefore? tail s = Trailer.boundsBefore? tail s := by
  unfold boundsBefore? Trailer.boundsBefore?
  rw [if_apply, if_apply]
  refine ite_congr rfl (fun _ => rfl) fun _ => ?_
  refine bind_congr_at fun found t hfound => ?_
  obtain ⟨rfl, ht⟩ := hhonours.size_ok hs hfound
  dsimp only
  rw [if_apply, if_apply]
  refine ite_congr rfl (fun _ => rfl) fun hle => ?_
  refine bind_congr_at fun window u hslice => ?_
  obtain ⟨-, -, hlength, -⟩ := hhonours.slice_ok ht hslice
  refine bind_congr_at fun trailer v hread => ?_
  have hend : tail - Trailer.maxLength + (window.length - trailer.headerLength) < Offset.range := by
    omega
  rw [hops.add hend, bind_ok (pure_apply v _), if_apply, if_apply]
  refine ite_congr rfl (fun _ => rfl) fun hlong => ?_
  rw [hops.sub hend (Nat.le_of_not_lt hlong), bind_ok (pure_apply v _)]

/-- The bounds of a record stand in their order, inside the storage. -/
theorem bounds_of_ok {bounds : Bounds} {t : σ}
    (h : framing.boundsAt? position s = .ok (some bounds) t) :
    bounds.start ≤ bounds.content ∧ bounds.content ≤ bounds.stop ∧ bounds.stop ≤ size := by
  obtain ⟨found, _, hfound, h⟩ := bind_ok_iff.mp h
  obtain ⟨rfl, ht⟩ := hhonours.size_ok hs hfound
  rw [if_apply] at h
  split at h
  · cases h
  obtain ⟨window, _, hslice, h⟩ := bind_ok_iff.mp h
  obtain ⟨hstart, hstop, hlength, -⟩ := hhonours.slice_ok ht hslice
  obtain ⟨indicator, _, hread, h⟩ := bind_ok_iff.mp h
  have hheader := (Framing.header_of_read (Malformation.ofExcept_eq_ok hread).1).1
  have hadd : Offset.add position indicator.headerLength = position + indicator.headerLength :=
    Nat.mod_eq_of_lt (by omega)
  dsimp only at h
  rw [hadd, if_apply] at h
  split at h
  · cases h
  obtain ⟨_, _, -, h⟩ := bind_ok_iff.mp h
  obtain ⟨_, _, -, h⟩ := bind_ok_iff.mp h
  cases h
  exact ⟨Nat.le_add_right _ _, Nat.le_add_right _ _, Nat.le_of_not_lt ‹_›⟩

omit hsize in
/-- The bounds of a record with a trailer stand in their order, inside the storage. -/
theorem tailBounds_of_ok {tail : Nat} {bounds : TailBounds} {t : σ}
    (h : Trailer.boundsBefore? tail s = .ok (some bounds) t) :
    bounds.content ≤ bounds.contentEnd ∧ bounds.contentEnd ≤ bounds.stop ∧ bounds.stop ≤ size := by
  unfold Trailer.boundsBefore? at h
  rw [if_apply] at h
  split at h
  · cases h
  obtain ⟨found, _, hfound, h⟩ := bind_ok_iff.mp h
  obtain ⟨rfl, ht⟩ := hhonours.size_ok hs hfound
  dsimp only at h
  rw [if_apply] at h
  split at h
  · cases h
  obtain ⟨window, _, hslice, h⟩ := bind_ok_iff.mp h
  obtain ⟨-, -, hlength, -⟩ := hhonours.slice_ok ht hslice
  obtain ⟨trailer, _, -, h⟩ := bind_ok_iff.mp h
  rw [if_apply] at h
  split at h
  · cases h
  cases h
  exact ⟨Nat.sub_le _ _, by dsimp only; omega, Nat.le_of_not_lt ‹_›⟩

end Looks

end Arithmetic

/-! ### Streams -/

namespace Stream

/-- What a stream over a range of a storage keeps: its numbers stand in their order, and the bytes
fetched last stood in front of its position. -/
structure Spans (size : Nat) (stream : Stream) : Prop where
  position_le : stream.position ≤ stream.stop
  stop_le : stream.stop ≤ size
  used_le : stream.used ≤ stream.buffer.length
  buffer_le : stream.buffer.length ≤ stream.position

/-- The next read fetches a chunk whose end, were there as many bytes, would be no position any more. -/
def Overruns (stream : Stream) : Prop :=
  stream.isUsedUp = true ∧ stream.position < stream.stop ∧ Offset.range ≤ stream.position + chunkSize

theorem Spans.remaining_exact {σ : Type} {ops : Arithmetic σ} (hops : ops.Exact) {size : Nat}
    {stream : Stream} (h : stream.Spans size) (hsize : size < Offset.range) :
    ops.remaining stream = pure stream.remaining := by
  obtain ⟨hposition, hstop, hused, hbuffer⟩ := h
  unfold Arithmetic.remaining
  rw [hops.sub (by omega) hposition, pure_bind, hops.sub (by omega) hused, pure_bind]
  exact hops.add (by omega)

section Reads

variable {σ : Type} [Storage σ] {holds : σ → Prop} {size : Nat} {reader : OpenStream σ}

/-- A stream over a range of a storage that honours its slices. -/
structure Kept (holds : σ → Prop) (size : Nat) (reader : OpenStream σ) : Prop where
  holds : holds reader.storage
  spans : reader.stream.Spans size

omit [Storage σ] in
theorem kept_takeFetched (h : Kept holds size reader) (count : Nat) :
    ∃ bytes after, takeFetched count reader = .ok bytes after ∧ Kept holds size after := by
  obtain ⟨hholds, hposition, hstop, hused, hbuffer⟩ := h
  refine ⟨_, _, takeFetched_apply reader count, hholds, hposition, hstop, ?_, hbuffer⟩
  dsimp only
  rw [List.length_take, List.length_drop]
  omega

/-- A sum that starts over is in front of the chunk, and no slice is given for it. -/
theorem refill_overruns (hhonours : Storage.Honours holds size) (h : Kept holds size reader)
    (hover : reader.stream.Overruns) : ∃ e after, refill reader = .error e after ∧
      after.stream = reader.stream := by
  obtain ⟨-, hlt, hrange⟩ := hover
  rw [refill_apply]
  rcases hslice : Storage.slice reader.stream.position
    (min reader.stream.stop (Offset.add reader.stream.position chunkSize)) reader.storage with
    ⟨buffer, t⟩ | ⟨e, t⟩
  · have hle := (hhonours.slice_ok h.holds hslice).1
    unfold Offset.add Offset.range chunkSize at *
    omega
  · exact ⟨_, _, rfl, rfl⟩

theorem kept_refill (hhonours : Storage.Honours holds size) (h : Kept holds size reader) :
    match refill reader with
    | .ok _ after | .error _ after => Kept holds size after := by
  obtain ⟨hholds, hposition, hstop, hused, hbuffer⟩ := h
  rw [refill_apply]
  rcases hslice : Storage.slice reader.stream.position
    (min reader.stream.stop (Offset.add reader.stream.position chunkSize)) reader.storage with
    ⟨buffer, t⟩ | ⟨e, t⟩
  · obtain ⟨hle, -, hlength, ht⟩ := hhonours.slice_ok hholds hslice
    refine ⟨ht, Nat.min_le_left _ _, hstop, Nat.zero_le _, ?_⟩
    dsimp only
    omega
  · exact ⟨hhonours.slice_error hholds hslice, hposition, hstop, hused, hbuffer⟩

/-- A read leaves a stream over the range. -/
theorem kept_next (hhonours : Storage.Honours holds size) (h : Kept holds size reader) (count : Nat) :
    Kept holds size (step next count reader).after := by
  by_cases hused : reader.stream.isUsedUp = true
  · rcases Nat.lt_or_ge reader.stream.position reader.stream.stop with hlt | hend
    · have hrefill := kept_refill hhonours h
      have hnext := next_refill hused hlt count
      rcases hresult : refill reader with ⟨_, middle⟩ | ⟨e, middle⟩
      · rw [hresult] at hrefill
        obtain ⟨bytes, after, htake, hafter⟩ := kept_takeFetched hrefill count
        rw [step_ok (hnext.trans ((bind_ok hresult).trans htake))]
        exact hafter
      · rw [hresult] at hrefill
        rw [step_error (hnext.trans (bind_error hresult))]
        exact hrefill
    · rw [step_ok (next_end hused hend count)]
      exact h
  · obtain ⟨bytes, after, htake, hafter⟩ := kept_takeFetched h count
    rw [step_ok ((next_fetched (by simpa using hused) count).trans htake)]
    exact hafter

theorem kept_ending (hhonours : Storage.Honours holds size) (h : Kept holds size reader)
    (counts : List Nat) : Kept holds size (ending next counts reader) := by
  induction counts generalizing reader with
  | nil => exact h
  | cons count counts ih => exact ih (kept_next hhonours h count)

theorem next_overruns (hhonours : Storage.Honours holds size) (h : Kept holds size reader)
    (hover : reader.stream.Overruns) (count : Nat) : ∃ e after, next count reader = .error e after ∧
      after.stream = reader.stream := by
  obtain ⟨e, after, hrefill, hstream⟩ := refill_overruns hhonours h hover
  exact ⟨e, after, (next_refill hover.1 hover.2.1 count).trans (bind_error hrefill), hstream⟩

variable {ops : Arithmetic (OpenStream σ)} (hops : ops.Exact)
include hops

theorem refill_exact (hfits : reader.stream.position + chunkSize < Offset.range) :
    ops.refill reader = refill reader := by
  have hadd : Offset.add reader.stream.position chunkSize = reader.stream.position + chunkSize :=
    Nat.mod_eq_of_lt hfits
  refine bind_congr_at fun now t hget => ?_
  cases hget
  dsimp only
  rw [hops.add hfits, ← hadd]
  exact bind_ok (pure_apply _ _)

theorem next_exact (hfits : ¬ reader.stream.Overruns) (count : Nat) :
    ops.next count reader = next count reader := by
  refine bind_congr_at fun now t hget => ?_
  cases hget
  dsimp only
  by_cases hend :
      (reader.stream.isUsedUp && decide (reader.stream.stop ≤ reader.stream.position)) = true
  · rw [if_pos hend, if_pos hend]
  rw [if_neg hend, if_neg hend]
  by_cases hused : reader.stream.isUsedUp = true
  · have hchunk : reader.stream.position + chunkSize < Offset.range := by
      by_contra hover
      refine hfits ⟨hused, ?_, Nat.le_of_not_lt hover⟩
      simpa [hused] using hend
    rw [if_pos hused, if_pos hused, bind_apply, bind_apply, refill_exact hops hchunk]
  · rw [if_neg hused, if_neg hused]

end Reads

end Stream

/-! ### A storage of any size -/

/-- A storage that holds zeros, as many as it says, and cannot be written. -/
structure Zeros where
  size : Nat

namespace Zeros

/-- Why nothing is written. -/
def refused : Error := .io (.other "only zeros")

instance : Storage Zeros where
  size := do return (← get).size
  slice start stop := do
    checkRange start stop (← get).size
    return List.replicate (stop - start) 0
  setAll _ := throw refused
  append _ := throw refused
  set _ _ := throw refused
  delete _ _ := throw refused

theorem honours (size : Nat) : Storage.Honours (fun zeros : Zeros => zeros.size = size) size := by
  have hslice : ∀ (zeros : Zeros) start stop, Storage.slice start stop zeros =
      if start ≤ stop ∧ stop ≤ zeros.size then .ok (List.replicate (stop - start) 0) zeros
      else .error (.outOfRange start stop zeros.size) zeros := by
    intro zeros start stop
    exact (bind_ok (get_apply zeros)).trans (checkRange_bind _ _ _ _ _)
  constructor
  case size_ok =>
    rintro ⟨_⟩ t found rfl h
    cases h
    exact ⟨rfl, rfl⟩
  case slice_ok =>
    rintro ⟨_⟩ t start stop bytes rfl h
    rw [hslice] at h
    split at h
    · cases h
      rename_i hrange
      exact ⟨hrange.1, hrange.2, List.length_replicate, rfl⟩
    · cases h
  case slice_error =>
    rintro ⟨_⟩ t start stop e rfl h
    rw [hslice] at h
    split at h
    · cases h
    · cases h
      rfl

end Zeros

/-! ### All sums -/

section All

variable {σ : Type} [Storage σ] {holds : σ → Prop} {size : Nat}

/-- The end of the window for an indicator, were there as many bytes, would be no position any more. -/
def Framing.Overruns (framing : Framing) (size position : Nat) : Prop :=
  position < size ∧ Offset.range ≤ position + framing.maxIndicator

/-- What looks at a storage of a size come to in any arithmetic that is right within 64 bits. -/
structure Storage.LooksExact (size : Nat) (s : σ) : Prop where
  boundsAt? (framing : Framing) (position : Nat) : ¬ framing.Overruns size position →
    ∀ ops : Arithmetic σ, ops.Exact → ops.boundsAt? framing position s = framing.boundsAt? position s
  overruns (framing : Framing) (position : Nat) : framing.Overruns size position →
    ∃ e t, framing.boundsAt? position s = .error e t
  lengths {framing : Framing} {position : Nat} {bounds : Bounds} {t : σ} :
    framing.boundsAt? position s = .ok (some bounds) t → ∀ ops : Arithmetic σ, ops.Exact →
      ops.sub bounds.content bounds.start = pure bounds.indicatorLength ∧
      ops.sub bounds.stop bounds.content = pure bounds.contentLength ∧
      ops.sub bounds.stop bounds.start = pure bounds.recordLength
  boundsBefore? (tail : Nat) : ∀ ops : Arithmetic σ, ops.Exact →
    ops.boundsBefore? tail s = Trailer.boundsBefore? tail s
  tailLengths {tail : Nat} {bounds : TailBounds} {t : σ} :
    Trailer.boundsBefore? tail s = .ok (some bounds) t → ∀ ops : Arithmetic σ, ops.Exact →
      ops.sub bounds.contentEnd bounds.content = pure bounds.contentLength ∧
      ops.sub bounds.stop bounds.content = pure bounds.recordLength

/-- What the numbers of a stream come to in any arithmetic that is right within 64 bits. -/
structure Stream.ReadsExact (reader : OpenStream σ) : Prop where
  remaining : ∀ ops : Arithmetic (OpenStream σ), ops.Exact →
    ops.remaining reader.stream = pure reader.stream.remaining
  next (count : Nat) : ¬ reader.stream.Overruns → ∀ ops : Arithmetic (OpenStream σ), ops.Exact →
    ops.next count reader = next count reader
  overruns (count : Nat) : reader.stream.Overruns → ∃ e after,
    Stream.next count reader = .error e after ∧ after.stream = reader.stream

variable (hhonours : Storage.Honours holds size) (hsize : size < Offset.range)
include hhonours hsize

theorem Storage.looksExact {s : σ} (hs : holds s) : Storage.LooksExact size s where
  boundsAt? framing position hfits ops hops :=
    Arithmetic.boundsAt?_eq hhonours hs hsize hops fun hlt =>
      Nat.lt_of_not_le fun hover => hfits ⟨hlt, hover⟩
  overruns framing position hover := Arithmetic.boundsAt?_overruns hhonours hs hsize hover.1 hover.2
  lengths h ops hops := by
    obtain ⟨hstart, hcontent, hstop⟩ := Arithmetic.bounds_of_ok hhonours hs hsize h
    exact ⟨hops.sub (by omega) hstart, hops.sub (by omega) hcontent, hops.sub (by omega) (by omega)⟩
  boundsBefore? tail ops hops := Arithmetic.boundsBefore?_eq hhonours hs hsize hops tail
  tailLengths h ops hops := by
    obtain ⟨hcontent, hend, hstop⟩ := Arithmetic.tailBounds_of_ok hhonours hs h
    exact ⟨hops.sub (by omega) hcontent, hops.sub (by omega) (by omega)⟩

theorem Stream.readsExact {reader : OpenStream σ} (h : Kept holds size reader) : ReadsExact reader where
  remaining _ hops := h.spans.remaining_exact hops hsize
  next count hfits _ hops := next_exact hops hfits count
  overruns count hover := next_overruns hhonours h hover count

/-- **Where sums of positions are exact**, up to the largest sizes. In a storage that honours its slices,
looks and reads of a stream over any range come to what they would come to without a bound on numbers,
save where the end of a window for an indicator or of a chunk is counted on past the last position; there
they fail. -/
theorem positions_exact {s : σ} (hs : holds s) :
    Storage.LooksExact size s ∧
      ∀ start stop, start ≤ stop → stop ≤ size → ∀ counts,
        Stream.ReadsExact
          (ending Stream.next counts (⟨s, { position := start, stop := stop }⟩ : OpenStream σ)) := by
  refine ⟨Storage.looksExact hhonours hsize hs, fun start stop hstart hstop counts => ?_⟩
  have hkept : Stream.Kept holds size (⟨s, { position := start, stop := stop }⟩ : OpenStream σ) :=
    ⟨hs, hstart, hstop, Nat.zero_le _, Nat.zero_le _⟩
  exact Stream.readsExact hhonours hsize (Stream.kept_ending hhonours hkept counts)

end All

/-- The largest storage. -/
theorem positions_exact_largest :
    Storage.Honours (fun zeros : Zeros => zeros.size = Offset.range - 1) (Offset.range - 1) ∧
      Offset.range - 1 < Offset.range ∧
      Arithmetic.Exact (.unbounded : Arithmetic Zeros) ∧
      Arithmetic.Exact (.wrapping : Arithmetic Zeros) ∧
      Storage.LooksExact (Offset.range - 1) (⟨Offset.range - 1⟩ : Zeros) ∧
      ∀ start stop, start ≤ stop → stop ≤ Offset.range - 1 → ∀ counts,
        Stream.ReadsExact (ending Stream.next counts
          (⟨⟨Offset.range - 1⟩, { position := start, stop := stop }⟩ : OpenStream Zeros)) :=
  have hhonours := Zeros.honours (Offset.range - 1)
  have hsize : Offset.range - 1 < Offset.range := by decide
  ⟨hhonours, hsize, Arithmetic.exact_unbounded, Arithmetic.exact_wrapping,
    positions_exact hhonours hsize rfl⟩

/-- **Sums of positions do start over**, at the end of the largest storage: the last byte is a record
without a content, and a range for a stream, but neither is found. -/
theorem sums_start_over :
    Storage.Honours (fun zeros : Zeros => zeros.size = Offset.range - 1) (Offset.range - 1) ∧
      Arithmetic.unbounded.boundsAt? .byte (Offset.range - 2) (⟨Offset.range - 1⟩ : Zeros) =
        .ok (some ⟨Offset.range - 2, Offset.range - 1, Offset.range - 1⟩) ⟨Offset.range - 1⟩ ∧
      Framing.byte.boundsAt? (Offset.range - 2) (⟨Offset.range - 1⟩ : Zeros) =
        .error (.outOfRange (Offset.range - 2) 8 (Offset.range - 1)) ⟨Offset.range - 1⟩ ∧
      Arithmetic.unbounded.next 1 (⟨⟨Offset.range - 1⟩,
          { position := Offset.range - 2, stop := Offset.range - 1 }⟩ : OpenStream Zeros) =
        .ok [0] ⟨⟨Offset.range - 1⟩, ⟨Offset.range - 1, Offset.range - 1, [0], 1⟩⟩ ∧
      Stream.next 1 (⟨⟨Offset.range - 1⟩,
          { position := Offset.range - 2, stop := Offset.range - 1 }⟩ : OpenStream Zeros) =
        .error (.io (.other (Error.outOfRange (Offset.range - 2) 65534 (Offset.range - 1)).message))
          ⟨⟨Offset.range - 1⟩, { position := Offset.range - 2, stop := Offset.range - 1 }⟩ :=
  ⟨Zeros.honours _, rfl, rfl, rfl, rfl⟩

end FramedStore
