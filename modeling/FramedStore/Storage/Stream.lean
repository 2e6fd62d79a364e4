import FramedStore.Storage.Basic

/-!
# Streams over a range of a storage

A stream reads a range from front to back and fetches it from the storage in chunks, so that no
more than one chunk is held at a time. A failed fetch leaves the stream as it was.
-/

namespace FramedStore

/-- A reader over a range of a storage. -/
structure Stream where
  /-- The next byte to fetch. -/
  position : Nat
  stop : Nat
  /-- The bytes fetched last. -/
  buffer : Bytes := []
  /-- The number of them that have been read. -/
  used : Nat := 0
  deriving Repr, DecidableEq

/-- A stream next to the storage that it reads. -/
structure OpenStream (σ : Type) where
  storage : σ
  stream : Stream

namespace Stream

variable {σ α : Type}

/-- The most that is fetched at once. -/
def chunkSize : Nat := 65536

/-- The number of bytes not yet read. -/
def remaining (stream : Stream) : Nat :=
  stream.stop - stream.position + (stream.buffer.length - stream.used)

/-- All fetched bytes have been read. -/
def isUsedUp (stream : Stream) : Bool := stream.used == stream.buffer.length

/-- Runs an effect on the storage of a stream. -/
def onStorage (effect : Effect σ α) : Effect (OpenStream σ) α :=
  .within OpenStream.storage (fun storage reader => { reader with storage }) effect

/-- Reads at most `count` of the fetched bytes. -/
def takeFetched (count : Nat) : Effect (OpenStream σ) Bytes := do
  let stream := (← get).stream
  let bytes := (stream.buffer.drop stream.used).take count
  modify ({ · with stream := { stream with used := stream.used + bytes.length } })
  return bytes

variable [Storage σ]

/-- A stream over the bytes from `start` up to `stop`. -/
def ofRange (start stop : Nat) : Effect σ Stream := do
  checkRange start stop (← Storage.size)
  return { position := start, stop }

/-- Fetches the next chunk; a failure of the storage becomes one of the stream's device. -/
def refill : Effect (OpenStream σ) Unit := do
  let stream := (← get).stream
  let chunkEnd := min stream.stop (Offset.add stream.position chunkSize)
  match ← (onStorage (Storage.slice stream.position chunkEnd)).attempt with
  | .ok buffer =>
    modify ({ · with stream := { position := chunkEnd, stop := stream.stop, buffer } })
  | .error e => throw (.io (.other e.message))

/-- Reads at most `count` bytes, and none past the fetched ones. Only a used-up buffer is filled,
and it is filled even when no bytes are wanted. -/
def next (count : Nat) : Effect (OpenStream σ) Bytes := do
  let stream := (← get).stream
  if stream.isUsedUp && stream.stop ≤ stream.position then return []
  if stream.isUsedUp then refill
  takeFetched count

/-- Reads with a stream that is kept apart from its storage. -/
def read (stream : Stream) (count : Nat) : Effect σ (Bytes × Stream) := fun storage =>
  match next count ⟨storage, stream⟩ with
  | .ok bytes reader => .ok (bytes, reader.stream) reader.storage
  | .error e reader => .error e reader.storage

/-- Reads all that remains, chunk by chunk. -/
def readAll (stream : Stream) : Effect σ (Bytes × Stream) :=
  Effect.scan (fun (chunks, stream) => do
    let (bytes, stream) ← read stream chunkSize
    if bytes.isEmpty then
      return .done (chunks.reverse.flatten, stream)
    else
      return .again (bytes :: chunks, stream)) ([], stream)

end Stream

end FramedStore
