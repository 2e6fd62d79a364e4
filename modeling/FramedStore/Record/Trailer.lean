import FramedStore.Record.Cursor

/-!
# Records with trailers

Here the length stands behind the content, written so that it can be read from its end. Such records
are walked from the end of the storage to its start.
-/

namespace FramedStore

/-- Where a record with a trailer stands in a storage. -/
structure TailBounds where
  /-- The first byte of the content. -/
  content : Nat
  /-- The first byte of the trailer. -/
  contentEnd : Nat
  /-- The first byte behind the trailer. -/
  stop : Nat
  deriving Repr, DecidableEq

namespace TailBounds

/-- The record starts with its content. -/
def start (bounds : TailBounds) : Nat := bounds.content

/-- The length of the content. -/
def contentLength (bounds : TailBounds) : Nat := bounds.contentEnd - bounds.content

/-- The length of content and trailer. -/
def recordLength (bounds : TailBounds) : Nat := bounds.stop - bounds.content

end TailBounds

namespace Trailer

/-- The longest trailer. -/
def maxLength : Nat := Nested.maxWidth + 2

/-- The record of a content: the content and its trailer. -/
def encode (content : Bytes) : Bytes := content ++ Nested.writeBack content.length

/-- Reads the trailer at the end of a byte string. -/
def read (bytes : Bytes) : Except Malformation Indicator :=
  Nested.read .truncatedTrailer List.reverse bytes.reverse

/-- What precedes the last record, and its content; `none` for no bytes at all. -/
def splitLast? (bytes : Bytes) : Except Malformation (Option (Bytes × Bytes)) := do
  if bytes.isEmpty then return none
  let window := bytes.drop (bytes.length - maxLength)
  let trailer ← read window
  let contentEnd := bytes.length - trailer.headerLength
  if contentEnd < trailer.contentLength then throw (.beforeInput trailer.contentLength)
  let start := contentEnd - trailer.contentLength
  return some (bytes.take start, bytes.slice start contentEnd)

/-! ### In a storage -/

variable {σ : Type} [Storage σ]

/-- Adds the record of a content at the end of the storage. -/
def append (content : Bytes) : Effect σ TailBounds := do
  let start ← Storage.size
  let record := encode content
  Storage.append record
  return ⟨start, Offset.add start content.length, Offset.add start record.length⟩

/-- The bounds of the record that ends at `tail`; `none` at the start of the storage. -/
def boundsBefore? (tail : Nat) : Effect σ (Option TailBounds) := do
  if tail = 0 then return none
  let size ← Storage.size
  if size < tail then throw (.outOfRange tail tail size)
  let windowStart := tail - maxLength
  let window ← Storage.slice windowStart tail
  let trailer ← Malformation.ofExcept tail (read window)
  let contentEnd := windowStart + (window.length - trailer.headerLength)
  if contentEnd < trailer.contentLength then
    throw (.malformed tail (.beforeStorage trailer.contentLength))
  return some ⟨contentEnd - trailer.contentLength, contentEnd, tail⟩

end Trailer

namespace Cursor

variable {σ : Type} [Storage σ]

/-- The bounds of the record that ends at the cursor. -/
def boundsBefore? : Effect (Cursor σ) (Option TailBounds) := do
  onStorage (Trailer.boundsBefore? (← get).offset)

/-- The content of the record that ends at the cursor, which moves to the record's start. -/
def decodeBack? : Effect (Cursor σ) (Option Bytes) := do
  match ← boundsBefore? with
  | none => return none
  | some bounds =>
    let content ← onStorage (Storage.slice bounds.content bounds.contentEnd)
    seek bounds.content
    return some content

/-- Moves the cursor to the start of the record that ends at it. -/
def skipBack? : Effect (Cursor σ) (Option TailBounds) := do
  match ← boundsBefore? with
  | none => return none
  | some bounds =>
    seek bounds.content
    return some bounds

/-- The contents of the records before the cursor, last one first, at most `max` of them. -/
def decodeManyBack (max : Int) : Effect (Cursor σ) (List Bytes) :=
  collect max decodeBack?

end Cursor

end FramedStore
