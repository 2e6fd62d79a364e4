import FramedStore.Record.Framing
import FramedStore.Storage.Basic

/-!
# Records in a storage

Where the record at a position of a storage begins and ends is found from its indicator alone:
`Framing.boundsAt?` reads no more of the storage than the longest indicator, and one byte behind it
where the guard has to be checked.
-/

namespace FramedStore

/-- Where a record stands in a storage. -/
structure Bounds where
  /-- The first byte of the indicator. -/
  start : Nat
  /-- The first byte of the content. -/
  content : Nat
  /-- The first byte behind the content. -/
  stop : Nat
  deriving Repr, DecidableEq

namespace Bounds

/-- The length of the indicator. -/
def indicatorLength (bounds : Bounds) : Nat := bounds.content - bounds.start

/-- The length of the content. -/
def contentLength (bounds : Bounds) : Nat := bounds.stop - bounds.content

/-- The length of indicator and content. -/
def recordLength (bounds : Bounds) : Nat := bounds.stop - bounds.start

end Bounds

/-- The result of looking at the record at `position`. -/
def Malformation.ofExcept {σ α : Type} (position : Nat) :
    Except Malformation α → Effect σ α
  | .ok a => pure a
  | .error cause => throw (.malformed position cause)

namespace Framing

variable {σ : Type} [Storage σ]

/-- The first byte of a content that starts at `position`; it may stand behind the bytes that have
been read already. -/
def firstByte? (window : Bytes) (indicator : Indicator) (position : Nat) :
    Effect σ (Option UInt8) := do
  if indicator.contentLength = 0 then return none
  match window[indicator.headerLength]? with
  | some found => return some found
  | none => return (← Storage.slice position (Offset.add position 1)).head?

/-- The bounds of the record at `position`; `none` at or behind the end of the storage. -/
def boundsAt? (framing : Framing) (position : Nat) : Effect σ (Option Bounds) := do
  let size ← Storage.size
  if size ≤ position then return none
  let window ← Storage.slice position (min size (Offset.add position framing.maxIndicator))
  let indicator ← Malformation.ofExcept position (framing.readIndicator window)
  let content := Offset.add position indicator.headerLength
  let stop := content + indicator.contentLength
  if size < stop then
    throw (.malformed position (.pastStorage indicator.contentLength size))
  let first ← firstByte? window indicator content
  Malformation.ofExcept position (framing.checkContent window indicator first)
  return some ⟨position, content, stop⟩

/-- Adds the record of a content at the end of the storage. -/
def append (framing : Framing) (content : Bytes) : Effect σ Bounds := do
  let start ← Storage.size
  let contentStart := Offset.add start (framing.indicator content).length
  Storage.append (framing.encode content)
  return ⟨start, contentStart, Offset.add contentStart content.length⟩

end Framing

end FramedStore
