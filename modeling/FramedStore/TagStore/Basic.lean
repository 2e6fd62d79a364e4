import FramedStore.Record.Bounds

/-!
# Tag stores

A tag store is a storage in which records stand in pairs, a tag and a value. A tag may occur more
than once; look-ups take the first pair, by a scan from the front that reads no value but the wanted
one and no tag of another length.
-/

namespace FramedStore

/-- A tag and its value. -/
abbrev Entry := String × Bytes

/-- Where a pair stands in a storage. -/
structure PairBounds where
  tag : Bounds
  value : Bounds
  deriving Repr, DecidableEq

namespace PairBounds

/-- The first byte of the pair. -/
def start (pair : PairBounds) : Nat := pair.tag.start

/-- The first byte behind the pair. -/
def stop (pair : PairBounds) : Nat := pair.value.stop

end PairBounds

namespace TagStore

open Effect (Round scan)

variable {σ : Type} [Storage σ] (framing : Framing)

/-- The bytes of a pair. -/
def encodePair (tag : String) (value : Bytes) : Bytes :=
  framing.encode (Utf8.encode tag) ++ framing.encode value

/-! ### Reading pairs -/

/-- The bounds of the pair at `position`; `none` at the end of the storage. -/
def pairAt? (position : Nat) : Effect σ (Option PairBounds) := do
  match ← framing.boundsAt? position with
  | none => return none
  | some tag =>
    match ← framing.boundsAt? tag.stop with
    | none => throw (.malformed tag.start .tagWithoutValue)
    | some value => return some ⟨tag, value⟩

/-- The content of a record. -/
def content (bounds : Bounds) : Effect σ Bytes :=
  Storage.slice bounds.content bounds.stop

/-- The text of a tag record. -/
def readTag (bounds : Bounds) : Effect σ String := do
  match Utf8.decode (← content bounds) with
  | .ok tag => return tag
  | .error fault => throw (.invalidUtf8 fault)

/-- The tag and the value of a pair. -/
def readPair (pair : PairBounds) : Effect σ Entry := do
  let tag ← readTag pair.tag
  return (tag, ← content pair.value)

/-- Whether a record is the wanted tag; it is read only if its length is right. -/
def matchesTag (bounds : Bounds) (tag : String) : Effect σ Bool := do
  let wanted := Utf8.encode tag
  if bounds.contentLength ≠ wanted.length then return false
  return (← content bounds) == wanted

/-- One round of `findFrom?`: the pair at `position`, or the position behind it. -/
def findRound (tag : String) (position : Nat) : Effect σ (Round Nat (Option PairBounds)) := do
  match ← pairAt? framing position with
  | none => return .done none
  | some pair =>
    if ← matchesTag pair.tag tag then return .done (some pair)
    else return .again pair.stop

/-- The first pair under `tag` from `position` on. -/
def findFrom? (tag : String) (position : Nat) : Effect σ (Option PairBounds) :=
  scan (findRound framing tag) position

/-! ### Look-ups -/

/-- The value of the first pair under `tag`. -/
def get? (tag : String) : Effect σ (Option Bytes) := do
  match ← findFrom? framing tag 0 with
  | none => return none
  | some pair => return some (← content pair.value)

/-- Whether there is a pair under `tag`. -/
def contains (tag : String) : Effect σ Bool := do
  return (← findFrom? framing tag 0).isSome

/-- One round of `entries`: the entry at a position, and those before it, latest first. -/
def entriesRound (state : Nat × List Entry) : Effect σ (Round (Nat × List Entry) (List Entry)) := do
  let (position, found) := state
  match ← pairAt? framing position with
  | none => return .done found.reverse
  | some pair => return .again (pair.stop, (← readPair pair) :: found)

/-- All entries in order. -/
def entries : Effect σ (List Entry) :=
  scan (entriesRound framing) (0, [])

/-- One round of `tags`: the tag at a position, and those before it, latest first. -/
def tagsRound (state : Nat × List String) : Effect σ (Round (Nat × List String) (List String)) := do
  let (position, found) := state
  match ← pairAt? framing position with
  | none => return .done found.reverse
  | some pair => return .again (pair.stop, (← readTag pair.tag) :: found)

/-- All tags in order, each as often as it occurs. -/
def tags : Effect σ (List String) :=
  scan (tagsRound framing) (0, [])

/-- One round of `size`: a position and the number of records before it. -/
def sizeRound (state : Nat × Nat) : Effect σ (Round (Nat × Nat) Nat) := do
  let (position, records) := state
  match ← framing.boundsAt? position with
  | some bounds => return .again (bounds.stop, records + 1)
  | none =>
    if records % 2 ≠ 0 then throw (.malformed position .tagWithoutValue)
    return .done (records / 2)

/-- The number of pairs. -/
def size : Effect σ Nat :=
  scan (sizeRound framing) (0, 0)

/-- Whether there is no pair. -/
def isEmpty : Effect σ Bool := do
  return (← size framing) == 0

/-! ### Changes -/

/-- Adds a pair at the end, whether or not there is one under `tag`. -/
def push (tag : String) (value : Bytes) : Effect σ Unit :=
  Storage.append (encodePair framing tag value)

/-- One round of `eraseAll`: a position, and the number of pairs removed before it. -/
def eraseAllRound (tag : String) (state : Nat × Nat) : Effect σ (Round (Nat × Nat) Nat) := do
  let (position, removed) := state
  match ← findFrom? framing tag position with
  | none => return .done removed
  | some pair =>
    Storage.delete pair.start pair.stop
    return .again (pair.start, removed + 1)

/-- Removes all pairs under `tag` and gives their number. -/
def eraseAll (tag : String) : Effect σ Nat :=
  scan (eraseAllRound framing tag) (0, 0)

/-- Puts a pair at the end in place of all pairs under `tag`; tells whether there were any. -/
def put (tag : String) (value : Bytes) : Effect σ Bool := do
  let removed ← eraseAll framing tag
  push framing tag value
  return 0 < removed

/-- Removes the first pair under `tag` and gives its value. -/
def erase (tag : String) : Effect σ (Option Bytes) := do
  match ← findFrom? framing tag 0 with
  | none => return none
  | some pair =>
    let value ← content pair.value
    Storage.delete pair.start pair.stop
    return some value

/-- Removes all pairs. -/
def clear : Effect σ Unit := Storage.clear

end TagStore

end FramedStore
