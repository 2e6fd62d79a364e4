import FramedStore.Record.Bounds

/-!
# Cursors

A cursor stands at an offset of a storage and moves from record to record. At the end of the storage
there is no record, which is an answer and no error: `decode?`, `skip?` and `delete?` then give
`none` and leave the cursor, so that a record appended later is the next one.
-/

namespace FramedStore

/-- A storage and the offset at which a cursor stands in it. -/
structure Cursor (σ : Type) where
  storage : σ
  offset : Nat

namespace Cursor

variable {σ : Type} {α : Type}

/-- Runs an effect on the storage under the cursor. -/
def onStorage (effect : Effect σ α) : Effect (Cursor σ) α :=
  .within storage (fun storage cursor => { cursor with storage }) effect

/-- Moves the cursor. -/
def seek (offset : Nat) : Effect (Cursor σ) Unit :=
  modify ({ · with offset })

variable [Storage σ]

/-- The bounds of the record at the cursor. -/
def bounds? (framing : Framing) : Effect (Cursor σ) (Option Bounds) := do
  onStorage (framing.boundsAt? (← get).offset)

/-- The content of the record at the cursor, which moves behind it. -/
def decode? (framing : Framing) : Effect (Cursor σ) (Option Bytes) := do
  match ← bounds? framing with
  | none => return none
  | some bounds =>
    let content ← onStorage (Storage.slice bounds.content bounds.stop)
    seek bounds.stop
    return some content

/-- Moves the cursor behind the record at it. -/
def skip? (framing : Framing) : Effect (Cursor σ) (Option Bounds) := do
  match ← bounds? framing with
  | none => return none
  | some bounds =>
    seek bounds.stop
    return some bounds

/-- Removes the record at the cursor, which then stands at the record that followed. -/
def delete? (framing : Framing) : Effect (Cursor σ) (Option Bounds) := do
  match ← bounds? framing with
  | none => return none
  | some bounds =>
    onStorage (Storage.delete bounds.start bounds.stop)
    return some bounds

/-- Puts the record of a content in at the cursor, which moves behind it and so stays with the
record that was there. -/
def insert (framing : Framing) (content : Bytes) : Effect (Cursor σ) Bounds := do
  let start := (← get).offset
  let record := framing.encode content
  onStorage (Storage.insert start record)
  let stop := Offset.add start record.length
  seek stop
  return ⟨start, stop - content.length, stop⟩

/-- The text of the text record at the cursor; the cursor stays where it is if the content is no
text. -/
def decodeText? : Effect (Cursor σ) (Option String) := do
  let start := (← get).offset
  match ← decode? Framing.text with
  | none => return none
  | some content =>
    match Utf8.decode content with
    | .ok text => return some text
    | .error fault =>
      seek start
      throw (.invalidUtf8 fault)

/-! ### Several records -/

/-- A limit on a number of records; negative numbers stand for none. -/
def limit (max : Int) : Option Nat := if max < 0 then none else some max.toNat

/-- One round of `collect`: the records still wanted and the answers so far, latest first. -/
def collectRound (one : Effect σ (Option α)) (state : Option Nat × List α) :
    Effect σ (Effect.Round (Option Nat × List α) (List α)) := do
  let (wanted, found) := state
  if wanted = some 0 then return .done found.reverse
  match ← one with
  | none => return .done found.reverse
  | some answer => return .again (wanted.map (· - 1), answer :: found)

/-- The answers of `one`, repeated until it has none or `max` answers are there. -/
def collect (max : Int) (one : Effect σ (Option α)) : Effect σ (List α) :=
  Effect.scan (collectRound one) (limit max, [])

/-- The contents of the records from the cursor on, at most `max` of them. -/
def decodeMany (framing : Framing) (max : Int) : Effect (Cursor σ) (List Bytes) :=
  collect max (decode? framing)

/-- Removes the records from the cursor on, at most `max` of them, and gives their number. -/
def deleteMany (framing : Framing) (max : Int) : Effect (Cursor σ) Nat := do
  return (← collect max (delete? framing)).length

end Cursor

end FramedStore
