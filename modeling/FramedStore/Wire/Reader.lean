import FramedStore.Effect

/-!
# Reading messages

A reader takes its part off the front of the bytes that are still to be read. One that finds too few
bytes uses them up and fails; a length above the limit is refused after it has been read.
-/

namespace FramedStore

/-- An effect on the bytes still to be read. -/
abbrev Reader : Type → Type := Effect Bytes

namespace Reader

/-- The next `count` bytes. -/
def take (count : Nat) : Reader Bytes := do
  let bytes ← get
  let front := bytes.take count
  if front.length < count then
    set ([] : Bytes)
    throw (.io .endOfInput)
  set (bytes.drop count)
  return front

/-- The next byte. -/
def byte : Reader UInt8 := do
  match ← get with
  | [] => throw (.io .endOfInput)
  | byte :: rest =>
    set rest
    return byte

/-- A number in eight bytes, highest first. -/
def number : Reader Nat := do
  return Bytes.value (← take 8)

/-- A payload of at most `limit` bytes behind its length. -/
def payload (limit : Nat) : Reader Bytes := do
  let length ← number
  if limit < length then throw (.protocol (.payloadTooLarge length limit))
  take length

/-- Runs readers one after the other up to the first failure, which comes last. -/
def upToFailure {α : Type} : List (Reader α) → Reader (List (Except Error α))
  | [] => return []
  | reader :: readers => do
    match ← reader.attempt with
    | .ok a => return .ok a :: (← upToFailure readers)
    | .error e => return [.error e]

end Reader

namespace Wire

/-- A number in eight bytes, highest first. -/
def number (n : Nat) : Bytes := Bytes.bigEndian 8 n

/-- A payload behind its length. -/
def payload (bytes : Bytes) : Bytes := number bytes.length ++ bytes

end Wire

end FramedStore
