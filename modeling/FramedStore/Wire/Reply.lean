import FramedStore.Wire.Request

/-!
# Replies

A reply is a status byte and what the request asked for; an error status is followed by a text. The
shape of a successful reply does not show in its bytes, so it is known to the reader.
-/

namespace FramedStore

/-- What a server answers. -/
inductive Reply
  | done
  | bytes (content : Bytes)
  | size (count : Nat)
  | error (text : String)
  deriving Repr, DecidableEq

namespace Reply

/-- The status of a successful reply. -/
def okStatus : UInt8 := 0

/-- The status of a failed call. -/
def errorStatus : UInt8 := 1

/-- The status byte of a reply. -/
def status : Reply → UInt8
  | error _ => errorStatus
  | _ => okStatus

/-- The bytes of a reply. -/
def encode : Reply → Bytes
  | done => [okStatus]
  | bytes content => okStatus :: Wire.payload content
  | .size count => okStatus :: Wire.number count
  | error text => errorStatus :: Wire.payload (Utf8.encode text)

/-- Reads what follows the status of a successful reply. -/
def readBody (limit : Nat) : ReplyShape → Reader Reply
  | .done => return done
  | .bytes => return bytes (← Reader.payload limit)
  | .size => return size (← Reader.number)

/-- Reads a reply of a shape, with payloads of at most `limit` bytes. -/
def read (limit : Nat) (shape : ReplyShape) : Reader Reply := do
  let status ← Reader.byte
  if status = errorStatus then
    return error (Utf8.lossy (← Reader.payload limit))
  if status ≠ okStatus then throw (.protocol (.unknownStatus status))
  readBody limit shape

end Reply

end FramedStore
