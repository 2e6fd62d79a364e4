import FramedStore.Wire.Reader

/-!
# Requests

A client opens a session with one byte, the service it wants. Each request then is the byte of its
service, the byte of its cause, and the fields.
-/

namespace FramedStore

namespace Service

/-- The byte of a service. -/
def byte : Service → UInt8
  | control => 0
  | storage => 1

/-- The service of a byte. -/
def ofByte (byte : UInt8) : Except Error Service :=
  if byte = 0 then .ok control
  else if byte = 1 then .ok storage
  else .error (.protocol (.unknownService byte))

/-- The bytes that open a session. -/
def handshake (service : Service) : Bytes := [service.byte]

/-- Reads the service that a session is opened for. -/
def read : Reader Service := do
  .ofExcept (ofByte (← Reader.byte))

end Service

/-- What a client asks for. -/
inductive Request
  /-- A sign of life. -/
  | ping
  | setAll (content : Bytes)
  | getAll
  | delete (start stop : Nat)
  | append (added : Bytes)
  | slice (start stop : Nat)
  | size
  | set (start : Nat) (patch : Bytes)
  deriving Repr, DecidableEq

/-- What follows the status of a successful reply. -/
inductive ReplyShape
  | done
  | bytes
  | size
  deriving Repr, DecidableEq

/-- The name of a shape. -/
def ReplyShape.name : ReplyShape → String
  | done => "done"
  | bytes => "bytes"
  | size => "size"

/-- The shape of a name; other names stand for nothing. -/
def ReplyShape.named (name : String) : ReplyShape :=
  ([bytes, size].find? (·.name = name)).getD done

namespace Request

/-- The service a request belongs to. -/
def service : Request → Service
  | ping => .control
  | _ => .storage

/-- The byte that names a request within its service. -/
def cause : Request → UInt8
  | ping => 1
  | setAll _ => 1
  | getAll => 2
  | delete _ _ => 3
  | append _ => 4
  | slice _ _ => 5
  | size => 6
  | set _ _ => 7

/-- The shape of a successful reply. -/
def replyShape : Request → ReplyShape
  | getAll => .bytes
  | slice _ _ => .bytes
  | size => .size
  | _ => .done

/-- The bytes of the fields. -/
def fields : Request → Bytes
  | ping | getAll | size => []
  | setAll data | append data => Wire.payload data
  | delete start stop | slice start stop => Wire.number start ++ Wire.number stop
  | set start patch => Wire.number start ++ Wire.payload patch

/-- The bytes of a request. -/
def encode (request : Request) : Bytes :=
  request.service.byte :: request.cause :: request.fields

/-- Reads the fields of the request with a service and a cause. -/
def readFields (limit : Nat) (service : Service) (cause : UInt8) : Reader Request :=
  match service, cause with
  | .control, 1 => return ping
  | .storage, 1 => return setAll (← Reader.payload limit)
  | .storage, 2 => return getAll
  | .storage, 3 => return delete (← Reader.number) (← Reader.number)
  | .storage, 4 => return append (← Reader.payload limit)
  | .storage, 5 => return slice (← Reader.number) (← Reader.number)
  | .storage, 6 => return size
  | .storage, 7 => return set (← Reader.number) (← Reader.payload limit)
  | service, cause => throw (.protocol (.unknownCause cause service))

/-- Reads a request with payloads of at most `limit` bytes. -/
def read (limit : Nat) : Reader Request := do
  let service ← Service.read
  let cause ← Reader.byte
  readFields limit service cause

/-- The request that is a whole byte string. -/
def decode (limit : Nat) (bytes : Bytes) : Except Error Request :=
  match read limit bytes with
  | .error e _ => .error e
  | .ok request [] => .ok request
  | .ok _ rest => .error (.protocol (.trailingBytes rest.length))

/-- The requests at the front of a byte string, one after the other. -/
structure Sequence where
  /-- The requests that could be read. -/
  requests : List Request
  /-- What stands behind them. -/
  rest : Bytes
  /-- Why that is no request, and what is left after trying; `none` if nothing stands there. -/
  failure : Option (Error × Bytes)
  deriving Repr, DecidableEq

/-- Reads requests until no bytes remain or a request cannot be read, at most `rounds` of them. -/
def readSequence (limit : Nat) : Nat → List Request → Bytes → Sequence
  | 0, found, bytes => ⟨found.reverse, bytes, none⟩
  | rounds + 1, found, bytes =>
    if bytes.isEmpty then ⟨found.reverse, bytes, none⟩
    else match read limit bytes with
      | .ok request rest => readSequence limit rounds (request :: found) rest
      | .error e left => ⟨found.reverse, bytes, some (e, left)⟩

/-- The requests of a byte string. A request has at least two bytes. -/
def sequence (limit : Nat) (bytes : Bytes) : Sequence :=
  readSequence limit (bytes.length + 1) [] bytes

end Request

end FramedStore
