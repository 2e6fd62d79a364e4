import FramedStore.Storage.Basic
import FramedStore.Wire.Reply

/-!
# Handlers

A session looks the pair of bytes at the front of a request up in a table. A handler reads the
request's fields and gives the storage call to make. So fields that cannot be read make no call, and
a call that fails is answered like any other.
-/

namespace FramedStore.Session

variable {σ : Type} [Storage σ]

/-! ### Replies -/

/-- A call without result as a reply. -/
def replyDone (call : Effect σ Unit) : Effect σ Reply := do
  call
  return .done

/-- A call for bytes as a reply. -/
def replyBytes (call : Effect σ Bytes) : Effect σ Reply := do
  return .bytes (← call)

/-- A call for a number as a reply. -/
def replySize (call : Effect σ Nat) : Effect σ Reply := do
  return .size (← call)

/-! ### Fields -/

/-- A call with a payload. -/
def withPayload (limit : Nat) (call : Bytes → Effect σ Reply) : Reader (Effect σ Reply) := do
  return call (← Reader.payload limit)

/-- A call with a range. -/
def withRange (call : Nat → Nat → Effect σ Reply) : Reader (Effect σ Reply) := do
  let start ← Reader.number
  let stop ← Reader.number
  return call start stop

/-- A call with a position and a payload. -/
def withPatch (limit : Nat) (call : Nat → Bytes → Effect σ Reply) : Reader (Effect σ Reply) := do
  let start ← Reader.number
  let patch ← Reader.payload limit
  return call start patch

/-! ### The table -/

/-- The handlers of control requests, by cause. -/
def controlHandler? : UInt8 → Option (Reader (Effect σ Reply))
  | 1 => some (pure (pure .done))
  | _ => none

/-- The handlers of storage requests, by cause. -/
def storageHandler? (limit : Nat) : UInt8 → Option (Reader (Effect σ Reply))
  | 1 => some (withPayload limit fun content => replyDone (Storage.setAll content))
  | 2 => some (pure (replyBytes Storage.getAll))
  | 3 => some (withRange fun start stop => replyDone (Storage.delete start stop))
  | 4 => some (withPayload limit fun added => replyDone (Storage.append added))
  | 5 => some (withRange fun start stop => replyBytes (Storage.slice start stop))
  | 6 => some (pure (replySize Storage.size))
  | 7 => some (withPatch limit fun start patch => replyDone (Storage.set start patch))
  | _ => none

/-- The handler for a pair of bytes in a session opened for `opened`. Control requests are there in
every session. -/
def handler? (limit : Nat) (opened : Service) (service cause : UInt8) :
    Option (Reader (Effect σ Reply)) :=
  if service = Service.control.byte then controlHandler? cause
  else if service = Service.storage.byte ∧ opened = .storage then storageHandler? limit cause
  else none

/-- The breach of a pair of bytes without handler. -/
def unhandled (opened : Service) (service cause : UInt8) : Violation :=
  if service = Service.storage.byte ∧ opened = .control then .storageOnControl
  else .unknownRequest service cause

/-- Reads the fields of a request and gives the call. -/
def dispatch (limit : Nat) (opened : Service) (service cause : UInt8) : Reader (Effect σ Reply) :=
  match handler? limit opened service cause with
  | some handler => handler
  | none => throw (.protocol (unhandled opened service cause))

/-- The reply of a call; a failure becomes an error reply. -/
def respond (call : Effect σ Reply) : StateM σ Reply := fun state =>
  match call state with
  | .ok reply state => (reply, state)
  | .error e state => (.error e.message, state)

end FramedStore.Session
