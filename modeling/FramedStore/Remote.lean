import FramedStore.Storage.Basic
import FramedStore.Wire.Reply

/-!
# Remote storages

A remote storage makes each call by one request to a server and reads one reply. A call whose reply
cannot be read leaves bytes of unknown meaning behind, so it closes the connection; an error reply
is an answer like any other, and the connection stays open.
-/

namespace FramedStore

/-- The other end of a connection. -/
class Peer (π : Type) where
  /-- Takes bytes and gives those sent back before more bytes come. -/
  exchange (bytes : Bytes) (peer : π) : Bytes × π
  /-- The connection has been closed from this end. -/
  hangUp (peer : π) : π

/-- The client's end of a connection. -/
structure Channel where
  /-- The longest payload that is accepted. -/
  maxPayload : Nat
  /-- Bytes received and not yet read; `none` once the connection is closed. -/
  incoming : Option Bytes := some []
  deriving Repr, DecidableEq

/-- A storage at the other end of a connection. -/
structure Remote (π : Type) where
  channel : Channel
  peer : π

namespace Remote

variable {π : Type} {α : Type} [Peer π]

/-- Sets the bytes that are received and not yet read. -/
def setIncoming (incoming : Option Bytes) : Effect (Remote π) Unit :=
  modify fun remote => { remote with channel := { remote.channel with incoming } }

/-- Sends bytes to the peer; what it sends back joins the bytes received. -/
def send (bytes : Bytes) : Effect (Remote π) Unit :=
  modify fun remote =>
    let (answer, peer) := Peer.exchange bytes remote.peer
    let incoming := remote.channel.incoming.map (· ++ answer)
    { remote with channel := { remote.channel with incoming }, peer }

/-- Closes the connection, if it is open. -/
def hangUp : Effect (Remote π) Unit := do
  if (← get).channel.incoming.isSome then
    setIncoming none
    modify fun remote => { remote with peer := Peer.hangUp remote.peer }

/-- Reads from the bytes received. -/
def receive (reader : Reader α) : Effect (Remote π) α := do
  match (← get).channel.incoming with
  | none => throw (.io .closedConnection)
  | some bytes =>
    match reader bytes with
    | .ok a rest =>
      setIncoming (some rest)
      return a
    | .error e rest =>
      setIncoming (some rest)
      throw e

/-- Sends a request and reads its reply. -/
def call (request : Request) : Effect (Remote π) Reply := do
  let channel := (← get).channel
  if channel.incoming.isNone then throw (.io .closedConnection)
  send request.encode
  match ← (receive (Reply.read channel.maxPayload request.replyShape)).attempt with
  | .ok (.error text) => throw (.remote text)
  | .ok reply => return reply
  | .error e =>
    hangUp
    throw e

/-- A call whose reply is a payload. -/
def callBytes (request : Request) : Effect (Remote π) Bytes := do
  match ← call request with
  | .bytes content => return content
  | _ => throw (.protocol .unexpectedReply)

/-- A call whose reply is a number. -/
def callSize (request : Request) : Effect (Remote π) Nat := do
  match ← call request with
  | .size size => return size
  | _ => throw (.protocol .unexpectedReply)

/-- A call without result. -/
def callDone (request : Request) : Effect (Remote π) Unit := do
  let _ ← call request

/-- Asks for a sign of life. -/
def ping : Effect (Remote π) Unit := callDone .ping

/-- Opens a storage session on a connection on which `incoming` has already been received. A session
that is refused is closed. -/
def connect (maxPayload : Nat) (incoming : Bytes) : Effect π Channel := fun peer =>
  let opening : Effect (Remote π) Channel := do
    send Service.storage.handshake
    match ← (receive (Reply.read maxPayload .done)).attempt with
    | .ok (.error text) =>
      hangUp
      throw (.remote text)
    | .ok _ => return (← get).channel
    | .error e =>
      hangUp
      throw e
  match opening ⟨{ maxPayload, incoming := some incoming }, peer⟩ with
  | .ok channel remote => .ok channel remote.peer
  | .error e remote => .error e remote.peer

instance : Storage (Remote π) where
  size := callSize .size
  slice start stop := callBytes (.slice start stop)
  setAll content := callDone (.setAll content)
  append added := callDone (.append added)
  set start patch := callDone (.set start patch)
  delete start stop := callDone (.delete start stop)
  getAll := callBytes .getAll
  close := hangUp

end Remote

/-! ### Peers that follow a script -/

/-- A peer that has sent all its bytes at once and only notes those it receives. -/
structure Script where
  received : Bytes := []
  deriving Repr, DecidableEq

instance : Peer Script where
  exchange bytes script := ([], ⟨script.received ++ bytes⟩)
  hangUp := id

end FramedStore
