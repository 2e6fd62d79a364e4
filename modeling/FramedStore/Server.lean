import FramedStore.Remote
import FramedStore.Session.Basic

/-!
# Servers

A server holds one storage for all its sessions. Each accepted connection takes a slot until its
session ends, and a connection that finds no free slot is closed at once.
-/

namespace FramedStore

/-- A server over a storage. -/
structure Server (σ : Type) where
  storage : σ
  maxPayload : Nat
  /-- The number of slots. -/
  maxConnections : Nat
  running : Bool := true
  /-- The number of the next connection, in 64 bits. -/
  nextId : Nat := 0
  /-- The connections that have a slot. -/
  live : List Nat := []
  /-- The sessions that are served. -/
  sessions : List (Nat × Session) := []

/-- The steps of starting a session that can fail. -/
inductive StartStep
  /-- Making the socket wait for bytes. -/
  | unblock
  /-- A second handle of the socket for the slot. -/
  | share
  /-- The two ends of the connection. -/
  | prepare
  | limitTime
  | spawn
  deriving Repr, DecidableEq

namespace Server

variable {σ : Type}

/-- The slots without one. -/
def slotsBut (server : Server σ) (id : Nat) : List Nat := server.live.filter (· ≠ id)

/-- Gives a slot back and ends its session. -/
def vacate (server : Server σ) (id : Nat) : Server σ :=
  { server with
    live := server.slotsBut id
    sessions := server.sessions.filter (·.1 ≠ id) }

/-- Starts a session for an accepted connection; `failing` is the step that fails, if one does. The
slot is taken before the connection is prepared, and only a thread that cannot be started gives it
back. A number has one slot, also when numbers have started over. -/
def start (server : Server σ) (failing : Option StartStep) : Option Nat × Server σ :=
  let id := server.nextId
  let nextId := Offset.add id 1
  match failing with
  | some .unblock => (none, server)
  | some .share => (none, { server with nextId })
  | some .prepare | some .limitTime =>
    (none, { server with nextId, live := id :: server.slotsBut id })
  | some .spawn => (none, { server with nextId, live := server.slotsBut id })
  | none =>
    (some id, { server with
      nextId
      live := id :: server.slotsBut id
      sessions := (id, { maxPayload := server.maxPayload }) :: server.sessions })

/-- Takes a connection in, if there is a free slot. -/
def accept (server : Server σ) (failing : Option StartStep) : Option Nat × Server σ :=
  if server.live.length < server.maxConnections then server.start failing else (none, server)

variable [Storage σ]

/-- Hands bytes to a session and gives those that it sends. -/
def deliver (server : Server σ) (id : Nat) (bytes : Bytes) : Bytes × Server σ :=
  match server.sessions.lookup id with
  | none => ([], server)
  | some session =>
    let ((sent, session), storage) := session.feed bytes server.storage
    let server := { server with storage }
    if session.stage = .ended then (sent, server.vacate id)
    else
      (sent, { server with
        sessions := server.sessions.map fun entry =>
          if entry.1 = id then (id, session) else entry })

/-- What can happen to a running server. -/
inductive Event
  /-- A connection is accepted; `failing` is the step of starting its session that fails, if one
  does. -/
  | accepted (failing : Option StartStep)
  /-- Bytes of a session arrive. -/
  | received (id : Nat) (bytes : Bytes)
  /-- A session ends, as when its peer goes away. -/
  | left (id : Nat)
  deriving Repr, DecidableEq

/-- The server after an event. Only a session that is served can end. -/
def handle (server : Server σ) : Event → Server σ
  | .accepted failing => (server.accept failing).2
  | .received id bytes => (server.deliver id bytes).2
  | .left id => if (server.sessions.lookup id).isSome then server.vacate id else server

/-- The server after some events, one after the other. -/
def serve (server : Server σ) (events : List Event) : Server σ := events.foldl handle server

/-- Ends all sessions and brings the storage to its medium. -/
def shutdown : Effect (Server σ) Unit := do
  modify ({ · with running := false, live := [], sessions := [] })
  .within storage (fun storage server => { server with storage }) Storage.sync

end Server

/-! ### Connections to a server -/

/-- A server as seen from one connection, which may have been refused. -/
structure Link (σ : Type) where
  server : Server σ
  id : Option Nat

namespace Link

variable {σ : Type} [Storage σ]

instance : Peer (Link σ) where
  exchange bytes link := match link.id with
    | none => ([], link)
    | some id =>
      let (sent, server) := link.server.deliver id bytes
      (sent, { link with server })
  hangUp link := match link.id with
    | none => link
    | some id => { link with server := link.server.vacate id }

/-- Connects to the server and opens a storage session. -/
def connect (maxPayload : Nat) : Effect (Server σ) (Channel × Option Nat) := fun server =>
  if server.running then
    let (id, server) := server.accept none
    match Remote.connect maxPayload [] (Link.mk server id) with
    | .ok channel link => .ok (channel, id) link.server
    | .error e link => .error e link.server
  else .error (.io (.system .connectionRefused)) server

/-- Gives a connection up and opens a new one. -/
def reconnect : Effect (Remote (Link σ)) Unit := fun remote =>
  let link := if remote.channel.incoming.isSome then Peer.hangUp remote.peer else remote.peer
  match connect remote.channel.maxPayload link.server with
  | .ok (channel, id) server => .ok () ⟨channel, server, id⟩
  | .error e server => .error e ⟨{ remote.channel with incoming := none }, server, none⟩

end Link

/-! ### A server and its clients -/

/-- A client of a server. -/
structure Client where
  channel : Channel
  id : Option Nat

/-- A server with its clients by name. -/
structure Network (σ : Type) where
  server : Server σ
  clients : List (String × Client) := []

namespace Network

variable {σ : Type} {α : Type}

/-- Runs an effect on the server. -/
def onServer (effect : Effect (Server σ) α) : Effect (Network σ) α :=
  .within server (fun server network => { network with server }) effect

/-- The network with a client in place of one of the same name. -/
def setClient (network : Network σ) (name : String) (client : Client) : Network σ :=
  { network with clients := (name, client) :: network.clients.filter (·.1 ≠ name) }

/-- The server without the slot of a client. -/
def drop (network : Network σ) (name : String) : Server σ :=
  match network.clients.lookup name with
  | some ⟨_, some id⟩ => network.server.vacate id
  | _ => network.server

variable [Storage σ]

/-- Connects a client, which takes the place of an earlier one of its name. -/
def connect (name : String) (maxPayload : Nat) : Effect (Network σ) Unit := do
  let (channel, id) ← onServer (Link.connect maxPayload)
  modify fun network => { network with server := network.drop name }.setClient name ⟨channel, id⟩

/-- Runs an effect on the storage as a client sees it; `none` if there is no client of the name. -/
def run (name : String) (effect : Effect (Remote (Link σ)) α) :
    Effect (Network σ) (Option α) := fun network =>
  match network.clients.lookup name with
  | none => .ok none network
  | some client =>
    let after := fun (remote : Remote (Link σ)) =>
      { network with server := remote.peer.server }.setClient name ⟨remote.channel, client.id⟩
    match effect ⟨client.channel, network.server, client.id⟩ with
    | .ok a remote => .ok (some a) (after remote)
    | .error e remote => .error e (after remote)

end Network

end FramedStore
