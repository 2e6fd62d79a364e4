import FramedStore.Proofs.Session.Answer
import FramedStore.Server

/-!
# Calls of a client that is alone

Between two calls, a client and its server are as after the connection was made, but for the
storage (`Remote.alone`). A call runs its request on the storage of the server; an error there
becomes the text of an error here.
-/

namespace FramedStore

open Effect

/-- The limits of a server and of its client, in 64 bits, and the slots of the server. -/
structure Limits where
  server : Nat
  client : Nat
  slots : Nat
  server_lt : server < Offset.range
  client_lt : client < Offset.range
  slots_pos : 0 < slots

variable {σ : Type} [Storage σ] {limits : Limits} {storage storage' : σ} {request : Request}

/-- A server to which no client has connected. -/
def Server.fresh (limits : Limits) (storage : σ) : Server σ where
  storage := storage
  maxPayload := limits.server
  maxConnections := limits.slots

namespace Remote

/-- A client that is alone at a server, between two calls. -/
def alone (limits : Limits) (storage : σ) : Remote (Link σ) where
  channel := { maxPayload := limits.client }
  peer :=
    { server := { Server.fresh limits storage with
        nextId := 1, live := [0], sessions := [(0, Session.waiting limits.server)] }
      id := some 0 }

/-- A client that connects to a server without clients is alone there. -/
theorem connect_fresh (limits : Limits) (storage : σ) :
    Link.connect limits.client (Server.fresh limits storage) =
      .ok ((alone limits storage).channel, (alone limits storage).peer.id)
        (alone limits storage).peer.server := by
  have hslots := limits.slots_pos
  have haccept : (Server.fresh limits storage).accept none =
      (Server.fresh limits storage).start none := by
    unfold Server.accept
    rw [if_pos]
    exact hslots
  unfold Link.connect
  rw [haccept]
  rfl

theorem deliver_alone (h : request.Sendable limits.server) (storage : σ) :
    (alone limits storage).peer.server.deliver 0 request.encode =
      ((Session.respond request.run storage).1.encode,
        (alone limits (Session.respond request.run storage).2).peer.server) := by
  have hlookup : (alone limits storage).peer.server.sessions.lookup 0 =
      some (Session.waiting limits.server) := rfl
  have hfeed : (Session.waiting limits.server).feed request.encode
      (alone limits storage).peer.server.storage = _ :=
    Session.feed_encode limits.server_lt h storage
  have hstage : (Session.waiting limits.server).stage ≠ .ended := nofun
  unfold Server.deliver
  simp only [hlookup, hfeed]
  rw [if_neg hstage]
  rfl

/-- The connection while a reply of the server has not been read. -/
def answered (limits : Limits) (storage : σ) (reply : Reply) : Remote (Link σ) :=
  { alone limits storage with
    channel := { maxPayload := limits.client, incoming := some reply.encode } }

theorem send_alone (h : request.Sendable limits.server) (storage : σ) :
    send request.encode (alone limits storage) =
      .ok ⟨⟩ (answered limits (Session.respond request.run storage).2
        (Session.respond request.run storage).1) := by
  have hexchange : Peer.exchange request.encode (alone limits storage).peer =
      (((alone limits storage).peer.server.deliver 0 request.encode).1,
        { (alone limits storage).peer with
          server := ((alone limits storage).peer.server.deliver 0 request.encode).2 }) := rfl
  have hsend : send request.encode (alone limits storage) = .ok ⟨⟩
      { channel :=
          { maxPayload := limits.client
            incoming := some (Peer.exchange request.encode (alone limits storage).peer).1 }
        peer := (Peer.exchange request.encode (alone limits storage).peer).2 } := rfl
  rw [hsend, hexchange, deliver_alone h storage]
  rfl

omit [Storage σ] in
theorem receive_answered {shape : ReplyShape} {reply read : Reply}
    (h : Reply.read limits.client shape reply.encode = .ok read []) (storage : σ) :
    receive (Reply.read limits.client shape) (answered limits storage reply) =
      .ok read (alone limits storage) := by
  unfold receive
  refine (bind_ok (get_apply _)).trans ?_
  simp only [answered, h]
  rfl

/-- A call up to the reply that is received. -/
theorem call_alone (hsend : request.Sendable limits.server)
    (hread : Reply.read limits.client request.replyShape
      (Session.respond request.run storage).1.encode =
        .ok (Session.respond request.run storage).1 []) :
    call request (alone limits storage) =
      (match (Session.respond request.run storage).1 with
        | .error text => throw (.remote text)
        | reply => pure reply : Effect (Remote (Link σ)) Reply)
        (alone limits (Session.respond request.run storage).2) := by
  have hreceive := receive_answered hread (Session.respond request.run storage).2
  have hattempt : (receive (Reply.read limits.client request.replyShape)).attempt
      (answered limits (Session.respond request.run storage).2
        (Session.respond request.run storage).1) =
      .ok (.ok (Session.respond request.run storage).1)
        (alone limits (Session.respond request.run storage).2) := by
    rw [attempt_apply, hreceive]
  unfold call
  refine (bind_ok (get_apply _)).trans ?_
  refine (if_apply ..).trans ?_
  rw [if_neg nofun]
  refine (bind_ok (send_alone hsend storage)).trans ?_
  refine (bind_ok hattempt).trans ?_
  cases (Session.respond request.run storage).1 <;> rfl

/-- **A call that is made at the server gives its reply here.** -/
theorem call_ok {reply : Reply} (hsend : request.Sendable limits.server)
    (hrun : request.run storage = .ok reply storage') (hshape : reply.HasShape request.replyShape)
    (hpayload : reply.payload.length ≤ limits.client) :
    call request (alone limits storage) = .ok reply (alone limits storage') := by
  have hrespond := Session.respond_ok hrun
  have hread := Reply.read_encode hshape limits.client_lt hpayload []
  rw [List.append_nil] at hread
  rw [call_alone hsend (by rw [hrespond]; exact hread), hrespond]
  generalize request.replyShape = shape at hshape
  cases hshape <;> rfl

/-- **A call that fails at the server fails here with the text of its error.** -/
theorem call_error {e : Error} (hsend : request.Sendable limits.server)
    (hrun : request.run storage = .error e storage')
    (hpayload : (Utf8.encode e.message).length ≤ limits.client) :
    call request (alone limits storage) =
      .error (.remote e.message) (alone limits storage') := by
  have hrespond := Session.respond_error hrun
  have hread := Reply.read_encode_error request.replyShape limits.client_lt hpayload []
  rw [List.append_nil] at hread
  rw [call_alone hsend (by rw [hrespond]; exact hread), hrespond]
  rfl

/-- A client that is alone gets a sign of life. -/
theorem ping_alone (limits : Limits) (storage : σ) :
    ping (alone limits storage) = .ok ⟨⟩ (alone limits storage) := by
  have hsend : Request.ping.Sendable limits.server := ⟨Nat.zero_le _, nofun⟩
  exact (bind_ok (call_ok hsend rfl .done (Nat.zero_le _))).trans rfl

end Remote

end FramedStore
