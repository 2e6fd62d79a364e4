import FramedStore.Session.Handlers

/-!
# Sessions

A session is the server's end of a connection. It takes in bytes and answers the handshake and each
request in turn. `feed` answers what is complete and keeps the rest; `handle` is a whole connection
whose client sends all its bytes and then closes its side.
-/

namespace FramedStore

/-- How far a session has come. -/
inductive Session.Stage
  /-- The handshake has not been read. -/
  | greeting
  /-- Requests are answered. -/
  | serving (service : Service)
  | ended
  deriving Repr, DecidableEq

/-- The server's end of a connection. -/
structure Session where
  /-- The longest payload that is accepted. -/
  maxPayload : Nat
  stage : Session.Stage := .greeting
  /-- Bytes received and not yet read. -/
  input : Bytes := []
  deriving Repr, DecidableEq

namespace Session

variable {σ : Type} [Storage σ]

/-- What a turn of a session comes to. -/
inductive Turn
  /-- A reply is sent, and the session goes on. -/
  | answered (reply : Reply) (next : Session)
  /-- The rest of the bytes makes no sense: the error is sent, and the session ends. -/
  | refused (e : Error)
  /-- The client has gone. -/
  | left
  deriving Repr, DecidableEq

/-- Reads the two bytes that a request starts with. -/
def readPair : Reader (UInt8 × UInt8) := do
  return (← Reader.byte, ← Reader.byte)

/-- Reads the handshake or a request from the input, as though no more bytes were to come, and
answers it. -/
def turn (session : Session) : StateM σ Turn :=
  match session.stage with
  | .ended => return .left
  | .greeting =>
    match Service.read session.input with
    | .ok service rest =>
      return .answered .done { session with stage := .serving service, input := rest }
    | .error (.io _) _ => return .left
    | .error e _ => return .refused e
  | .serving opened =>
    match readPair session.input with
    | .error _ _ => return .left
    | .ok (service, cause) fields =>
      match dispatch session.maxPayload opened service cause fields with
      | .error e _ => return .refused e
      | .ok call rest => do
        return .answered (← respond call) { session with input := rest }

/-! ### A whole connection -/

/-- Answers until the client has gone or makes no sense, for at most `rounds` turns. The bytes sent
are kept in pieces, the last one first. -/
def converse : Nat → Session → List Bytes → StateM σ (List Bytes × Except Error Unit)
  | 0, _, sent => return (sent, .error .unending)
  | rounds + 1, session, sent => do
    match ← session.turn with
    | .left => return (sent, .ok ())
    | .refused e => return ((Reply.error e.message).encode :: sent, .error e)
    | .answered reply next => converse rounds next (reply.encode :: sent)

/-- The bytes sent to a client that sends `input` and then closes its side, and how the session
ends. Every turn but the last reads at least one byte. -/
def handle (maxPayload : Nat) (input : Bytes) : StateM σ (Bytes × Except Error Unit) := do
  let (sent, outcome) ← converse (input.length + 1) { maxPayload, input } []
  return (sent.reverse.flatten, outcome)

/-! ### A connection that stays open -/

/-- Answers what is complete, for at most `rounds` turns. -/
def answerAll : Nat → Session → List Bytes → StateM σ (List Bytes × Session)
  | 0, session, sent => return (sent, session)
  | rounds + 1, session, sent => do
    match ← session.turn with
    | .left => return (sent, session)
    | .refused (.io .endOfInput) => return (sent, session)
    | .refused e =>
      return ((Reply.error e.message).encode :: sent, { session with stage := .ended, input := [] })
    | .answered reply next => answerAll rounds next (reply.encode :: sent)

/-- Takes bytes in and gives those that are sent in answer. A request that is not complete stays in
the input: no call has been made for it. -/
def feed (session : Session) (bytes : Bytes) : StateM σ (Bytes × Session) := do
  let input := session.input ++ bytes
  let (sent, session) ← answerAll (input.length + 1) { session with input } []
  return (sent.reverse.flatten, session)

end Session

end FramedStore
