import FramedStore.Remote
import FramedStore.Session.Basic
import FramedStore.Storage.Call

/-!
# Clients of one server side by side

Each client of a server has a session of its own, and the sessions share the storage of the server. In
a step a client sends the request of its next call, a session answers the request that it has received,
or a client receives the reply to its call, so that the steps of others can stand between any two of
these. A client has one call at a time.
-/

namespace FramedStore

/-! ### The halves of a call -/

/-- What a reply gives to the caller who made a request. -/
def Reply.answerTo (request : Request) (reply : Reply) : Except Error Storage.Answer :=
  match request.replyShape, reply with
  | .done, _ => .ok .done
  | .bytes, .bytes content => .ok (.bytes content)
  | .size, .size count => .ok (.size count)
  | _, _ => .error (.protocol .unexpectedReply)

namespace Remote

variable {π : Type} [Peer π]

/-- The first half of a call: the request is sent. -/
def post (request : Request) : Effect (Remote π) Unit := do
  if (← get).channel.incoming.isNone then throw (.io .closedConnection)
  send request.encode

/-- The second half of a call: the reply is received. -/
def collect (request : Request) : Effect (Remote π) Storage.Answer := do
  let channel := (← get).channel
  match ← (receive (Reply.read channel.maxPayload request.replyShape)).attempt with
  | .ok (.error text) => throw (.remote text)
  | .ok reply => .ofExcept (reply.answerTo request)
  | .error e =>
    hangUp
    throw e

end Remote

/-! ### One client -/

namespace Traffic

/-- A call of a client, by the number of the client and the number of calls that it made before. -/
structure CallId where
  client : Nat
  index : Nat
  deriving Repr, DecidableEq

/-- What happens in a step. -/
inductive Event
  /-- A client sent the request of a call. -/
  | sent (id : CallId) (request : Request)
  /-- The session of a client made a call on the storage and sent the reply. -/
  | answered (id : CallId) (reply : Reply)
  /-- The session of a client ended with bytes that are no request. -/
  | refused (client : Nat) (e : Error)
  /-- A call of a client ended. -/
  | received (id : CallId) (outcome : Except Error Storage.Answer)

/-- A client with its session. What the client has sent and the session has not received is still with
the client's peer. -/
structure Line where
  remote : Remote Script
  session : Session
  /-- The requests that the client has not sent. -/
  program : List Request
  /-- The request of the call that waits for its reply. -/
  outstanding : Option Request := none
  /-- What came of the calls that have ended. -/
  outcomes : List (Except Error Storage.Answer) := []

namespace Line

variable {σ : Type} [Storage σ]

/-- The call that is outstanding, or else the next one. -/
def callId (number : Nat) (line : Line) : CallId := ⟨number, line.outcomes.length⟩

/-- The call has ended. -/
def finish (line : Line) (outcome : Except Error Storage.Answer) (remote : Remote Script) : Line :=
  { line with remote, outstanding := none, outcomes := line.outcomes ++ [outcome] }

/-- The client sends its next request; `none` if it waits for a reply or has no more calls to make. -/
def send (number : Nat) (line : Line) : Option (Event × Line) :=
  match line.outstanding, line.program with
  | none, request :: program =>
    match Remote.post request line.remote with
    | .ok _ remote =>
      some (.sent (line.callId number) request,
        { line with remote, program, outstanding := some request })
    | .error e remote =>
      some (.received (line.callId number) (.error e),
        { line with program }.finish (.error e) remote)
  | _, _ => none

/-- The session sends a reply and goes on. -/
def replied (line : Line) (reply : Reply) (session : Session) : Line :=
  let incoming := line.remote.channel.incoming.map (· ++ reply.encode)
  { line with session, remote := ⟨{ line.remote.channel with incoming }, {}⟩ }

/-- The session receives what the client has sent and answers a request; `none` if there is none, or
not all of it. -/
def answer (number : Nat) (line : Line) : StateM σ (Option (Event × Line)) := do
  let input := line.session.input ++ line.remote.peer.received
  match ← { line.session with input }.turn with
  | .answered reply next => return some (.answered (line.callId number) reply, line.replied reply next)
  | .refused (.io .endOfInput) => return none
  | .refused e =>
    return some (.refused number e,
      line.replied (.error e.message) { line.session with stage := .ended, input := [] })
  | .left => return none

/-- The client receives the reply to its call; `none` if it has no call or not all of the reply is
there. -/
def receive (number : Nat) (line : Line) : Option (Event × Line) :=
  match line.outstanding with
  | none => none
  | some request =>
    match Remote.collect request line.remote with
    | .ok answer remote =>
      some (.received (line.callId number) (.ok answer), line.finish (.ok answer) remote)
    | .error (.io .endOfInput) _ => none
    | .error e remote =>
      some (.received (line.callId number) (.error e), line.finish (.error e) remote)

end Line

/-- A client of a server: the longest payload that it accepts, and the calls that it makes. -/
structure User where
  maxPayload : Nat
  program : List Request

/-- A client whose session has been opened. -/
def User.line (serverLimit : Nat) (user : User) : Line where
  remote := ⟨{ maxPayload := user.maxPayload }, {}⟩
  session := { maxPayload := serverLimit, stage := .serving .storage }
  program := user.program

end Traffic

/-! ### All clients -/

/-- The storage of a server, and its clients. -/
structure Traffic (σ : Type) where
  storage : σ
  lines : List Traffic.Line

namespace Traffic

variable {σ : Type} [Storage σ]

/-- Clients that have not made a call. -/
def start (serverLimit : Nat) (storage : σ) (users : List User) : Traffic σ where
  storage
  lines := users.map (·.line serverLimit)

/-- What a client or its session can do. -/
inductive Action
  | send (client : Nat)
  | answer (client : Nat)
  | receive (client : Nat)
  deriving Repr, DecidableEq

/-- The client of an action. -/
def Action.client : Action → Nat
  | send client | answer client | receive client => client

/-- What an action comes to for the client and the storage; `none` if it is not possible. -/
def Action.onLine (line : Line) : Action → StateM σ (Option (Event × Line))
  | send client => return line.send client
  | answer client => line.answer client
  | receive client => return line.receive client

/-- Does what a client or its session can do; `none` if that is not possible. -/
def act (traffic : Traffic σ) (action : Action) : Option (Event × Traffic σ) :=
  match traffic.lines[action.client]? with
  | none => none
  | some line => match action.onLine line traffic.storage with
    | (some (event, line), storage) =>
      some (event, ⟨storage, traffic.lines.set action.client line⟩)
    | (none, _) => none

/-- A step of some client or session. -/
def Step (traffic : Traffic σ) (event : Event) (next : Traffic σ) : Prop :=
  ∃ action, traffic.act action = some (event, next)

/-- Steps in any order, with what happened in them. -/
inductive Run (first : Traffic σ) : List Event → Traffic σ → Prop
  | nil : Run first [] first
  | snoc {events : List Event} {event : Event} {traffic next : Traffic σ} :
    Run first events traffic → Step traffic event next → Run first (events ++ [event]) next

/-- The actions of a list, one after the other. -/
def follow (traffic : Traffic σ) : List Action → Option (List Event × Traffic σ)
  | [] => some ([], traffic)
  | action :: actions => do
    let (event, next) ← traffic.act action
    let (events, last) ← next.follow actions
    return (event :: events, last)

end Traffic

end FramedStore
