import FramedStore.Proofs.Remote.Halves
import FramedStore.Proofs.Remote.InStep
import FramedStore.Proofs.Wire.ReplyFormat

/-!
# One client and its session

Between two steps, a client with its session has no call outstanding, or its request is on the way to
the session, or the reply is on the way back (`Phase`). So a step of it is one of three, and which one is
decided by the phase (`Stand.Step`, `onLine_eq_some`).
-/

namespace FramedStore

open Effect

/-- Makes the call that is forwarded as a request on a storage that is at hand. -/
def Request.perform {σ : Type} [Storage σ] (request : Request) : Effect σ Storage.Answer :=
  match request.storageCall? with
  | some call => Storage.perform call
  | none => return .done

/-- What a client of a server has of an outcome there: of an error its text. -/
def Remote.seen : Except Error Storage.Answer → Except Error Storage.Answer
  | .ok answer => .ok answer
  | .error e => .error (.remote e.message)

/-- A reply that can be sent to a reader with a limit. -/
structure Reply.Sendable (limit : Nat) (reply : Reply) : Prop where
  payload_le : reply.payload.length ≤ limit
  size_lt : ∀ count, reply = .size count → count < Offset.range

/-! ### Replies -/

section Replies

variable {limit : Nat} {request : Request} {reply : Reply} {memory memory' : Memory}

theorem Request.perform_eq_run (request : Request) (memory : Memory) :
    request.perform memory = Remote.answer (request.run memory) := by
  unfold perform
  cases hcall : request.storageCall? with
  | some call => exact Remote.perform_eq_run (request?_of_storageCall? hcall) memory
  | none =>
    obtain rfl := eq_ping_of_storageCall? hcall
    rfl

/-- A reply to a request is what it would be taken for. -/
theorem Session.written_of_respond (h : respond request.run memory = (reply, memory'))
    (hsendable : reply.Sendable limit) :
    Reply.Written limit request.replyShape reply.encode reply ∧
      reply.outcome = Remote.seen (step Request.perform request memory).outcome ∧
      memory' = (step Request.perform request memory).after := by
  have hperform := request.perform_eq_run memory
  cases hrun : request.run memory with
  | ok made after =>
    rw [respond_ok hrun] at h
    obtain ⟨rfl, rfl⟩ := Prod.mk.inj h
    have hlt : request = .size → memory.content.length < Offset.range := by
      rintro rfl
      obtain ⟨rfl, -⟩ := EStateM.Result.ok.inj hrun
      exact hsendable.size_lt _ rfl
    have hshape := Remote.hasShape_of_run hlt hrun
    rw [hrun] at hperform
    rw [step_ok hperform]
    exact ⟨.made hshape hsendable.payload_le, hshape.outcome_eq, rfl⟩
  | error e after =>
    rw [respond_error hrun] at h
    obtain ⟨rfl, rfl⟩ := Prod.mk.inj h
    rw [hrun] at hperform
    rw [step_error hperform]
    have hwritten : Reply.Written limit request.replyShape
        (Reply.errorStatus :: Wire.payload (Utf8.encode e.message))
        (.error (Utf8.lossy (Utf8.encode e.message))) := .failed hsendable.payload_le
    rw [Utf8.lossy_encode] at hwritten
    exact ⟨hwritten, rfl, rfl⟩

/-- A successful reply has the shape that the request asks for. -/
theorem Reply.answerTo_of_written {front : Bytes}
    (h : Reply.Written limit request.replyShape front reply)
    (hmade : ∀ text, reply ≠ .error text) : reply.answerTo request = .ok reply.answer := by
  cases h with
  | failed => exact absurd rfl (hmade _)
  | made hshape =>
    unfold answerTo
    generalize request.replyShape = shape at hshape
    cases hshape <;> rfl

end Replies

namespace Traffic

open Remote (client)

/-! ### Phases -/

/-- How far a client has come with a call. -/
inductive Phase
  | idle
  /-- The request is on its way to the session. -/
  | posted (request : Request)
  /-- The reply is on its way to the client. -/
  | answered (request : Request) (reply : Reply)

/-- The request of the call that waits for its reply. -/
def Phase.request? : Phase → Option Request
  | idle => none
  | posted request | answered request _ => some request

/-- The reply that the client has not received. -/
def Phase.reply? : Phase → Option Reply
  | answered _ reply => some reply
  | _ => none

/-- The bytes on their way to the session. -/
def Phase.outgoing : Phase → Bytes
  | posted request => request.encode
  | _ => []

/-- The bytes on their way to the client. -/
def Phase.incoming : Phase → Bytes
  | answered _ reply => reply.encode
  | _ => []

/-- Where a client stands: the requests to come, what came of its calls, and its phase. -/
structure Stand where
  program : List Request
  outcomes : List (Except Error Storage.Answer)
  phase : Phase

/-- A client that stands somewhere, with its session. -/
def Stand.line (serverLimit limit : Nat) (stand : Stand) : Line where
  remote := client limit (some stand.phase.incoming) stand.phase.outgoing
  session := .waiting serverLimit
  program := stand.program
  outstanding := stand.phase.request?
  outcomes := stand.outcomes

/-- What a client sends is within the limits, and so is what it is to receive. -/
structure Stand.Sound (serverLimit limit : Nat) (stand : Stand) : Prop where
  program : ∀ request ∈ stand.program, request.Sendable serverLimit
  posted : ∀ request, stand.phase = .posted request → request.Sendable serverLimit
  answered : ∀ request reply, stand.phase = .answered request reply →
    Reply.Written limit request.replyShape reply.encode reply

/-- A step of a client or its session. -/
inductive Stand.Step (number : Nat) : Stand → Memory → Event → Stand → Memory → Prop
  | sent (request : Request) (program : List Request)
    (outcomes : List (Except Error Storage.Answer)) (memory : Memory) :
    Step number ⟨request :: program, outcomes, .idle⟩ memory
      (.sent ⟨number, outcomes.length⟩ request) ⟨program, outcomes, .posted request⟩ memory
  | answered {request : Request} {memory memory' : Memory} {reply : Reply}
    (program : List Request) (outcomes : List (Except Error Storage.Answer))
    (h : Session.respond request.run memory = (reply, memory')) :
    Step number ⟨program, outcomes, .posted request⟩ memory
      (.answered ⟨number, outcomes.length⟩ reply) ⟨program, outcomes, .answered request reply⟩ memory'
  | received (request : Request) (reply : Reply) (program : List Request)
    (outcomes : List (Except Error Storage.Answer)) (memory : Memory) :
    Step number ⟨program, outcomes, .answered request reply⟩ memory
      (.received ⟨number, outcomes.length⟩ reply.outcome)
      ⟨program, outcomes ++ [reply.outcome], .idle⟩ memory

/-! ### What an action comes to -/

section Actions

variable {serverLimit limit number : Nat} {request : Request} {reply : Reply}
  {program : List Request} {outcomes : List (Except Error Storage.Answer)}
  {memory memory' : Memory}

theorem send_idle (serverLimit limit number : Nat) (request : Request) (program : List Request)
    (outcomes : List (Except Error Storage.Answer)) :
    (Stand.line serverLimit limit ⟨request :: program, outcomes, .idle⟩).send number =
      some (.sent ⟨number, outcomes.length⟩ request,
        Stand.line serverLimit limit ⟨program, outcomes, .posted request⟩) := by
  have hpost : Remote.post request (client limit (some []) []) =
      .ok ⟨⟩ (client limit (some []) request.encode) :=
    (Remote.post_open rfl request).trans (Remote.send_open limit request.encode [] [])
  unfold Line.send
  simp only [Stand.line, Phase.request?, Phase.incoming, Phase.outgoing, hpost]
  rfl

theorem answer_of_turn (line : Line) {next : Session}
    (h : ({ line.session with input := line.session.input ++ line.remote.peer.received } :
      Session).turn memory = (.answered reply next, memory')) :
    line.answer number memory =
      (some (.answered (line.callId number) reply, line.replied reply next), memory') := by
  unfold Line.answer
  exact (stateM_bind h).trans rfl

theorem answer_posted (hserver : serverLimit < Offset.range) (h : request.Sendable serverLimit)
    (hrespond : Session.respond request.run memory = (reply, memory')) :
    (Stand.line serverLimit limit ⟨program, outcomes, .posted request⟩).answer number memory =
      (some (.answered ⟨number, outcomes.length⟩ reply,
        Stand.line serverLimit limit ⟨program, outcomes, .answered request reply⟩), memory') := by
  have hturn := Session.turn_encode hserver h memory
  rw [hrespond] at hturn
  exact answer_of_turn (Stand.line serverLimit limit ⟨program, outcomes, .posted request⟩) hturn

/-- A reply that is there gives the outcome of the call. -/
theorem collect_written (hlimit : limit < Offset.range)
    (h : Reply.Written limit request.replyShape reply.encode reply) :
    Remote.collect request (client limit (some reply.encode) []) = match reply.outcome with
      | .ok answer => .ok answer (client limit (some []) [])
      | .error e => .error e (client limit (some []) []) := by
  have hread := (Reply.exact_read hlimit request.replyShape).complete h []
  rw [List.append_nil] at hread
  have hreceive : Remote.receive (Reply.read
        (client limit (some reply.encode) []).channel.maxPayload request.replyShape)
      (client limit (some reply.encode) []) = .ok reply (client limit (some []) []) :=
    Remote.receive_ok hread limit []
  have hattempt := attempt_apply (client limit (some reply.encode) []) (Remote.receive (Reply.read
    (client limit (some reply.encode) []).channel.maxPayload request.replyShape))
  rw [hreceive] at hattempt
  refine (Remote.collect_of_attempt hattempt).trans ?_
  cases reply with
  | error text => rfl
  | done | bytes | size =>
    have hanswer := Reply.answerTo_of_written h nofun
    simp only [hanswer]
    rfl

theorem receive_answered (hlimit : limit < Offset.range)
    (h : Reply.Written limit request.replyShape reply.encode reply) :
    (Stand.line serverLimit limit ⟨program, outcomes, .answered request reply⟩).receive number =
      some (.received ⟨number, outcomes.length⟩ reply.outcome,
        Stand.line serverLimit limit ⟨program, outcomes ++ [reply.outcome], .idle⟩) := by
  have hcollect := collect_written hlimit h
  unfold Line.receive
  simp only [Stand.line, Phase.request?, Phase.incoming, Phase.outgoing, hcollect]
  cases reply <;> rfl

/-- **A step of a client is the one that its phase allows.** -/
theorem onLine_eq_some (hserver : serverLimit < Offset.range) (hlimit : limit < Offset.range)
    {stand : Stand} (hsound : stand.Sound serverLimit limit) {action : Action} {event : Event}
    {line : Line}
    (h : action.onLine (stand.line serverLimit limit) memory = (some (event, line), memory')) :
    ∃ next, line = next.line serverLimit limit ∧
      stand.Step action.client memory event next memory' := by
  obtain ⟨program, outcomes, phase⟩ := stand
  cases action with
  | send number =>
    obtain ⟨hsend, rfl⟩ := Prod.mk.inj h
    cases phase with
    | posted | answered => cases hsend
    | idle =>
      cases program with
      | nil => cases hsend
      | cons request program =>
        rw [send_idle] at hsend
        obtain ⟨rfl, rfl⟩ := Prod.mk.inj (Option.some.inj hsend)
        exact ⟨_, rfl, .sent request program outcomes memory⟩
  | answer number =>
    cases phase with
    | idle | answered => cases h
    | posted request =>
      obtain ⟨reply, memory'', hrespond⟩ :
          ∃ reply memory'', Session.respond request.run memory = (reply, memory'') := ⟨_, _, rfl⟩
      have hanswer := (answer_posted hserver (hsound.posted request rfl) hrespond).symm.trans h
      obtain ⟨hsome, rfl⟩ := Prod.mk.inj hanswer
      obtain ⟨rfl, rfl⟩ := Prod.mk.inj (Option.some.inj hsome)
      exact ⟨_, rfl, .answered program outcomes hrespond⟩
  | receive number =>
    obtain ⟨hreceive, rfl⟩ := Prod.mk.inj h
    cases phase with
    | idle | posted => cases hreceive
    | answered request reply =>
      rw [receive_answered hlimit (hsound.answered request reply rfl)] at hreceive
      obtain ⟨rfl, rfl⟩ := Prod.mk.inj (Option.some.inj hreceive)
      exact ⟨_, rfl, .received request reply program outcomes memory⟩

/-- A client that has not come to its end can take a step, or its session can. -/
theorem exists_onLine (hserver : serverLimit < Offset.range) (hlimit : limit < Offset.range)
    {stand : Stand} (hsound : stand.Sound serverLimit limit) (number : Nat) (memory : Memory) :
    stand.program = [] ∧ stand.phase = .idle ∨ ∃ (action : Action) (event : Event) (line : Line)
      (memory' : Memory), action.client = number ∧
        action.onLine (stand.line serverLimit limit) memory = (some (event, line), memory') := by
  obtain ⟨program, outcomes, phase⟩ := stand
  cases phase with
  | idle =>
    cases program with
    | nil => exact .inl ⟨rfl, rfl⟩
    | cons request program =>
      have hsend := send_idle serverLimit limit number request program outcomes
      exact .inr ⟨.send number, _, _, memory, rfl, congrArg (·, memory) hsend⟩
  | posted request =>
    exact .inr ⟨.answer number, _, _, _, rfl,
      answer_posted hserver (hsound.posted request rfl) rfl⟩
  | answered request reply =>
    have hreceive : (Stand.line serverLimit limit ⟨program, outcomes, .answered request reply⟩).receive
        number = _ := receive_answered hlimit (hsound.answered request reply rfl)
    exact .inr ⟨.receive number, _, _, memory, rfl, congrArg (·, memory) hreceive⟩

end Actions

end Traffic

end FramedStore
