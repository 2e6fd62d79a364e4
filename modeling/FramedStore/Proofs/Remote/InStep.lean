import FramedStore.Proofs.Remote.Requests
import FramedStore.Proofs.Wire.Replies

/-!
# Calls and replies stay in step

Replies bear no mark of the call that they answer. Whatever a server sends, a client takes the bytes of
one reply for each call, and after the first call without a reply it sends and takes nothing more
(`InStep`). So no bytes of one reply are taken for another call (`calls_in_step`).
-/

namespace FramedStore.Remote

open Effect

/-- A client with bytes that are received and not yet read, or none if it is closed, and the bytes that
it has sent. -/
def client (limit : Nat) (incoming : Option Bytes) (sent : Bytes) : Remote Script :=
  ⟨⟨limit, incoming⟩, ⟨sent⟩⟩

variable {limit : Nat} {stream rest sent : Bytes} {request : Request} {reply : Reply} {e : Error}

/-! ### One call -/

section Call

variable {α : Type} {reader : Reader α}

theorem receive_ok {a : α} (h : reader stream = .ok a rest) (limit : Nat) (sent : Bytes) :
    receive reader (client limit (some stream) sent) = .ok a (client limit (some rest) sent) := by
  unfold receive
  refine (bind_ok (get_apply _)).trans ?_
  simp only [client, h]
  rfl

theorem receive_error (h : reader stream = .error e rest) (limit : Nat) (sent : Bytes) :
    receive reader (client limit (some stream) sent) = .error e (client limit (some rest) sent) := by
  unfold receive
  refine (bind_ok (get_apply _)).trans ?_
  simp only [client, h]
  rfl

theorem send_open (limit : Nat) (bytes stream sent : Bytes) :
    send bytes (client limit (some stream) sent) =
      .ok ⟨⟩ (client limit (some stream) (sent ++ bytes)) := by
  have hsend : send bytes (client limit (some stream) sent) =
      .ok ⟨⟩ (client limit (some (stream ++ [])) (sent ++ bytes)) := rfl
  rw [hsend, List.append_nil]

theorem hangUp_open (limit : Nat) (stream sent : Bytes) :
    hangUp (client limit (some stream) sent) = .ok ⟨⟩ (client limit none sent) := rfl

/-- A call on an open channel sends the request and reads a reply. -/
theorem call_open (request : Request) (limit : Nat) (stream sent : Bytes) :
    call request (client limit (some stream) sent) =
      (do
        match ← (receive (Reply.read limit request.replyShape)).attempt with
        | .ok (.error text) => throw (.remote text)
        | .ok reply => return reply
        | .error e =>
          hangUp
          throw e : Effect (Remote Script) Reply)
        (client limit (some stream) (sent ++ request.encode)) := by
  unfold call
  refine (bind_ok (get_apply _)).trans ?_
  refine (if_apply ..).trans ?_
  rw [if_neg nofun]
  exact bind_ok (send_open limit request.encode stream sent)

end Call

/-- **A reply is taken off the stream**, also one that says that the call has failed. -/
theorem ask_reply {front : Bytes} (hwritten : Reply.Written limit request.replyShape front reply)
    (hread : Reply.read limit request.replyShape stream = .ok reply rest) (sent : Bytes) :
    step ask request (client limit (some stream) sent) =
      ⟨request, client limit (some stream) sent, reply.outcome,
        client limit (some rest) (sent ++ request.encode)⟩ := by
  have hreceive := receive_ok hread limit (sent ++ request.encode)
  have hattempt := attempt_apply (client limit (some stream) (sent ++ request.encode))
    (receive (Reply.read limit request.replyShape))
  rw [hreceive] at hattempt
  have hcall := (call_open request limit stream sent).trans (bind_ok hattempt)
  cases hwritten with
  | made hshape hle =>
    have hask : ask request (client limit (some stream) sent) =
        .ok reply.answer (client limit (some rest) (sent ++ request.encode)) := by
      refine ask_ok hshape (hcall.trans ?_)
      generalize request.replyShape = shape at hshape
      cases hshape <;> rfl
    rw [step_ok hask, hshape.outcome_eq]
  | @failed text hle =>
    have hfailed : call request (client limit (some stream) sent) =
        .error (.remote (Utf8.lossy text)) (client limit (some rest) (sent ++ request.encode)) :=
      hcall.trans rfl
    rw [step_error (ask_error hfailed)]
    rfl

/-- **Bytes that are no reply close the channel.** -/
theorem ask_unreadable
    (hread : Reply.read limit request.replyShape stream = .error e rest) (sent : Bytes) :
    step ask request (client limit (some stream) sent) =
      ⟨request, client limit (some stream) sent, .error e,
        client limit none (sent ++ request.encode)⟩ := by
  have hreceive := receive_error hread limit (sent ++ request.encode)
  have hattempt := attempt_apply (client limit (some stream) (sent ++ request.encode))
    (receive (Reply.read limit request.replyShape))
  rw [hreceive] at hattempt
  have hcall := (call_open request limit stream sent).trans (bind_ok hattempt)
  have hclosed : call request (client limit (some stream) sent) =
      .error e (client limit none (sent ++ request.encode)) :=
    hcall.trans (bind_ok (hangUp_open limit rest _))
  exact step_error (ask_error hclosed)

/-- A closed channel sends nothing. -/
theorem ask_closed (request : Request) (limit : Nat) (sent : Bytes) :
    step ask request (client limit none sent) =
      ⟨request, client limit none sent, .error (.io .closedConnection), client limit none sent⟩ := by
  have hcall : call request (client limit none sent) =
      .error (.io .closedConnection) (client limit none sent) := rfl
  exact step_error (ask_error hcall)

/-! ### Runs -/

/-- The steps of a client that has `sent` some bytes and to which the server sends `stream`. -/
inductive InStep (limit : Nat) :
    Bytes → Bytes → List (Step Request (Remote Script) Storage.Answer) → Prop
  | done (sent stream : Bytes) : InStep limit sent stream []
  /-- A call sends its request and takes one reply, of which it has its outcome. -/
  | answered {sent front rest : Bytes} {request : Request} {reply : Reply}
    {later : List (Step Request (Remote Script) Storage.Answer)}
    (hreply : Reply.Written limit request.replyShape front reply)
    (hlater : InStep limit (sent ++ request.encode) rest later) :
    InStep limit sent (front ++ rest)
      (⟨request, client limit (some (front ++ rest)) sent, reply.outcome,
        client limit (some rest) (sent ++ request.encode)⟩ :: later)
  /-- A call sends its request and finds no reply, and no later call is made. -/
  | broken {sent stream : Bytes} {request : Request} {e : Error}
    {later : List (Step Request (Remote Script) Storage.Answer)}
    (hnone : Reply.Unreadable limit request.replyShape stream e)
    (hlater : ∀ made ∈ later, made = ⟨made.call, client limit none (sent ++ request.encode),
      .error (.io .closedConnection), client limit none (sent ++ request.encode)⟩) :
    InStep limit sent stream
      (⟨request, client limit (some stream) sent, .error e,
        client limit none (sent ++ request.encode)⟩ :: later)

theorem trace_closed (requests : List Request) (limit : Nat) (sent : Bytes) :
    ∀ made ∈ trace ask requests (client limit none sent),
      made = ⟨made.call, client limit none sent, .error (.io .closedConnection),
        client limit none sent⟩ := by
  induction requests with
  | nil => exact fun _ hmade => absurd hmade List.not_mem_nil
  | cons request requests ih =>
    rw [trace, ask_closed]
    intro made hmade
    rcases List.mem_cons.mp hmade with rfl | hmade
    · rfl
    · exact ih made hmade

theorem trace_inStep (requests : List Request) (limit : Nat) (stream sent : Bytes) :
    InStep limit sent stream (trace ask requests (client limit (some stream) sent)) := by
  induction requests generalizing stream sent with
  | nil => exact .done sent stream
  | cons request requests ih =>
    rw [trace]
    rcases Reply.read_cases limit request.replyShape stream with
      ⟨reply, front, rest, rfl, hwritten, hread⟩ | ⟨e, left, hnone, hread⟩
    · rw [ask_reply hwritten hread]
      exact .answered hwritten (ih rest _)
    · rw [ask_unreadable hread]
      exact .broken hnone (trace_closed requests limit _)

/-- No call meets a reply of another shape than it asks for. -/
theorem InStep.ne_unexpectedReply {steps : List (Step Request (Remote Script) Storage.Answer)}
    (h : InStep limit sent stream steps) :
    ∀ made ∈ steps, made.outcome ≠ .error (.protocol .unexpectedReply) := by
  induction h with
  | done => exact fun _ hmade => absurd hmade List.not_mem_nil
  | @answered _ _ _ _ reply _ hreply _ ih =>
    refine List.forall_mem_cons.mpr ⟨?_, ih⟩
    cases reply <;> nofun
  | broken hnone hlater =>
    refine List.forall_mem_cons.mpr ⟨?_, fun made hmade => ?_⟩
    · intro heq
      exact hnone.ne_unexpectedReply (Except.error.inj heq)
    · rw [hlater made hmade]
      nofun

/-- A session that is opened has had a reply without result. -/
theorem connect_ok {peer : Script} {channel : Channel}
    (h : connect limit stream (⟨[]⟩ : Script) = .ok channel peer) :
    ∃ rest, stream = Reply.done.encode ++ rest ∧
      (⟨channel, peer⟩ : Remote Script) =
        client limit (some rest) (Service.handshake .storage) := by
  have hsend : send (Service.handshake .storage)
      (⟨{ maxPayload := limit, incoming := some stream }, ⟨[]⟩⟩ : Remote Script) =
        .ok ⟨⟩ (client limit (some stream) (Service.handshake .storage)) :=
    send_open limit (Service.handshake .storage) stream []
  have hattempt := attempt_apply (client limit (some stream) (Service.handshake .storage))
    (receive (Reply.read limit .done))
  unfold connect at h
  dsimp only at h
  rw [bind_ok hsend] at h
  rcases Reply.read_cases limit .done stream with ⟨reply, front, rest, rfl, hwritten, hread⟩ |
    ⟨e, left, -, hread⟩
  · rw [receive_ok hread] at hattempt
    rw [bind_ok hattempt] at h
    cases hwritten with
    | made hshape =>
      cases hshape with
      | done =>
        obtain ⟨rfl, rfl⟩ := EStateM.Result.ok.inj h
        exact ⟨rest, rfl, rfl⟩
    | failed hle => cases h
  · rw [receive_error hread] at hattempt
    rw [bind_ok hattempt] at h
    cases h

end FramedStore.Remote
