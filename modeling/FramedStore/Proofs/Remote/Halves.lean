import FramedStore.Proofs.Remote.Requests
import FramedStore.Traffic

/-!
# A call is its two halves

A client that makes a call sends the request and then receives the reply, with nothing in between
(`Remote.ask_eq_halves`).
-/

namespace FramedStore.Remote

open Effect

variable {π : Type} [Peer π] {request : Request} {reply : Reply} {remote remote' : Remote π}

/-! ### What a reply gives -/

theorem callBytes_of_call (hcall : call request remote = .ok reply remote') :
    (do return .bytes (← callBytes request) : Effect (Remote π) Storage.Answer) remote =
      match reply with
      | .bytes content => .ok (.bytes content) remote'
      | _ => .error (.protocol .unexpectedReply) remote' := by
  cases reply with
  | bytes content => exact callBytes_ok (.bytes content) hcall
  | done | size | error =>
    have hbytes : callBytes request remote = .error (.protocol .unexpectedReply) remote' :=
      (bind_ok hcall).trans rfl
    exact bind_error hbytes

theorem callSize_of_call (hcall : call request remote = .ok reply remote') :
    (do return .size (← callSize request) : Effect (Remote π) Storage.Answer) remote =
      match reply with
      | .size count => .ok (.size count) remote'
      | _ => .error (.protocol .unexpectedReply) remote' := by
  cases reply with
  | size count =>
    have hsize : callSize request remote = .ok count remote' := (bind_ok hcall).trans rfl
    exact (bind_ok hsize).trans rfl
  | done | bytes | error =>
    have hsize : callSize request remote = .error (.protocol .unexpectedReply) remote' :=
      (bind_ok hcall).trans rfl
    exact bind_error hsize

theorem callDone_of_call (hcall : call request remote = .ok reply remote') :
    Storage.andDone (callDone request) remote = .ok .done remote' := by
  have hdone : callDone request remote = .ok ⟨⟩ remote' := (bind_ok hcall).trans rfl
  exact (bind_ok hdone).trans rfl

/-- A call gives what its reply gives to the one who made the request. -/
theorem ask_of_call (hcall : call request remote = .ok reply remote') :
    ask request remote = match reply.answerTo request with
      | .ok answer => .ok answer remote'
      | .error e => .error e remote' := by
  cases request with
  | ping | setAll | append | set | delete => exact callDone_of_call hcall
  | getAll | slice =>
    refine (callBytes_of_call hcall).trans ?_
    cases reply <;> rfl
  | size =>
    refine (callSize_of_call hcall).trans ?_
    cases reply <;> rfl

/-! ### The halves -/

theorem post_open {bytes : Bytes} (h : remote.channel.incoming = some bytes) (request : Request) :
    post request remote = send request.encode remote := by
  unfold post
  refine (bind_ok (get_apply remote)).trans ?_
  refine (if_apply ..).trans ?_
  rw [h]
  rfl

theorem post_closed (h : remote.channel.incoming = none) (request : Request) :
    post request remote = .error (.io .closedConnection) remote := by
  unfold post
  refine (bind_ok (get_apply remote)).trans ?_
  refine (if_apply ..).trans ?_
  rw [h]
  rfl

theorem exists_hangUp (remote : Remote π) : ∃ closed, hangUp remote = .ok ⟨⟩ closed := by
  have hangUp_apply : hangUp remote = _ := bind_ok (get_apply remote)
  rw [hangUp_apply, if_apply]
  split <;> exact ⟨_, rfl⟩

section Open

variable {bytes : Bytes} {sent after : Remote π} {outcome : Except Error Reply}

/-- An open client sends the request, and then what is received decides. -/
theorem call_of_attempt (h : remote.channel.incoming = some bytes)
    (hsend : send request.encode remote = .ok ⟨⟩ sent) :
    (receive (Reply.read remote.channel.maxPayload request.replyShape)).attempt sent =
      .ok outcome after →
    call request remote = (match outcome with
      | .ok (.error text) => throw (.remote text)
      | .ok reply => return reply
      | .error e => do
        hangUp
        throw e : Effect (Remote π) Reply) after := by
  intro hreceive
  unfold call
  refine (bind_ok (get_apply remote)).trans ?_
  refine (if_apply ..).trans ?_
  rw [h]
  exact (bind_ok hsend).trans (bind_ok hreceive)

theorem collect_of_attempt :
    (receive (Reply.read sent.channel.maxPayload request.replyShape)).attempt sent =
      .ok outcome after →
    collect request sent = (match outcome with
      | .ok (.error text) => throw (.remote text)
      | .ok reply => Effect.ofExcept (reply.answerTo request)
      | .error e => do
        hangUp
        throw e : Effect (Remote π) Storage.Answer) after := by
  intro hreceive
  unfold collect
  exact (bind_ok (get_apply sent)).trans (bind_ok hreceive)

end Open

/-- **A call is its two halves**, one right after the other. -/
theorem ask_eq_halves (request : Request) (remote : Remote π) :
    ask request remote =
      (do
        post request
        collect request : Effect (Remote π) Storage.Answer) remote := by
  cases hincoming : remote.channel.incoming with
  | none =>
    have hcall : call request remote = .error (.io .closedConnection) remote := by
      unfold call
      refine (bind_ok (get_apply remote)).trans ?_
      refine (if_apply ..).trans ?_
      rw [hincoming]
      rfl
    rw [ask_error hcall]
    exact (bind_error (post_closed hincoming request)).symm
  | some bytes =>
    obtain ⟨sent, hsend⟩ : ∃ sent, send request.encode remote = .ok ⟨⟩ sent := ⟨_, rfl⟩
    have hlimit : sent.channel.maxPayload = remote.channel.maxPayload := by
      cases hsend
      rfl
    obtain ⟨outcome, after, hreceive⟩ := exists_attempt sent
      (receive (Reply.read remote.channel.maxPayload request.replyShape) : Effect (Remote π) Reply)
    have hcall := call_of_attempt hincoming hsend hreceive
    rw [← hlimit] at hreceive
    have hcollect := collect_of_attempt hreceive
    rw [bind_ok ((post_open hincoming request).trans hsend)]
    rcases outcome with e | reply
    · obtain ⟨closed, hclosed⟩ := exists_hangUp after
      have hfailed : call request remote = .error e closed := hcall.trans (bind_ok hclosed)
      rw [ask_error hfailed]
      exact (hcollect.trans (bind_ok hclosed)).symm
    · refine Eq.trans ?_ hcollect.symm
      cases reply with
      | error text => exact ask_error hcall
      | done | bytes | size =>
        rw [ask_of_call hcall]
        cases request <;> rfl

end FramedStore.Remote
