import FramedStore.Proofs.Remote.Runs

/-!
# Calls of one request

A client makes a call by a request, and there is a call for each request (`Remote.ask`). It gives what
the reply to the request gives.
-/

namespace FramedStore

open Effect

/-- The storage call that is forwarded as a request; a sign of life is none. -/
def Request.storageCall? : Request → Option Storage.Call
  | ping => none
  | setAll content => some (.setAll content)
  | getAll => some .getAll
  | delete start stop => some (.delete start stop)
  | append added => some (.append added)
  | slice start stop => some (.slice start stop)
  | size => some .size
  | set start patch => some (.set start patch)

theorem Request.request?_of_storageCall? {request : Request} {call : Storage.Call}
    (h : request.storageCall? = some call) : call.request? = some request := by
  cases request <;> cases h <;> rfl

theorem Request.eq_ping_of_storageCall? {request : Request} (h : request.storageCall? = none) :
    request = .ping := by
  cases request with
  | ping => rfl
  | _ => cases h

/-- What a reply comes to for the caller. -/
def Reply.outcome : Reply → Except Error Storage.Answer
  | .error text => .error (.remote text)
  | reply => .ok reply.answer

theorem Reply.HasShape.outcome_eq {shape : ReplyShape} {reply : Reply} (h : reply.HasShape shape) :
    reply.outcome = .ok reply.answer := by
  cases h <;> rfl

namespace Remote

variable {π : Type} [Peer π] {request : Request} {reply : Reply} {remote remote' : Remote π}

/-- The call of a client that is forwarded as a request. -/
def ask (request : Request) : Effect (Remote π) Storage.Answer :=
  match request.storageCall? with
  | some call => Storage.perform call
  | none => Storage.andDone ping

theorem ask_ok (hshape : reply.HasShape request.replyShape)
    (hcall : call request remote = .ok reply remote') :
    ask request remote = .ok reply.answer remote' := by
  unfold ask
  cases hstorage : request.storageCall? with
  | some made =>
    exact perform_of_call_ok (Request.request?_of_storageCall? hstorage) hshape hcall
  | none =>
    obtain rfl := Request.eq_ping_of_storageCall? hstorage
    exact callDone_ok hshape hcall

theorem ask_error {e : Error} (hcall : call request remote = .error e remote') :
    ask request remote = .error e remote' := by
  unfold ask
  cases hstorage : request.storageCall? with
  | some made => exact perform_of_call_error (Request.request?_of_storageCall? hstorage) hcall
  | none =>
    obtain rfl := Request.eq_ping_of_storageCall? hstorage
    exact bind_error (bind_error hcall)

end Remote

end FramedStore
