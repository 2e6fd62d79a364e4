import FramedStore.Proofs.Storage.Memory
import FramedStore.Proofs.Wire.Messages
import FramedStore.Session.Basic

/-!
# A session answers a request

A request that has come in whole is answered with the reply of its call on the storage
(`Request.run`), and the session waits for the next one.
-/

namespace FramedStore

open Effect

variable {σ : Type} {limit : Nat} {request : Request}

/-- The call that a request asks for, and its reply. -/
def Request.run [Storage σ] : Request → Effect σ Reply
  | .ping => pure .done
  | .setAll content => Session.replyDone (Storage.setAll content)
  | .getAll => Session.replyBytes Storage.getAll
  | .delete start stop => Session.replyDone (Storage.delete start stop)
  | .append added => Session.replyDone (Storage.append added)
  | .slice start stop => Session.replyBytes (Storage.slice start stop)
  | .size => Session.replySize Storage.size
  | .set start patch => Session.replyDone (Storage.set start patch)

namespace Session

/-! ### Fields -/

section Fields

variable (hlimit : limit < Offset.range) (rest : Bytes)

theorem withRange_apply (call : Nat → Nat → Effect σ Reply) {start stop : Nat}
    (hstart : start < Offset.range) (hstop : stop < Offset.range) :
    withRange call (Wire.number start ++ Wire.number stop ++ rest) = .ok (call start stop) rest := by
  unfold withRange
  rw [List.append_assoc]
  refine (bind_ok (Reader.number_apply hstart _)).trans ?_
  exact (bind_ok (Reader.number_apply hstop rest)).trans rfl

include hlimit

theorem withPayload_apply (call : Bytes → Effect σ Reply) {content : Bytes}
    (h : content.length ≤ limit) :
    withPayload limit call (Wire.payload content ++ rest) = .ok (call content) rest :=
  (bind_ok (Reader.payload_apply hlimit h rest)).trans rfl

theorem withPatch_apply (call : Nat → Bytes → Effect σ Reply) {start : Nat} {patch : Bytes}
    (hstart : start < Offset.range) (h : patch.length ≤ limit) :
    withPatch limit call (Wire.number start ++ Wire.payload patch ++ rest) =
      .ok (call start patch) rest := by
  unfold withPatch
  rw [List.append_assoc]
  refine (bind_ok (Reader.number_apply hstart _)).trans ?_
  exact (bind_ok (Reader.payload_apply hlimit h rest)).trans rfl

/-- **The handler of a request reads all its fields, and makes its call.** -/
theorem dispatch_apply [Storage σ] (h : request.Sendable limit) :
    dispatch limit .storage request.service.byte request.cause (request.fields ++ rest) =
      .ok (request.run : Effect σ Reply) rest := by
  have hpayload := h.payload_le
  have hpositions := h.positions_lt
  cases request with
  | ping => rfl
  | getAll => rfl
  | size => rfl
  | setAll content => exact withPayload_apply hlimit rest _ hpayload
  | append added => exact withPayload_apply hlimit rest _ hpayload
  | delete start stop =>
    exact withRange_apply rest _ (hpositions start (by simp [Request.positions]))
      (hpositions stop (by simp [Request.positions]))
  | slice start stop =>
    exact withRange_apply rest _ (hpositions start (by simp [Request.positions]))
      (hpositions stop (by simp [Request.positions]))
  | set start patch =>
    exact withPatch_apply hlimit rest _ (hpositions start (by simp [Request.positions])) hpayload

end Fields

/-! ### Turns -/

theorem respond_ok {run : Effect σ Reply} {reply : Reply} {storage storage' : σ}
    (h : run storage = .ok reply storage') : respond run storage = (reply, storage') := by
  unfold respond
  rw [h]

theorem respond_error {run : Effect σ Reply} {e : Error} {storage storage' : σ}
    (h : run storage = .error e storage') :
    respond run storage = (.error e.message, storage') := by
  unfold respond
  rw [h]

variable [Storage σ]

/-- A session that is open for storage requests and waits for one. -/
def waiting (limit : Nat) : Session := { maxPayload := limit, stage := .serving .storage }

theorem turn_encode (hlimit : limit < Offset.range) (h : request.Sendable limit) (storage : σ) :
    ({ waiting limit with input := request.encode } : Session).turn storage =
      (.answered (respond request.run storage).1 (waiting limit),
        (respond request.run storage).2) := by
  have hdispatch := dispatch_apply (σ := σ) hlimit [] h
  rw [List.append_nil] at hdispatch
  have hpair : readPair request.encode =
      .ok (request.service.byte, request.cause) request.fields := rfl
  unfold turn
  simp only [waiting, hpair, hdispatch]
  rfl

theorem answerAll_waiting (rounds : Nat) (sent : List Bytes) (storage : σ) :
    answerAll rounds (waiting limit) sent storage = ((sent, waiting limit), storage) := by
  cases rounds <;> rfl

theorem answerAll_answered {session next : Session} {reply : Reply} {storage storage' : σ}
    (h : session.turn storage = (.answered reply next, storage')) (rounds : Nat)
    (sent : List Bytes) :
    answerAll (rounds + 1) session sent storage =
      answerAll rounds next (reply.encode :: sent) storage' :=
  (stateM_bind h).trans rfl

/-- **A request is answered with the reply of its call**, and the session waits for the next. -/
theorem feed_encode (hlimit : limit < Offset.range) (h : request.Sendable limit) (storage : σ) :
    (waiting limit).feed request.encode storage =
      (((respond request.run storage).1.encode, waiting limit),
        (respond request.run storage).2) := by
  have hanswer := answerAll_answered (turn_encode hlimit h storage) request.encode.length []
  rw [answerAll_waiting] at hanswer
  have hflatten := List.append_nil (respond request.run storage).1.encode
  refine (stateM_bind hanswer).trans ?_
  exact congrArg (fun sent => ((sent, waiting limit), (respond request.run storage).2)) hflatten

end Session

end FramedStore
