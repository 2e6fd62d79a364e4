import FramedStore.Proofs.Session.Answer
import FramedStore.Proofs.Wire.Requests

/-!
# Whole connections

A session looks up a handler for each request and does not use the reader of requests. Both take the
same bytes and fail in the same cases (`dispatch_eq_ok`). What a request comes to on the bytes of a
memory is said without handlers and storage calls (`Request.onBytes`), and a session does just this for
the requests that stand one behind the other in its input, and nothing else (`handle_outcome`).
-/

namespace FramedStore

open Effect

variable {σ : Type} [Storage σ] {limit : Nat} {opened service : Service} {first cause : UInt8}
  {bytes fields rest : Bytes} {request : Request}

/-- The requests that a session takes: one opened for control takes nothing but signs of life. -/
def Service.Accepts (opened : Service) (request : Request) : Prop :=
  opened = .storage ∨ request = .ping

theorem Request.service_eq_control {request : Request} :
    request.service = .control ↔ request = .ping := by
  cases request <;> simp [Request.service]

/-! ### Requests on bytes -/

/-- What a request comes to on some bytes: its reply, and the bytes after it. A range that does not lie
inside the bytes is refused and changes nothing. -/
def Request.onBytes : Request → Bytes → Reply × Bytes
  | ping, bytes => (.done, bytes)
  | setAll content, _ => (.done, content)
  | getAll, bytes => (.bytes bytes, bytes)
  | delete start stop, bytes =>
    if start ≤ stop ∧ stop ≤ bytes.length then (.done, bytes.take start ++ bytes.drop stop)
    else (.error (Error.outOfRange start stop bytes.length).message, bytes)
  | append added, bytes => (.done, bytes ++ added)
  | slice start stop, bytes =>
    if start ≤ stop ∧ stop ≤ bytes.length then (.bytes ((bytes.take stop).drop start), bytes)
    else (.error (Error.outOfRange start stop bytes.length).message, bytes)
  | size, bytes => (.size bytes.length, bytes)
  | set start patch, bytes =>
    if start ≤ bytes.length then
      (.done, bytes.take start ++ patch ++ bytes.drop (start + patch.length))
    else (.error (Error.outOfRange start start bytes.length).message, bytes)

/-- The replies to requests that are made one after the other on some bytes, and the bytes after
them. -/
def Request.allOnBytes : List Request → Bytes → List Reply × Bytes
  | [], bytes => ([], bytes)
  | request :: requests, bytes =>
    ((request.onBytes bytes).1 :: (allOnBytes requests (request.onBytes bytes).2).1,
      (allOnBytes requests (request.onBytes bytes).2).2)

theorem Request.allOnBytes_of_control {requests : List Request}
    (h : ∀ request ∈ requests, Service.control.Accepts request) (bytes : Bytes) :
    (allOnBytes requests bytes).2 = bytes := by
  induction requests with
  | nil => rfl
  | cons request requests ih =>
    obtain ⟨hrequest, hrequests⟩ := List.forall_mem_cons.mp h
    obtain rfl : request = .ping := by simpa [Service.Accepts] using hrequest
    exact ih hrequests

namespace Session

/-! ### Handlers read what the reader of requests reads -/

/-- Reads a request and gives its call. -/
def handlerOf (limit : Nat) (service : Service) (cause : UInt8) : Reader (Effect σ Reply) := do
  return (← Request.readFields limit service cause).run

theorem controlHandler?_cases (limit : Nat) (cause : UInt8) :
    controlHandler? cause = some (handlerOf limit .control cause : Reader (Effect σ Reply)) ∨
      (controlHandler? cause : Option (Reader (Effect σ Reply))) = none ∧
        ∃ e, Request.readFields limit .control cause = throw e := by
  unfold controlHandler? handlerOf
  split
  · left
    rfl
  · right
    refine ⟨rfl, ?_⟩
    unfold Request.readFields
    split
    all_goals simp_all

theorem storageHandler?_cases (limit : Nat) (cause : UInt8) :
    storageHandler? limit cause =
        some (handlerOf limit .storage cause : Reader (Effect σ Reply)) ∨
      (storageHandler? limit cause : Option (Reader (Effect σ Reply))) = none ∧
        ∃ e, Request.readFields limit .storage cause = throw e := by
  unfold storageHandler? handlerOf
  split
  case h_8 =>
    right
    refine ⟨rfl, ?_⟩
    unfold Request.readFields
    split
    all_goals simp_all
  all_goals
    left
    simp [Request.readFields, Request.run, withPayload, withRange, withPatch]

theorem handlerOf_eq_ok {call : Effect σ Reply} :
    handlerOf limit service cause fields = .ok call rest ↔
      ∃ request, Request.readFields limit service cause fields = .ok request rest ∧
        request.run = call := by
  constructor
  · intro h
    exact map_eq_ok h
  · rintro ⟨request, hread, rfl⟩
    exact (bind_ok hread).trans rfl

/-- What is dispatched to a handler, by the service of the request. -/
theorem dispatch_service (opened service : Service) (cause : UInt8) {call : Effect σ Reply} :
    dispatch limit opened service.byte cause fields = .ok call rest ↔
      (service = .control ∨ opened = .storage) ∧
        handlerOf limit service cause fields = .ok call rest := by
  unfold dispatch handler?
  cases service with
  | control =>
    rw [if_pos rfl]
    rcases controlHandler?_cases (σ := σ) limit cause with h | ⟨h, e, hfields⟩
    · simp [h]
    · simp [h, handlerOf, hfields]
  | storage =>
    rw [if_neg (by decide)]
    cases opened with
    | control =>
      rw [if_neg (by simp)]
      simp
    | storage =>
      rw [if_pos ⟨rfl, rfl⟩]
      rcases storageHandler?_cases (σ := σ) limit cause with h | ⟨h, e, hfields⟩
      · simp [h]
      · simp [h, handlerOf, hfields]

theorem dispatch_unknown (limit : Nat) (opened : Service) (cause : UInt8) (fields : Bytes)
    {e : Error} (h : Service.ofByte first = .error e) :
    ∃ e, (dispatch limit opened first cause fields : EStateM.Result _ _ (Effect σ Reply)) =
      .error e fields := by
  have hcontrol : first ≠ Service.control.byte := by
    rintro rfl
    cases h
  have hstorage : first ≠ Service.storage.byte := by
    rintro rfl
    cases h
  refine ⟨.protocol (unhandled opened first cause), ?_⟩
  unfold dispatch handler?
  rw [if_neg hcontrol, if_neg (fun hboth => hstorage hboth.1)]
  rfl

/-- **The table of handlers and the reader of requests agree.** -/
theorem dispatch_eq_ok {call : Effect σ Reply} :
    dispatch limit opened first cause fields = .ok call rest ↔
      ∃ request, Request.read limit (first :: cause :: fields) = .ok request rest ∧
        opened.Accepts request ∧ request.run = call := by
  rcases hservice : Service.ofByte first with e | service
  · obtain ⟨e', hdispatch⟩ := dispatch_unknown (σ := σ) limit opened cause fields hservice
    rw [hdispatch, Request.read_cons, hservice]
    simp
  · obtain rfl := Service.byte_of_ofByte hservice
    have hread : Request.read limit (service.byte :: cause :: fields) =
        Request.readFields limit service cause fields := by
      rw [Request.read_cons, hservice]
      rfl
    rw [dispatch_service, handlerOf_eq_ok, hread]
    have haccepts : ∀ request : Request,
        Request.readFields limit service cause fields = .ok request rest →
          (opened.Accepts request ↔ service = .control ∨ opened = .storage) := by
      intro request hfields
      obtain ⟨hservice', -⟩ := Request.yields_readFields limit service cause fields _ _ hfields
      rw [← hservice', Request.service_eq_control, Service.Accepts, or_comm]
    constructor
    · rintro ⟨hopened, request, hfields, hrun⟩
      exact ⟨request, hfields, (haccepts request hfields).mpr hopened, hrun⟩
    · rintro ⟨request, hfields, haccepted, hrun⟩
      exact ⟨(haccepts request hfields).mp haccepted, request, hfields, hrun⟩

/-! ### Turns -/

/-- A session that answers requests. -/
def serving (limit : Nat) (opened : Service) (input : Bytes) : Session where
  maxPayload := limit
  stage := .serving opened
  input := input

/-- **The call of a request does to a memory what the request does to its bytes.** -/
theorem respond_run (request : Request) (content : Bytes) :
    respond request.run (⟨content⟩ : Memory) =
      ((request.onBytes content).1, ⟨(request.onBytes content).2⟩) := by
  cases request with
  | ping | setAll | getAll | append | size => rfl
  | delete start stop =>
    have hdelete := Memory.delete_apply ⟨content⟩ start stop
    simp only [Request.onBytes]
    by_cases hrange : start ≤ stop ∧ stop ≤ content.length
    · rw [if_pos hrange] at hdelete ⊢
      exact respond_ok ((bind_ok hdelete).trans rfl)
    · rw [if_neg hrange] at hdelete ⊢
      exact respond_error (bind_error hdelete)
  | slice start stop =>
    have hslice := Memory.slice_apply ⟨content⟩ start stop
    simp only [Request.onBytes]
    by_cases hrange : start ≤ stop ∧ stop ≤ content.length
    · rw [if_pos hrange] at hslice ⊢
      rw [List.drop_take]
      exact respond_ok ((bind_ok hslice).trans rfl)
    · rw [if_neg hrange] at hslice ⊢
      exact respond_error (bind_error hslice)
  | set start patch =>
    have hset := Memory.set_apply ⟨content⟩ start patch
    simp only [Request.onBytes]
    by_cases hstart : start ≤ content.length
    · have hover : content.overwrite start patch =
          content.take start ++ patch ++ content.drop (start + patch.length) := by
        rw [Bytes.overwrite, Nat.sub_eq_zero_of_le hstart, List.replicate_zero, List.append_nil]
      rw [if_pos hstart, hover] at hset
      rw [if_pos hstart]
      exact respond_ok ((bind_ok hset).trans rfl)
    · rw [if_neg hstart] at hset ⊢
      exact respond_error (bind_error hset)

theorem turn_read (hread : Request.read limit bytes = .ok request rest)
    (haccepts : opened.Accepts request) (content : Bytes) :
    (serving limit opened bytes).turn (⟨content⟩ : Memory) =
      (.answered (request.onBytes content).1 (serving limit opened rest),
        ⟨(request.onBytes content).2⟩) := by
  obtain ⟨service, cause, fields, rfl, -⟩ := Request.read_eq_ok.mp hread
  have hdispatch := (dispatch_eq_ok (σ := Memory)).mpr ⟨request, hread, haccepts, rfl⟩
  have hpair : readPair (service.byte :: cause :: fields) = .ok (service.byte, cause) fields := rfl
  unfold turn
  simp only [serving, hpair, hdispatch]
  exact (stateM_bind (respond_run request content)).trans rfl

theorem turn_short (h : bytes.length < 2) (storage : σ) :
    (serving limit opened bytes).turn storage = (.left, storage) := by
  rcases bytes with _ | ⟨first, _ | ⟨cause, fields⟩⟩
  · rfl
  · rfl
  · simp only [List.length_cons] at h
    omega

theorem turn_refused (h : 2 ≤ bytes.length)
    (hstop : ∀ request rest, Request.read limit bytes = .ok request rest →
      ¬ opened.Accepts request) (storage : σ) :
    ∃ e, (serving limit opened bytes).turn storage = (.refused e, storage) := by
  rcases bytes with _ | ⟨first, _ | ⟨cause, fields⟩⟩
  · simp at h
  · simp at h
  have hpair : readPair (first :: cause :: fields) = .ok (first, cause) fields := rfl
  rcases hdispatch : (dispatch limit opened first cause fields :
    EStateM.Result Error Bytes (Effect σ Reply)) with ⟨call, rest⟩ | ⟨e, left⟩
  · obtain ⟨request, hread, haccepts, -⟩ := dispatch_eq_ok.mp hdispatch
    exact absurd haccepts (hstop request rest hread)
  · refine ⟨e, ?_⟩
    unfold turn
    simp only [serving, hpair, hdispatch]
    rfl

/-! ### Conversations -/

/-- A session that has sent `sent` ends when `unread` is left: quietly if that is too short for a
request, and otherwise with an error, which is sent. -/
def Ends (unread sent : Bytes) (result : Bytes × Except Error Unit) : Prop :=
  if unread.length < 2 then result = (sent, .ok ())
  else ∃ e, result = (sent ++ (Reply.error e.message).encode, .error e)

theorem converse_parsed {requests : List Request} {unread : Bytes}
    (h : Request.Parsed limit opened.Accepts bytes requests unread) (sent : List Bytes)
    (content : Bytes) {rounds : Nat} (hrounds : bytes.length < rounds) :
    ∃ pieces outcome, converse rounds (serving limit opened bytes) sent (⟨content⟩ : Memory) =
        ((pieces, outcome), ⟨(Request.allOnBytes requests content).2⟩) ∧
      Ends unread
        (sent.reverse.flatten ++ (Request.allOnBytes requests content).1.flatMap Reply.encode)
        (pieces.reverse.flatten, outcome) := by
  induction h generalizing sent content rounds with
  | @stop bytes hstop =>
    obtain ⟨rounds, rfl⟩ := Nat.exists_eq_add_one.mpr (Nat.zero_lt_of_lt hrounds)
    by_cases hshort : bytes.length < 2
    · refine ⟨sent, .ok (), stateM_bind (turn_short hshort _), ?_⟩
      rw [Ends, if_pos hshort]
      simp [Request.allOnBytes]
    · obtain ⟨e, hturn⟩ := turn_refused (σ := Memory) (by omega) hstop ⟨content⟩
      refine ⟨(Reply.error e.message).encode :: sent, .error e, stateM_bind hturn, ?_⟩
      rw [Ends, if_neg hshort]
      exact ⟨e, by simp [Request.allOnBytes]⟩
  | @next bytes rest unread request requests hread haccepts _ ih =>
    obtain ⟨rounds, rfl⟩ := Nat.exists_eq_add_one.mpr (Nat.zero_lt_of_lt hrounds)
    have hshorter := Request.length_of_read hread
    obtain ⟨pieces, outcome, hconverse, hends⟩ :=
      ih ((request.onBytes content).1.encode :: sent) (request.onBytes content).2
        (show rest.length < rounds by omega)
    refine ⟨pieces, outcome, ?_, ?_⟩
    · exact (stateM_bind (turn_read hread haccepts content)).trans hconverse
    · simpa [Request.allOnBytes] using hends

/-- What a session does that was opened for a service over a memory and is sent `bytes` behind the
handshake: it does to the content what the longest sequence of requests that it takes does, one after
the other, and sends their replies; the rest of the bytes does nothing but end it. -/
def Serves (limit : Nat) (opened : Service) (bytes content : Bytes)
    (result : (Bytes × Except Error Unit) × Memory) : Prop :=
  ∃ requests unread, Request.Parsed limit opened.Accepts bytes requests unread ∧
    Ends unread
      (Reply.done.encode ++ (Request.allOnBytes requests content).1.flatMap Reply.encode) result.1 ∧
    result.2 = ⟨(Request.allOnBytes requests content).2⟩

theorem handle_of_converse (input : Bytes) {pieces : List Bytes} {outcome : Except Error Unit}
    {storage after : σ} (h : converse (input.length + 1) { maxPayload := limit, input } [] storage =
      ((pieces, outcome), after)) :
    handle limit input storage = ((pieces.reverse.flatten, outcome), after) :=
  (stateM_bind h).trans rfl

theorem handle_serves (hservice : Service.ofByte first = .ok opened) (content : Bytes) :
    Serves limit opened bytes content (handle limit (first :: bytes) (⟨content⟩ : Memory)) := by
  obtain ⟨requests, unread, hparsed⟩ := Request.exists_parsed limit opened.Accepts bytes
  obtain ⟨pieces, outcome, hconverse, hends⟩ :=
    converse_parsed hparsed [Reply.done.encode] content
      (show bytes.length < bytes.length + 1 by omega)
  have hturn : ({ maxPayload := limit, input := first :: bytes } : Session).turn
      (⟨content⟩ : Memory) = (.answered .done (serving limit opened bytes), ⟨content⟩) := by
    have hread : Service.read (first :: bytes) = .ok opened bytes := by
      refine (bind_ok (rfl : Reader.byte (first :: bytes) = .ok first bytes)).trans ?_
      rw [hservice]
      rfl
    unfold turn
    simp only [hread]
    rfl
  have hhandle := handle_of_converse (first :: bytes)
    ((stateM_bind hturn).trans hconverse)
  rw [hhandle]
  exact ⟨requests, unread, hparsed, hends, rfl⟩

theorem handle_unknown (hcontrol : first ≠ 0) (hstorage : first ≠ 1) (storage : σ) :
    ∃ e : Error, handle limit (first :: bytes) storage =
      (((Reply.error e.message).encode, .error e), storage) := by
  have hread : Service.read (first :: bytes) =
      .error (.protocol (.unknownService first)) bytes := by
    refine (bind_ok (rfl : Reader.byte (first :: bytes) = .ok first bytes)).trans ?_
    rw [Service.ofByte, if_neg hcontrol, if_neg hstorage]
    rfl
  have hturn : ({ maxPayload := limit, input := first :: bytes } : Session).turn storage =
      (.refused (.protocol (.unknownService first)), storage) := by
    unfold turn
    simp only [hread]
    rfl
  refine ⟨.protocol (.unknownService first), ?_⟩
  have hhandle := handle_of_converse (first :: bytes) ((stateM_bind hturn).trans rfl)
  rw [hhandle]
  simp

/-- A byte is appended, a range that is too long is refused, and the first byte is deleted. -/
example :
    handle 16 (1 :: (Request.append [97]).encode ++ (Request.slice 0 9).encode ++
        (Request.delete 0 1).encode) (⟨[98]⟩ : Memory) =
      ((Reply.done.encode ++ Reply.done.encode ++
          (Reply.error "Range 0..9 is out of bounds for storage of size 2").encode ++
          Reply.done.encode, .ok ()), ⟨[97]⟩) := by
  rfl

end Session

end FramedStore
