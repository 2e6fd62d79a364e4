import FramedStore.Proofs.Bytes.Splice
import FramedStore.Proofs.Wire.Messages
import FramedStore.Proofs.Wire.Requests

/-!
# Requests are read exactly as they are written

The reader of requests takes the bytes of a request within the limit and nothing else
(`Request.exact_read`): each cause has the fields that are written for it. So requests one behind the
other are told apart, and a request that is cut short is taken for no other (`read_iff_written`).
-/

namespace FramedStore

open Effect

variable {limit : Nat} {bytes rest : Bytes}

theorem Service.exact_read :
    Reader.Exact (fun bytes service => bytes = [service.byte]) Service.read := by
  refine (Reader.exact_byte.bind fun first => Reader.exact_ofExcept (ofByte first)).congr
    fun bytes service => ⟨?_, ?_⟩
  · rintro ⟨first, _, _, rfl, ⟨rfl, hservice⟩, rfl⟩
    rw [byte_of_ofByte hservice]
    rfl
  · rintro rfl
    exact ⟨service.byte, _, [], rfl, ⟨rfl, ofByte_byte service⟩, rfl⟩

namespace Reader

/-! ### The three kinds of fields -/

section Fields

variable {α : Type}

theorem exact_payloadField (hlimit : limit < Offset.range) (make : Bytes → α) :
    Exact (fun bytes a => ∃ content, content.length ≤ limit ∧ a = make content ∧
        bytes = Wire.payload content)
      (do return make (← payload limit)) := by
  refine ((exact_payload hlimit).bind fun content => exact_pure (make content)).congr
    fun bytes a => ⟨?_, ?_⟩
  · rintro ⟨content, _, _, ⟨hle, rfl⟩, ⟨rfl, rfl⟩, rfl⟩
    exact ⟨content, hle, rfl, List.append_nil _⟩
  · rintro ⟨content, hle, rfl, rfl⟩
    exact ⟨content, _, [], ⟨hle, rfl⟩, ⟨rfl, rfl⟩, (List.append_nil _).symm⟩

theorem exact_rangeField (make : Nat → Nat → α) :
    Exact (fun bytes a => ∃ start stop, start < Offset.range ∧ stop < Offset.range ∧
        a = make start stop ∧ bytes = Wire.number start ++ Wire.number stop)
      (do return make (← number) (← number)) := by
  refine (exact_number.bind fun start => exact_number.bind fun stop =>
    exact_pure (make start stop)).congr fun bytes a => ⟨?_, ?_⟩
  · rintro ⟨start, _, _, ⟨hstart, rfl⟩, ⟨stop, _, _, ⟨hstop, rfl⟩, ⟨rfl, rfl⟩, rfl⟩, rfl⟩
    exact ⟨start, stop, hstart, hstop, rfl, by rw [List.append_nil]⟩
  · rintro ⟨start, stop, hstart, hstop, rfl, rfl⟩
    exact ⟨start, _, _, ⟨hstart, rfl⟩,
      ⟨stop, _, [], ⟨hstop, rfl⟩, ⟨rfl, rfl⟩, (List.append_nil _).symm⟩, rfl⟩

theorem exact_patchField (hlimit : limit < Offset.range) (make : Nat → Bytes → α) :
    Exact (fun bytes a => ∃ start patch, start < Offset.range ∧ patch.length ≤ limit ∧
        a = make start patch ∧ bytes = Wire.number start ++ Wire.payload patch)
      (do return make (← number) (← payload limit)) := by
  refine (exact_number.bind fun start => exact_payloadField hlimit (make start)).congr
    fun bytes a => ⟨?_, ?_⟩
  · rintro ⟨start, _, _, ⟨hstart, rfl⟩, ⟨patch, hle, rfl, rfl⟩, rfl⟩
    exact ⟨start, patch, hstart, hle, rfl, rfl⟩
  · rintro ⟨start, patch, hstart, hle, rfl, rfl⟩
    exact ⟨start, _, _, ⟨hstart, rfl⟩, ⟨patch, hle, rfl, rfl⟩, rfl⟩

end Fields

end Reader

namespace Request

/-! ### The format of requests -/

/-- The fields of the requests with a service and a cause. -/
def fieldsFormat (limit : Nat) (service : Service) (cause : UInt8) : Format Request :=
  fun bytes request => request.service = service ∧ request.cause = cause ∧
    request.Sendable limit ∧ bytes = request.fields

/-- Requests that a reader with a limit takes. -/
def format (limit : Nat) : Format Request := fun bytes request =>
  request.Sendable limit ∧ bytes = request.encode

theorem exact_readFields (hlimit : limit < Offset.range) (service : Service) (cause : UInt8) :
    Reader.Exact (fieldsFormat limit service cause) (readFields limit service cause) := by
  unfold readFields
  split
  case h_1 | h_3 | h_7 =>
    refine (Reader.exact_pure _).congr fun bytes request => ?_
    cases request <;> simp [fieldsFormat, Request.service, Request.cause, fields, sendable_iff,
      payload, positions]
  case h_2 | h_5 =>
    refine (Reader.exact_payloadField hlimit _).congr fun bytes request => ?_
    cases request <;> simp [fieldsFormat, Request.service, Request.cause, fields, sendable_iff,
      payload, positions]
  case h_4 | h_6 =>
    refine (Reader.exact_rangeField _).congr fun bytes request => ?_
    cases request <;> simp [fieldsFormat, Request.service, Request.cause, fields, sendable_iff,
      payload, positions, and_assoc]
  case h_8 =>
    refine (Reader.exact_patchField hlimit _).congr fun bytes request => ?_
    cases request <;> simp [fieldsFormat, Request.service, Request.cause, fields, sendable_iff,
      payload, positions, and_assoc, and_left_comm]
  case h_9 =>
    refine (Reader.exact_throw _).congr fun bytes request => ⟨nofun, ?_⟩
    rintro ⟨rfl, rfl, -⟩
    cases request <;> simp_all [Request.service, Request.cause]

theorem exact_read (hlimit : limit < Offset.range) : Reader.Exact (format limit) (read limit) := by
  refine (Service.exact_read.bind fun service => Reader.exact_byte.bind fun cause =>
    exact_readFields hlimit service cause).congr fun bytes request => ⟨?_, ?_⟩
  · rintro ⟨_, _, _, rfl, ⟨_, _, _, rfl, ⟨rfl, rfl, hsendable, rfl⟩, rfl⟩, rfl⟩
    exact ⟨hsendable, rfl⟩
  · rintro ⟨hsendable, rfl⟩
    exact ⟨request.service, _, _, rfl,
      ⟨request.cause, _, _, rfl, ⟨rfl, rfl, hsendable, rfl⟩, rfl⟩, rfl⟩

/-! ### Whole requests -/

theorem decode_eq_ok {request : Request} :
    decode limit bytes = .ok request ↔ read limit bytes = .ok request [] := by
  unfold decode
  rcases read limit bytes with ⟨found, _ | ⟨first, rest⟩⟩ | ⟨e, rest⟩ <;> simp

theorem decode_error {e : Error} (h : read limit bytes = .error e rest) :
    decode limit bytes = .error e := by
  unfold decode
  rw [h]

/-! ### Several requests -/

/-- The bytes of requests one behind the other. -/
def encodeAll (requests : List Request) : Bytes := requests.flatMap encode

theorem readSequence_encodeAll (hlimit : limit < Offset.range) {requests : List Request}
    (hsendable : ∀ request ∈ requests, request.Sendable limit) (found : List Request)
    {rounds : Nat} (hrounds : requests.length < rounds) :
    readSequence limit rounds found (encodeAll requests) =
      ⟨found.reverse ++ requests, [], none⟩ := by
  induction requests generalizing found rounds with
  | nil =>
    obtain ⟨rounds, rfl⟩ := Nat.exists_eq_add_one.mpr hrounds
    rw [List.append_nil]
    rfl
  | cons request requests ih =>
    obtain ⟨rounds, rfl⟩ := Nat.exists_eq_add_one.mpr (Nat.zero_lt_of_lt hrounds)
    obtain ⟨hfirst, hlater⟩ := List.forall_mem_cons.mp hsendable
    have hread : read limit (encodeAll (request :: requests)) = .ok request (encodeAll requests) :=
      (exact_read hlimit).complete ⟨hfirst, rfl⟩ _
    have hne : (encodeAll (request :: requests)).isEmpty = false := rfl
    rw [readSequence, hne, hread]
    simp only [Bool.false_eq_true, if_false]
    rw [ih hlater (request :: found) (Nat.lt_of_succ_lt_succ hrounds), List.reverse_cons,
      List.append_assoc, List.singleton_append]

/-- **Requests are read exactly as they are written.** From any bytes a request is read just if they
start with it and its payload is within the limit, and a whole byte string is a request just if it is
that one's bytes; requests one behind the other are read one after the other; and what is less than a
request is a request that has ended too early, and nothing else. -/
theorem read_iff_written (hlimit : limit < Offset.range) :
    (∀ (request : Request) (bytes rest : Bytes),
      (∀ position ∈ request.positions, position < Offset.range) →
        (read limit bytes = .ok request rest ↔
          bytes = request.encode ++ rest ∧ request.payload.length ≤ limit)) ∧
    (∀ (request : Request) (bytes : Bytes),
      (∀ position ∈ request.positions, position < Offset.range) →
        (decode limit bytes = .ok request ↔
          bytes = request.encode ∧ request.payload.length ≤ limit)) ∧
    (∀ requests : List Request, (∀ request ∈ requests, request.Sendable limit) →
      sequence limit (encodeAll requests) = ⟨requests, [], none⟩) ∧
    (∀ (request : Request) (front : Bytes), request.Sendable limit → front <+: request.encode →
      front ≠ request.encode →
        read limit front = .error (.io .endOfInput) [] ∧
          decode limit front = .error (.io .endOfInput)) := by
  have hexact := exact_read hlimit
  have hread : ∀ (request : Request) (bytes rest : Bytes),
      (∀ position ∈ request.positions, position < Offset.range) →
        (read limit bytes = .ok request rest ↔
          bytes = request.encode ++ rest ∧ request.payload.length ≤ limit) := by
    intro request bytes rest hpositions
    constructor
    · intro h
      obtain ⟨_, ⟨hsendable, rfl⟩, rfl⟩ := hexact.sound h
      exact ⟨rfl, hsendable.payload_le⟩
    · rintro ⟨rfl, hpayload⟩
      exact hexact.complete ⟨⟨hpayload, hpositions⟩, rfl⟩ rest
  refine ⟨hread, fun request bytes hpositions => ?_, fun requests hsendable => ?_,
    fun request front hsendable hfront hne => ?_⟩
  · rw [decode_eq_ok, hread request bytes [] hpositions, List.append_nil]
  · have hlength : requests.length ≤ (encodeAll requests).length :=
      Bytes.length_le_flatMap (fun _ => List.cons_ne_nil _ _) requests
    exact readSequence_encodeAll hlimit hsendable [] (by omega)
  · have hshort := hexact.short ⟨hsendable, rfl⟩ hfront hne
    exact ⟨hshort, decode_error hshort⟩

/-- Both kinds of fields at their limits, behind a request without fields. -/
theorem read_iff_written_cut :
    3 < Offset.range ∧
      (∀ position ∈ (set 0xFFFFFFFFFFFFFFFF [7, 0, 7]).positions, position < Offset.range) ∧
      (∀ request ∈ [ping, set 0xFFFFFFFFFFFFFFFF [7, 0, 7]], request.Sendable 3) ∧
      [1, 7, 255] <+: (set 0xFFFFFFFFFFFFFFFF [7, 0, 7]).encode ∧
      read 3 ((set 0xFFFFFFFFFFFFFFFF [7, 0, 7]).encode ++ [0]) =
        .ok (set 0xFFFFFFFFFFFFFFFF [7, 0, 7]) [0] ∧
      decode 3 (set 0xFFFFFFFFFFFFFFFF [7, 0, 7]).encode =
        .ok (set 0xFFFFFFFFFFFFFFFF [7, 0, 7]) ∧
      sequence 3 (encodeAll [ping, set 0xFFFFFFFFFFFFFFFF [7, 0, 7]]) =
        ⟨[ping, set 0xFFFFFFFFFFFFFFFF [7, 0, 7]], [], none⟩ ∧
      read 3 [1, 7, 255] = .error (.io .endOfInput) [] := by
  have hlimit : 3 < Offset.range := by decide
  have hpositions : ∀ position ∈ (set 0xFFFFFFFFFFFFFFFF [7, 0, 7]).positions,
      position < Offset.range := by decide
  have hsendable : ∀ request ∈ [ping, set 0xFFFFFFFFFFFFFFFF [7, 0, 7]],
      request.Sendable 3 := by decide
  have hfront : [1, 7, 255] <+: (set 0xFFFFFFFFFFFFFFFF [7, 0, 7]).encode := by decide
  obtain ⟨hread, hdecode, hsequence, hshort⟩ := read_iff_written hlimit
  exact ⟨hlimit, hpositions, hsendable, hfront,
    (hread _ _ _ hpositions).mpr ⟨rfl, by decide⟩, (hdecode _ _ hpositions).mpr ⟨rfl, by decide⟩,
    hsequence _ hsendable, (hshort _ _ (hsendable _ (by simp)) hfront (by decide)).1⟩

end Request

end FramedStore
