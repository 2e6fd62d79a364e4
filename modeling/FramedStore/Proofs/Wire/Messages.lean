import FramedStore.Proofs.Text.Utf8
import FramedStore.Proofs.Wire.Format
import FramedStore.Wire.Reply

/-!
# Messages are read as they were written

Numbers, payloads and replies, in front of any other bytes, are read back, and those bytes are left.
-/

namespace FramedStore

open Effect

variable {limit n : Nat} {content rest : Bytes}

/-! ### Numbers and payloads -/

namespace Reader

theorem number_apply (h : n < Offset.range) (rest : Bytes) :
    number (Wire.number n ++ rest) = .ok n rest :=
  exact_number.complete ⟨h, rfl⟩ rest

theorem payload_apply (hlimit : limit < Offset.range) (h : content.length ≤ limit)
    (rest : Bytes) : payload limit (Wire.payload content ++ rest) = .ok content rest :=
  (exact_payload hlimit).complete ⟨h, rfl⟩ rest

end Reader

/-! ### Replies -/

namespace Reply

/-- The payload of a reply. -/
def payload : Reply → Bytes
  | .bytes content => content
  | .error text => Utf8.encode text
  | _ => []

/-- The replies of a shape. -/
inductive HasShape : ReplyShape → Reply → Prop
  | done : HasShape .done .done
  | bytes (content : Bytes) : HasShape .bytes (.bytes content)
  | size {count : Nat} (h : count < Offset.range) : HasShape .size (.size count)

theorem read_okStatus (limit : Nat) (shape : ReplyShape) (bytes : Bytes) :
    read limit shape (okStatus :: bytes) = readBody limit shape bytes := rfl

theorem read_errorStatus (limit : Nat) (shape : ReplyShape) (bytes : Bytes) :
    read limit shape (errorStatus :: bytes) =
      (do return .error (Utf8.lossy (← Reader.payload limit)) : Reader Reply) bytes := rfl

/-- **A reply is read as it was written.** -/
theorem read_encode {shape : ReplyShape} {reply : Reply} (hshape : HasShape shape reply)
    (hlimit : limit < Offset.range) (hpayload : reply.payload.length ≤ limit) (rest : Bytes) :
    read limit shape (reply.encode ++ rest) = .ok reply rest := by
  cases hshape with
  | done => rfl
  | bytes content =>
    rw [encode, List.cons_append, read_okStatus]
    exact (bind_ok (Reader.payload_apply hlimit hpayload rest)).trans rfl
  | size h =>
    rw [encode, List.cons_append, read_okStatus]
    exact (bind_ok (Reader.number_apply h rest)).trans rfl

/-- An error is read as it was written, whatever reply was expected. -/
theorem read_encode_error {text : String} (shape : ReplyShape) (hlimit : limit < Offset.range)
    (hpayload : (Utf8.encode text).length ≤ limit) (rest : Bytes) :
    read limit shape ((error text).encode ++ rest) = .ok (error text) rest := by
  rw [encode, List.cons_append, read_errorStatus]
  refine (bind_ok (Reader.payload_apply hlimit hpayload rest)).trans ?_
  rw [pure_apply, Utf8.lossy_encode]

end Reply

/-! ### Requests -/

namespace Request

/-- The payload of a request. -/
def payload : Request → Bytes
  | setAll content => content
  | append added => added
  | set _ patch => patch
  | _ => []

/-- The positions in a request. -/
def positions : Request → List Nat
  | delete start stop => [start, stop]
  | slice start stop => [start, stop]
  | set start _ => [start]
  | _ => []

/-- A request that can be sent to a reader with a limit. -/
structure Sendable (limit : Nat) (request : Request) : Prop where
  payload_le : request.payload.length ≤ limit
  positions_lt : ∀ position ∈ request.positions, position < Offset.range

theorem sendable_iff {request : Request} : request.Sendable limit ↔
    request.payload.length ≤ limit ∧ ∀ position ∈ request.positions, position < Offset.range :=
  ⟨fun h => ⟨h.payload_le, h.positions_lt⟩, fun h => ⟨h.1, h.2⟩⟩

instance (limit : Nat) (request : Request) : Decidable (request.Sendable limit) :=
  decidable_of_iff' _ sendable_iff

end Request

end FramedStore
