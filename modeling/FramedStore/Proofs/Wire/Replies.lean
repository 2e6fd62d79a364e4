import FramedStore.Proofs.Wire.Messages

/-!
# What a stream of replies starts with

A client that waits for a reply finds one at the front of the bytes that it has received
(`Reply.Written`), or it finds none, for one of a few reasons (`Reply.Unreadable`). The reader of
replies tells them apart: it takes the bytes of the one reply and no more, or it gives the error of the
reason (`Reply.read_cases`).
-/

namespace FramedStore

open Effect

/-! ### Numbers and payloads -/

namespace Reader

/-- Bytes that start with no payload of at most `limit` bytes, and the error for it. -/
inductive NoPayload (limit : Nat) : Bytes → Error → Prop
  /-- The length is cut off. -/
  | cut {bytes : Bytes} (h : bytes.length < 8) : NoPayload limit bytes (.io .endOfInput)
  | tooLong {length : Nat} (hlt : length < Offset.range) (h : limit < length) (rest : Bytes) :
    NoPayload limit (Wire.number length ++ rest) (.protocol (.payloadTooLarge length limit))
  /-- The payload is cut off. -/
  | short {length : Nat} {rest : Bytes} (hle : length ≤ limit) (h : rest.length < length) :
    NoPayload limit (Wire.number length ++ rest) (.io .endOfInput)

theorem take_cases (count : Nat) (bytes : Bytes) :
    (∃ front rest, front.length = count ∧ bytes = front ++ rest ∧
        take count bytes = .ok front rest) ∨
      bytes.length < count ∧ take count bytes = .error (.io .endOfInput) [] := by
  unfold take
  rw [bind_ok (get_apply bytes), if_apply]
  rcases Nat.lt_or_ge bytes.length count with hshort | hlong
  · right
    have htake : (bytes.take count).length < count := by
      rw [List.length_take]
      omega
    exact ⟨hshort, by rw [if_pos htake]; rfl⟩
  · left
    have htake : (bytes.take count).length = count := List.length_take_of_le hlong
    refine ⟨_, _, htake, (List.take_append_drop count bytes).symm, ?_⟩
    rw [if_neg (by omega)]
    rfl

theorem number_cases (bytes : Bytes) :
    (∃ n rest, n < Offset.range ∧ bytes = Wire.number n ++ rest ∧ number bytes = .ok n rest) ∨
      bytes.length < 8 ∧ number bytes = .error (.io .endOfInput) [] := by
  rcases take_cases 8 bytes with ⟨digits, rest, -, rfl, htake⟩ | ⟨hshort, htake⟩
  · have hread : number (digits ++ rest) = .ok (Bytes.value digits) rest := (bind_ok htake).trans rfl
    obtain ⟨_, ⟨hlt, rfl⟩, hbytes⟩ := exact_number.sound hread
    exact .inl ⟨_, rest, hlt, hbytes, hread⟩
  · exact .inr ⟨hshort, bind_error htake⟩

theorem payload_cases (limit : Nat) (bytes : Bytes) :
    (∃ content rest, content.length ≤ limit ∧ bytes = Wire.payload content ++ rest ∧
        payload limit bytes = .ok content rest) ∨
      ∃ e left, NoPayload limit bytes e ∧ payload limit bytes = .error e left := by
  rcases number_cases bytes with ⟨length, rest, hlt, rfl, hnumber⟩ | ⟨hshort, hnumber⟩
  · have hpayload : payload limit (Wire.number length ++ rest) = _ := bind_ok hnumber
    rw [hpayload, if_apply]
    rcases Nat.lt_or_ge limit length with hlong | hle
    · rw [if_pos hlong]
      exact .inr ⟨_, _, .tooLong hlt hlong rest, rfl⟩
    · rw [if_neg (Nat.not_lt.mpr hle)]
      rcases take_cases length rest with ⟨content, rest, rfl, rfl, htake⟩ | ⟨hcut, htake⟩
      · left
        refine ⟨content, rest, hle, ?_, htake⟩
        rw [Wire.payload, List.append_assoc]
      · exact .inr ⟨_, _, .short hle hcut, htake⟩
  · exact .inr ⟨_, _, .cut hshort, bind_error hnumber⟩

end Reader

/-! ### Replies -/

namespace Reply

open Reader (NoPayload)

/-- The bytes of a reply that a client with a limit takes, where it expects one of a shape. -/
inductive Written (limit : Nat) (shape : ReplyShape) : Bytes → Reply → Prop
  | made {reply : Reply} (hshape : reply.HasShape shape) (hle : reply.payload.length ≤ limit) :
    Written limit shape reply.encode reply
  /-- The text of an error need not be text. -/
  | failed {text : Bytes} (hle : text.length ≤ limit) :
    Written limit shape (errorStatus :: Wire.payload text) (.error (Utf8.lossy text))

/-- Bytes that start with no such reply, and the error for it. -/
inductive Unreadable (limit : Nat) : ReplyShape → Bytes → Error → Prop
  | ended (shape : ReplyShape) : Unreadable limit shape [] (.io .endOfInput)
  | status {byte : UInt8} (shape : ReplyShape) (hok : byte ≠ okStatus)
    (herror : byte ≠ errorStatus) (rest : Bytes) :
    Unreadable limit shape (byte :: rest) (.protocol (.unknownStatus byte))
  | text {bytes : Bytes} {e : Error} (shape : ReplyShape) (h : NoPayload limit bytes e) :
    Unreadable limit shape (errorStatus :: bytes) e
  | content {bytes : Bytes} {e : Error} (h : NoPayload limit bytes e) :
    Unreadable limit .bytes (okStatus :: bytes) e
  /-- The number is cut off. -/
  | size {bytes : Bytes} (h : bytes.length < 8) :
    Unreadable limit .size (okStatus :: bytes) (.io .endOfInput)

variable {limit : Nat} {shape : ReplyShape}

/-- What stands in the way of a reply is never that it is of another shape. -/
theorem Unreadable.ne_unexpectedReply {bytes : Bytes} {e : Error}
    (h : Unreadable limit shape bytes e) : e ≠ .protocol .unexpectedReply := by
  have hpayload : ∀ {bytes : Bytes} {e : Error}, NoPayload limit bytes e →
      e ≠ .protocol .unexpectedReply := by
    intro bytes e h
    cases h <;> nofun
  cases h with
  | ended | status | size => nofun
  | text _ h | content h => exact hpayload h

theorem readBody_cases (limit : Nat) (shape : ReplyShape) (bytes : Bytes) :
    (∃ reply front rest, bytes = front ++ rest ∧
        Written limit shape (okStatus :: front) reply ∧
        readBody limit shape bytes = .ok reply rest) ∨
      ∃ e left, Unreadable limit shape (okStatus :: bytes) e ∧
        readBody limit shape bytes = .error e left := by
  cases shape with
  | done => exact .inl ⟨.done, [], bytes, rfl, .made .done (Nat.zero_le _), rfl⟩
  | bytes =>
    rcases Reader.payload_cases limit bytes with ⟨content, rest, hle, rfl, hread⟩ |
      ⟨e, left, hnone, hread⟩
    · exact .inl ⟨.bytes content, _, rest, rfl, .made (.bytes content) hle, (bind_ok hread).trans rfl⟩
    · exact .inr ⟨e, left, .content hnone, bind_error hread⟩
  | size =>
    rcases Reader.number_cases bytes with ⟨count, rest, hlt, rfl, hread⟩ | ⟨hshort, hread⟩
    · exact .inl ⟨.size count, _, rest, rfl, .made (.size hlt) (Nat.zero_le _),
        (bind_ok hread).trans rfl⟩
    · exact .inr ⟨_, _, .size hshort, bind_error hread⟩

/-- **The reader of replies takes one reply, or says why there is none.** -/
theorem read_cases (limit : Nat) (shape : ReplyShape) (bytes : Bytes) :
    (∃ reply front rest, bytes = front ++ rest ∧ Written limit shape front reply ∧
        read limit shape bytes = .ok reply rest) ∨
      ∃ e left, Unreadable limit shape bytes e ∧ read limit shape bytes = .error e left := by
  cases bytes with
  | nil => exact .inr ⟨_, _, .ended shape, rfl⟩
  | cons status bytes =>
    by_cases herror : status = errorStatus
    · subst herror
      rw [read_errorStatus]
      rcases Reader.payload_cases limit bytes with ⟨text, rest, hle, rfl, hread⟩ |
        ⟨e, left, hnone, hread⟩
      · exact .inl ⟨_, _, rest, rfl, .failed hle, (bind_ok hread).trans rfl⟩
      · exact .inr ⟨e, left, .text shape hnone, bind_error hread⟩
    · by_cases hok : status = okStatus
      · subst hok
        rw [read_okStatus]
        rcases readBody_cases limit shape bytes with ⟨reply, front, rest, rfl, hwritten, hread⟩ |
          ⟨e, left, hnone, hread⟩
        · exact .inl ⟨reply, _, rest, rfl, hwritten, hread⟩
        · exact .inr ⟨e, left, hnone, hread⟩
      · refine .inr ⟨_, bytes, .status shape hok herror bytes, ?_⟩
        have hbyte : Reader.byte (status :: bytes) = .ok status bytes := rfl
        refine (bind_ok hbyte).trans ?_
        rw [if_neg herror, if_pos hok]
        rfl

end Reply

end FramedStore
