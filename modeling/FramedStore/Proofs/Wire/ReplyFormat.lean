import FramedStore.Proofs.Wire.Replies
import FramedStore.Proofs.Wire.RequestFormat

/-!
# Replies are read exactly as they are written

The bytes of a reply do not show its shape. A reader that is told the shape takes the bytes of a reply
of it, or of an error in its place, and nothing else (`Reply.exact_read`); so the next reply is looked
for where this one ends.
-/

namespace FramedStore.Reply

open Effect

variable {limit : Nat} {shape : ReplyShape}

/-- A reply that may answer a request with replies of a shape: one of the shape, or any error. -/
inductive Answers (shape : ReplyShape) : Reply → Prop
  | made {reply : Reply} (h : reply.HasShape shape) : Answers shape reply
  | failed (text : String) : Answers shape (.error text)

/-- What follows the status of a successful reply. -/
def bodyFormat (limit : Nat) (shape : ReplyShape) : Format Reply := fun bytes reply =>
  reply.HasShape shape ∧ reply.payload.length ≤ limit ∧ reply.encode = okStatus :: bytes

theorem exact_readBody (hlimit : limit < Offset.range) (shape : ReplyShape) :
    Reader.Exact (bodyFormat limit shape) (readBody limit shape) := by
  cases shape with
  | done =>
    refine (Reader.exact_pure done).congr fun bytes reply => ⟨?_, ?_⟩
    · rintro ⟨rfl, rfl⟩
      exact ⟨.done, Nat.zero_le _, rfl⟩
    · rintro ⟨hshape, -, hencode⟩
      cases hshape with
      | done => exact ⟨(List.cons.inj hencode).2.symm, rfl⟩
  | bytes =>
    refine (Reader.exact_payloadField hlimit Reply.bytes).congr fun bytes reply => ⟨?_, ?_⟩
    · rintro ⟨content, hle, rfl, rfl⟩
      exact ⟨.bytes content, hle, rfl⟩
    · rintro ⟨hshape, hle, hencode⟩
      cases hshape with
      | bytes content => exact ⟨content, hle, rfl, (List.cons.inj hencode).2.symm⟩
  | size =>
    refine (Reader.exact_number.bind fun count => Reader.exact_pure (Reply.size count)).congr
      fun bytes reply => ⟨?_, ?_⟩
    · rintro ⟨count, _, _, ⟨hlt, rfl⟩, ⟨rfl, rfl⟩, rfl⟩
      exact ⟨.size hlt, Nat.zero_le _, by rw [List.append_nil]; rfl⟩
    · rintro ⟨hshape, -, hencode⟩
      cases hshape with
      | @size count hlt =>
        refine ⟨count, _, [], ⟨hlt, rfl⟩, ⟨rfl, rfl⟩, ?_⟩
        rw [List.append_nil]
        exact (List.cons.inj hencode).2.symm

/-- **The reader of replies takes the bytes of a reply, or of an error in its place.** -/
theorem exact_read (hlimit : limit < Offset.range) (shape : ReplyShape) :
    Reader.Exact (Written limit shape) (read limit shape) := by
  refine (Reader.exact_byte.bind fun status =>
    (Reader.exact_payloadField hlimit fun text => error (Utf8.lossy text)).ite
      ((Reader.exact_throw (.protocol (.unknownStatus status))).ite
        (exact_readBody hlimit shape))).congr fun bytes reply => ⟨?_, ?_⟩
  · rintro ⟨status, _, body, rfl, hbody, rfl⟩
    split at hbody
    · rename_i herror
      obtain ⟨text, hle, rfl, rfl⟩ := hbody
      rw [herror]
      exact .failed hle
    · split at hbody
      · exact hbody.elim
      · rename_i hok
        obtain ⟨hshape, hle, hencode⟩ := hbody
        rw [not_not.mp hok, List.singleton_append, ← hencode]
        exact .made hshape hle
  · rintro (⟨hshape, hle⟩ | ⟨hle⟩)
    · cases hshape with
      | done => exact ⟨okStatus, _, [], rfl, ⟨.done, hle, rfl⟩, rfl⟩
      | bytes content => exact ⟨okStatus, _, _, rfl, ⟨.bytes content, hle, rfl⟩, rfl⟩
      | size hlt => exact ⟨okStatus, _, _, rfl, ⟨.size hlt, hle, rfl⟩, rfl⟩
    · exact ⟨errorStatus, _, _, rfl, ⟨_, hle, rfl, rfl⟩, rfl⟩

/-- The bytes of a reply that may answer are those that the reader takes for it. -/
theorem Answers.written {reply : Reply} (h : reply.Answers shape)
    (hle : reply.payload.length ≤ limit) : Written limit shape reply.encode reply := by
  cases h with
  | made hshape => exact .made hshape hle
  | failed text =>
    have htext : Written limit shape (error text).encode (error (Utf8.lossy (Utf8.encode text))) :=
      .failed hle
    rwa [Utf8.lossy_encode] at htext

/-- **Replies are read exactly as they are written.** A reply that may answer, with a payload within the
limit, is read back from in front of any other bytes, which are left, and what is less than the reply
has ended too early. Conversely a reply that is read and is no error is of the shape, and its bytes
have been taken and no more; and for an error a status, a length within the limit and that many bytes
have been taken, which need not be text. -/
theorem reply_read_exactly (hlimit : limit < Offset.range) (shape : ReplyShape) :
    (∀ reply : Reply, reply.Answers shape → reply.payload.length ≤ limit →
      (∀ rest, read limit shape (reply.encode ++ rest) = .ok reply rest) ∧
        ∀ front, front <+: reply.encode → front ≠ reply.encode →
          read limit shape front = .error (.io .endOfInput) []) ∧
    (∀ (bytes : Bytes) (reply : Reply) (rest : Bytes), read limit shape bytes = .ok reply rest →
      (∀ text, reply ≠ error text) →
        reply.HasShape shape ∧ reply.payload.length ≤ limit ∧ bytes = reply.encode ++ rest) ∧
    (∀ (bytes : Bytes) (text : String) (rest : Bytes),
      read limit shape bytes = .ok (error text) rest →
        ∃ content, content.length ≤ limit ∧ Utf8.lossy content = text ∧
          bytes = errorStatus :: (Wire.number content.length ++ content ++ rest)) := by
  have hexact := exact_read hlimit shape
  refine ⟨fun reply hanswers hle => ?_, fun bytes reply rest hread hne => ?_,
    fun bytes text rest hread => ?_⟩
  · have hwritten := hanswers.written hle
    exact ⟨hexact.complete hwritten, fun front => hexact.short hwritten⟩
  · obtain ⟨_, ⟨hshape, hle⟩ | _, rfl⟩ := hexact.sound hread
    · exact ⟨hshape, hle, rfl⟩
    · exact absurd rfl (hne _)
  · obtain ⟨front, hwritten, rfl⟩ := hexact.sound hread
    cases hwritten with
    | made hshape => cases hshape
    | @failed content hle => exact ⟨content, hle, rfl, rfl⟩

/-- An error where a number is expected, with other bytes behind it and cut inside its text; a reply
that fills the limit; and an error of which the text is none. -/
theorem reply_read_exactly_error :
    2 < Offset.range ∧ (error "é").Answers .size ∧ (error "é").payload.length ≤ 2 ∧
      read 2 .size ((error "é").encode ++ [0, 7]) = .ok (error "é") [0, 7] ∧
      [1, 0, 0, 0, 0, 0, 0, 0, 2, 0xC3] <+: (error "é").encode ∧
      read 2 .size [1, 0, 0, 0, 0, 0, 0, 0, 2, 0xC3] = .error (.io .endOfInput) [] ∧
      read 2 .bytes [0, 0, 0, 0, 0, 0, 0, 0, 2, 8, 9, 1] = .ok (.bytes [8, 9]) [1] ∧
      (.bytes [8, 9] : Reply).HasShape .bytes ∧
      [0, 0, 0, 0, 0, 0, 0, 0, 2, 8, 9, 1] = (.bytes [8, 9] : Reply).encode ++ [1] ∧
      read 2 .done [1, 0, 0, 0, 0, 0, 0, 0, 2, 0xC3, 0x28] = .ok (error "\uFFFD(") [] ∧
      ∃ content, content.length ≤ 2 ∧ Utf8.lossy content = "\uFFFD(" ∧
        [1, 0, 0, 0, 0, 0, 0, 0, 2, 0xC3, 0x28] =
          errorStatus :: (Wire.number content.length ++ content ++ []) := by
  have hlimit : 2 < Offset.range := by decide
  have hanswers : (error "é").Answers .size := .failed "é"
  have hpayload : (error "é").payload.length ≤ 2 := by decide +kernel
  have hencode : (error "é").encode = [1, 0, 0, 0, 0, 0, 0, 0, 2, 0xC3, 0xA9] := by decide +kernel
  have hfront : [1, 0, 0, 0, 0, 0, 0, 0, 2, 0xC3] <+: (error "é").encode := by
    rw [hencode]
    decide
  have hcontent : read 2 .bytes [0, 0, 0, 0, 0, 0, 0, 0, 2, 8, 9, 1] = .ok (.bytes [8, 9]) [1] := by
    have hbytes : (bytes [8, 9]).encode ++ [1] = [0, 0, 0, 0, 0, 0, 0, 0, 2, 8, 9, 1] := by
      decide +kernel
    rw [← hbytes]
    exact read_encode (.bytes [8, 9]) hlimit (by decide) [1]
  have htext : read 2 .done [1, 0, 0, 0, 0, 0, 0, 0, 2, 0xC3, 0x28] =
      .ok (error "\uFFFD(") [] := by
    have hbytes : errorStatus :: Wire.payload [0xC3, 0x28] ++ [] =
        [1, 0, 0, 0, 0, 0, 0, 0, 2, 0xC3, 0x28] := by decide +kernel
    have hlossy : Utf8.lossy [0xC3, 0x28] = "\uFFFD(" := by decide +kernel
    rw [← hbytes, ← hlossy]
    exact (exact_read hlimit .done).complete (.failed (by decide)) []
  obtain ⟨hread, hshort⟩ := (reply_read_exactly hlimit .size).1 _ hanswers hpayload
  obtain ⟨hshape, -, hbytes⟩ := (reply_read_exactly hlimit .bytes).2.1 _ _ _ hcontent
    (by intro text h; cases h)
  have hcut := hshort _ hfront (by rw [hencode]; decide)
  have hlossy := (reply_read_exactly hlimit .done).2.2 _ _ _ htext
  exact ⟨hlimit, hanswers, hpayload, hread [0, 7], hfront, hcut, hcontent, hshape, hbytes, htext,
    hlossy⟩

end FramedStore.Reply
