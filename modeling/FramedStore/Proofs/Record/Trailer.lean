import FramedStore.Proofs.Bytes.Splice
import FramedStore.Proofs.Record.Nested
import FramedStore.Record.Trailer

/-!
# Records taken off the end of a byte string

A record with a trailer is found exactly where one ends (`splitLast?_canonical`), however much the
content in front of the trailer looks like one: the trailer is read from its own end, and only a
length in its one spelling is accepted.
-/

namespace FramedStore.Trailer

open Checks

variable {bytes rest content window : Bytes} {found : Indicator} {length : Nat}

/-! ### Trailers -/

theorem length_writeBack_le (h : length < Offset.range) :
    (Nested.writeBack length).length ≤ maxLength := by
  rw [← List.length_reverse, Nested.reverse_writeBack]
  exact Nested.length_spelling_le (fun _ => List.length_reverse) h

theorem length_writeBack_pos (length : Nat) : 0 < (Nested.writeBack length).length := by
  unfold Nested.writeBack
  split <;> simp

theorem read_of_isSuffix (h : length < Offset.range)
    (hend : Nested.writeBack length <:+ window) :
    read window = .ok ⟨(Nested.writeBack length).length, length⟩ := by
  rw [← List.length_reverse, Nested.reverse_writeBack]
  refine Nested.read_of_isPrefix (fun _ => List.length_reverse) List.reverse_reverse h ?_
  rwa [← Nested.reverse_writeBack, List.reverse_prefix]

theorem writeBack_of_read (h : read window = .ok found) :
    found.contentLength < Offset.range ∧
      found.headerLength = (Nested.writeBack found.contentLength).length ∧
      Nested.writeBack found.contentLength <:+ window := by
  obtain ⟨hlt, hheader, hfront⟩ :=
    Nested.spelling_of_read (fun _ => List.length_reverse) List.reverse_reverse h
  rw [← Nested.reverse_writeBack] at hheader hfront
  exact ⟨hlt, hheader.trans List.length_reverse, List.reverse_prefix.mp hfront⟩

/-- A trailer at the end stands in the window that is read. -/
theorem isSuffix_window (h : length < Offset.range) (hend : Nested.writeBack length <:+ bytes) :
    Nested.writeBack length <:+ bytes.drop (bytes.length - maxLength) := by
  refine List.suffix_of_suffix_length_le hend (List.drop_suffix _ _) ?_
  have h1 := length_writeBack_le h
  have h2 := hend.length_le
  rw [List.length_drop]
  omega

/-! ### The last record -/

theorem length_encode (content : Bytes) :
    (encode content).length = content.length + (Nested.writeBack content.length).length :=
  List.length_append

theorem encode_ne_nil (content : Bytes) : encode content ≠ [] := by
  have h := length_writeBack_pos content.length
  intro hnil
  simp [encode, List.length_pos_iff.mp h] at hnil

theorem splitLast?_nil : splitLast? [] = .ok none := rfl

theorem splitLast?_eq_ok (hne : bytes ≠ []) {answer : Option (Bytes × Bytes)} :
    splitLast? bytes = .ok answer ↔
      ∃ found, read (bytes.drop (bytes.length - maxLength)) = .ok found ∧
        found.contentLength ≤ bytes.length - found.headerLength ∧
        answer = some (bytes.take (bytes.length - found.headerLength - found.contentLength),
          bytes.slice (bytes.length - found.headerLength - found.contentLength)
            (bytes.length - found.headerLength)) := by
  unfold splitLast?
  rw [if_neg (by simpa using hne)]
  simp only [bind_eq_ok, refuse_eq_ok, pure_eq_ok, Nat.not_lt]
  constructor
  · rintro ⟨found, hread, hlength, rfl⟩
    exact ⟨found, hread, hlength, rfl⟩
  · rintro ⟨found, hread, hlength, rfl⟩
    exact ⟨found, hread, hlength, rfl⟩

theorem splitLast?_append_encode (h : content.length < Offset.range) (rest : Bytes) :
    splitLast? (rest ++ encode content) = .ok (some (rest, content)) := by
  have hend : Nested.writeBack content.length <:+ rest ++ encode content := by
    rw [encode, ← List.append_assoc]
    exact List.suffix_append _ _
  refine (splitLast?_eq_ok (by simp [encode_ne_nil])).mpr
    ⟨_, read_of_isSuffix h (isSuffix_window h hend), ?_, ?_⟩
  · simp [length_encode]
    omega
  · have hstop : (rest ++ encode content).length - (Nested.writeBack content.length).length =
        rest.length + content.length := by
      simp [length_encode]
      omega
    simp only [hstop, Nat.add_sub_cancel, List.take_left, Bytes.slice, List.drop_left,
      Nat.add_sub_cancel_left]
    rw [encode, List.take_left]

theorem eq_encode_of_splitLast? (h : splitLast? bytes = .ok (some (rest, content))) :
    content.length < Offset.range ∧ bytes = rest ++ encode content := by
  have hne : bytes ≠ [] := by
    rintro rfl
    simp [splitLast?_nil] at h
  obtain ⟨found, hread, hlength, hanswer⟩ := (splitLast?_eq_ok hne).mp h
  obtain ⟨hlt, hheader, hend⟩ := writeBack_of_read hread
  obtain ⟨front, rfl⟩ := hend.trans (List.drop_suffix _ _)
  -- what the record is made of is counted back from where its trailer begins
  rw [hheader, List.length_append, Nat.add_sub_cancel] at hlength hanswer
  have hrest : rest = front.take (front.length - found.contentLength) := by
    have h := congrArg Prod.fst (Option.some.inj hanswer)
    rwa [List.take_append_of_le_length (Nat.sub_le _ _)] at h
  have hcontent : content = front.drop (front.length - found.contentLength) := by
    have h := congrArg Prod.snd (Option.some.inj hanswer)
    simp only [Bytes.slice] at h
    rwa [List.drop_append_of_le_length (Nat.sub_le _ _), ← List.length_drop, List.take_left] at h
  have hcount : content.length = found.contentLength := by
    rw [hcontent, List.length_drop]
    omega
  refine ⟨by rwa [hcount], ?_⟩
  rw [encode, hcount, ← List.append_assoc, hrest, hcontent, List.take_append_drop]

/-! ### The canonical form -/

/-- What there is to take off the end of a byte string: a record exactly where it was written,
whatever precedes it; nothing only if there are no bytes; and all other bytes are refused. -/
structure EndsCanonically (bytes : Bytes) : Prop where
  record : ∀ content rest, content.length < Offset.range →
    (splitLast? bytes = .ok (some (rest, content)) ↔ bytes = rest ++ encode content)
  nothing : splitLast? bytes = .ok none ↔ bytes = []
  refused : (∃ cause, splitLast? bytes = .error cause) ↔
    bytes ≠ [] ∧ ∀ content rest, content.length < Offset.range → bytes ≠ rest ++ encode content

/-- **Records with trailers are canonical.** -/
theorem splitLast?_canonical (bytes : Bytes) : EndsCanonically bytes := by
  refine ⟨fun content rest h => ⟨fun hsplit => (eq_encode_of_splitLast? hsplit).2, ?_⟩,
    ⟨fun hnone => ?_, ?_⟩, ⟨?_, ?_⟩⟩
  · rintro rfl
    exact splitLast?_append_encode h rest
  · by_contra hne
    obtain ⟨_, _, _, hanswer⟩ := (splitLast?_eq_ok hne).mp hnone
    cases hanswer
  · rintro rfl
    exact splitLast?_nil
  · rintro ⟨cause, hcause⟩
    refine ⟨?_, fun content rest h heq => ?_⟩
    · rintro rfl
      simp [splitLast?_nil] at hcause
    · rw [heq, splitLast?_append_encode h rest] at hcause
      cases hcause
  · rintro ⟨hne, hother⟩
    cases hsplit : splitLast? bytes with
    | error cause => exact ⟨cause, rfl⟩
    | ok answer =>
      obtain ⟨found, -, -, rfl⟩ := (splitLast?_eq_ok hne).mp hsplit
      obtain ⟨hlt, heq⟩ := eq_encode_of_splitLast? hsplit
      exact absurd heq (hother _ _ hlt)

end FramedStore.Trailer
