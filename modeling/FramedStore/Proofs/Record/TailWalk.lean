import FramedStore.Proofs.Record.Cursor
import FramedStore.Proofs.Record.Trailer
import FramedStore.Proofs.Storage.Lawful
import Mathlib.Data.List.Induction

/-!
# Records walked from their end

In any storage that keeps what is added, the record that ends at a position is the one that
`splitLast?` finds at the end of the bytes up to there (`boundsBefore?_of_split`). So records that
were added are walked back from the last one to the first, and the walk ends where the bytes were
that stood there before.
-/

namespace FramedStore

open Effect

variable {σ : Type} [Storage σ] {holds : σ → Bytes → Prop} {s : σ} {bytes front content : Bytes}
  {tail : Nat}

namespace Trailer

/-- The content of a record stands between the bounds, and its trailer behind it. -/
structure Delimits (bytes : Bytes) (bounds : TailBounds) (record : Bytes) : Prop where
  content : bytes.slice bounds.content bounds.contentEnd = record
  trailer : bytes.slice bounds.contentEnd bounds.stop = Nested.writeBack record.length

/-- The bounds of the record of a content that starts at a position. -/
def boundsOf (position : Nat) (content : Bytes) : TailBounds :=
  ⟨position, position + content.length, position + (encode content).length⟩

theorem delimits_boundsOf (front content rest : Bytes) :
    Delimits (front ++ encode content ++ rest) (boundsOf front.length content) content where
  content := by
    simp [Bytes.slice, boundsOf, encode]
  trailer := by
    have hfront : (front ++ encode content ++ rest).drop (front.length + content.length) =
        Nested.writeBack content.length ++ rest := by
      rw [encode, ← List.append_assoc, List.append_assoc, ← List.length_append, List.drop_left]
    rw [Bytes.slice, boundsOf, hfront, length_encode, ← Nat.add_assoc, Nat.add_sub_cancel_left,
      List.take_left]

/-! ### The record that ends at a position -/

section Before

variable (hlawful : Storage.Lawful holds) (hs : holds s bytes)
include hlawful hs

theorem boundsBefore?_past (h : bytes.length < tail) :
    ∃ t, holds t bytes ∧
      boundsBefore? tail s = .error (.outOfRange tail tail bytes.length) t := by
  obtain ⟨t, ht, hsize⟩ := hlawful.size hs
  refine ⟨t, ht, ?_⟩
  unfold boundsBefore?
  simp only [if_apply]
  rw [if_neg (by omega), bind_ok hsize]
  simp only [if_apply]
  rw [if_pos h]
  rfl

variable (hpos : 0 < tail) (hle : tail ≤ bytes.length)
include hpos hle

/-- The bounds are what the trailer at the end of the bytes up to there says. -/
theorem boundsBefore?_read :
    ∃ t, holds t bytes ∧ boundsBefore? tail s =
      match read ((bytes.take tail).drop (tail - maxLength)) with
      | .error cause => .error (.malformed tail cause) t
      | .ok found =>
        if tail - found.headerLength < found.contentLength then
          .error (.malformed tail (.beforeStorage found.contentLength)) t
        else
          .ok (some ⟨tail - found.headerLength - found.contentLength, tail - found.headerLength,
            tail⟩) t := by
  obtain ⟨t, ht, hsize⟩ := hlawful.size hs
  obtain ⟨u, hu, hslice⟩ := hlawful.slice ht (Nat.sub_le tail maxLength) hle
  have hlength : (bytes.slice (tail - maxLength) tail).length = tail - (tail - maxLength) :=
    Bytes.length_slice hle
  have hwindow : bytes.slice (tail - maxLength) tail =
      (bytes.take tail).drop (tail - maxLength) := by
    rw [Bytes.slice, List.drop_take]
  refine ⟨u, hu, ?_⟩
  unfold boundsBefore?
  simp only [if_apply]
  rw [if_neg (by omega), bind_ok hsize]
  simp only [if_apply]
  rw [if_neg (by omega), bind_ok hslice, ← hwindow]
  cases hread : read (bytes.slice (tail - maxLength) tail) with
  | error cause => rfl
  | ok found =>
    -- the trailer lies in the window, so counting from its start or from the tail is the same
    have hheader : found.headerLength ≤ (bytes.slice (tail - maxLength) tail).length := by
      obtain ⟨-, hheader, hend⟩ := writeBack_of_read hread
      exact hheader ▸ hend.length_le
    have hstop : tail - maxLength +
        ((bytes.slice (tail - maxLength) tail).length - found.headerLength) =
          tail - found.headerLength := by
      omega
    refine (bind_ok (show Malformation.ofExcept tail (.ok found) u = .ok found u from rfl)).trans ?_
    simp only [hstop, if_apply]
    split <;> rfl

theorem boundsBefore?_of_split
    (h : splitLast? (bytes.take tail) = .ok (some (front, content))) :
    ∃ t, holds t bytes ∧ boundsBefore? tail s = .ok (some (boundsOf front.length content)) t := by
  obtain ⟨t, ht, hbounds⟩ := boundsBefore?_read hlawful hs hpos hle
  obtain ⟨hlt, hbytes⟩ := eq_encode_of_splitLast? h
  have hend : Nested.writeBack content.length <:+ bytes.take tail := by
    rw [hbytes, encode, ← List.append_assoc]
    exact List.suffix_append _ _
  have hread := read_of_isSuffix hlt (isSuffix_window hlt hend)
  have hlength := congrArg List.length hbytes
  rw [List.length_take_of_le hle] at hread
  rw [List.length_take_of_le hle, List.length_append, length_encode] at hlength
  refine ⟨t, ht, ?_⟩
  rw [hbounds, hread]
  simp only [boundsOf, length_encode]
  rw [if_neg (by omega)]
  congr <;> omega

theorem boundsBefore?_of_refused {cause : Malformation}
    (h : splitLast? (bytes.take tail) = .error cause) :
    ∃ t cause, holds t bytes ∧ boundsBefore? tail s = .error (.malformed tail cause) t := by
  obtain ⟨t, ht, hbounds⟩ := boundsBefore?_read hlawful hs hpos hle
  have hlength : (bytes.take tail).length = tail := List.length_take_of_le hle
  cases hread : read ((bytes.take tail).drop (tail - maxLength)) with
  | error cause =>
    rw [hread] at hbounds
    exact ⟨t, cause, ht, hbounds⟩
  | ok found =>
    rw [hread] at hbounds
    dsimp only at hbounds
    by_cases hshort : tail - found.headerLength < found.contentLength
    · rw [if_pos hshort] at hbounds
      exact ⟨t, _, ht, hbounds⟩
    · -- then there is a record in memory too
      have hne : bytes.take tail ≠ [] := List.length_pos_iff.mp (by omega)
      have hsplit := (splitLast?_eq_ok hne).mpr
        ⟨found, by rwa [hlength], by rw [hlength]; omega, rfl⟩
      rw [h] at hsplit
      cases hsplit

end Before

/-! ### Records that were added -/

/-- The bytes of the records of a list of contents. -/
def encodeAll (contents : List Bytes) : Bytes := contents.flatMap encode

@[simp] theorem encodeAll_nil : encodeAll [] = [] := rfl

@[simp] theorem encodeAll_cons (content : Bytes) (contents : List Bytes) :
    encodeAll (content :: contents) = encode content ++ encodeAll contents :=
  List.flatMap_cons

@[simp] theorem encodeAll_append (contents more : List Bytes) :
    encodeAll (contents ++ more) = encodeAll contents ++ encodeAll more :=
  List.flatMap_append

/-- Adds the records of contents, one after the other. -/
def appendAll : List Bytes → Effect σ Unit
  | [] => pure ()
  | content :: contents => do
    let _ ← append content
    appendAll contents

theorem appendAll_apply (hlawful : Storage.Lawful holds) (contents : List Bytes)
    (hs : holds s bytes) :
    ∃ t, holds t (bytes ++ encodeAll contents) ∧ appendAll contents s = .ok ⟨⟩ t := by
  induction contents generalizing s bytes with
  | nil =>
    rw [encodeAll_nil, List.append_nil]
    exact ⟨s, hs, rfl⟩
  | cons content contents ih =>
    obtain ⟨t, ht, hsize⟩ := hlawful.size hs
    obtain ⟨u, hu, hadd⟩ := hlawful.append ht (encode content)
    obtain ⟨v, hv, hrest⟩ := ih hu
    rw [List.append_assoc, ← encodeAll_cons] at hv
    refine ⟨v, hv, ?_⟩
    have happend : append content s = .ok _ u := (bind_ok hsize).trans ((bind_ok hadd).trans rfl)
    exact (bind_ok happend).trans hrest

end Trailer

/-! ### Walks -/

namespace Cursor

variable (hlawful : Storage.Lawful holds)
include hlawful

/-- The record that ends at the cursor is decoded, and the cursor moves to its start. -/
theorem decodeBack?_record {rest : Bytes} (hs : holds s (front ++ Trailer.encode content ++ rest))
    (hlt : content.length < Offset.range) :
    ∃ t, holds t (front ++ Trailer.encode content ++ rest) ∧
      decodeBack? (⟨s, (front ++ Trailer.encode content).length⟩ : Cursor σ) =
        .ok (some content) ⟨t, front.length⟩ := by
  have hpos : 0 < (front ++ Trailer.encode content).length := by
    have h := List.length_pos_iff.mpr (Trailer.encode_ne_nil content)
    rw [List.length_append]
    omega
  have hsplit : Trailer.splitLast? ((front ++ Trailer.encode content ++ rest).take
      (front ++ Trailer.encode content).length) = .ok (some (front, content)) := by
    rw [List.take_left]
    exact Trailer.splitLast?_append_encode hlt front
  have hdelimits := Trailer.delimits_boundsOf front content rest
  obtain ⟨t, ht, hbounds⟩ := Trailer.boundsBefore?_of_split hlawful hs hpos (by simp) hsplit
  obtain ⟨u, hu, hslice⟩ := hlawful.slice ht
    (show (Trailer.boundsOf front.length content).content ≤
      (Trailer.boundsOf front.length content).contentEnd from Nat.le_add_right _ _)
    (by simp [Trailer.boundsOf, Trailer.length_encode]; omega)
  rw [hdelimits.content] at hslice
  refine ⟨u, hu, ?_⟩
  unfold decodeBack?
  refine (bind_ok (onStorage_ok hbounds)).trans ?_
  exact (bind_ok (onStorage_ok hslice)).trans rfl

omit hlawful in
theorem decodeBack?_start (s : σ) : decodeBack? (⟨s, 0⟩ : Cursor σ) = .ok none ⟨s, 0⟩ := rfl

/-- Records are decoded from the last one to the first. -/
theorem yields_decodeBack? {contents : List Bytes} {rest : Bytes}
    (hs : holds s (front ++ Trailer.encodeAll contents ++ rest))
    (hlimit : (front ++ Trailer.encodeAll contents ++ rest).length < Offset.range) :
    ∃ t, holds t (front ++ Trailer.encodeAll contents ++ rest) ∧
      Yields decodeBack? (⟨s, (front ++ Trailer.encodeAll contents).length⟩ : Cursor σ)
        contents.reverse ⟨t, front.length⟩ := by
  -- the last record is taken first, and then stands behind those that are left
  induction contents using List.reverseRecOn generalizing s rest with
  | nil =>
    rw [Trailer.encodeAll_nil, List.append_nil] at hs ⊢
    exact ⟨s, hs, .nil _⟩
  | append_singleton contents content ih =>
    have hbytes : front ++ Trailer.encodeAll (contents ++ [content]) ++ rest =
        front ++ Trailer.encodeAll contents ++ Trailer.encode content ++ rest := by
      simp
    have hlt : content.length < Offset.range := by
      rw [hbytes] at hlimit
      simp only [List.length_append, Trailer.length_encode] at hlimit
      omega
    rw [hbytes] at hs hlimit ⊢
    obtain ⟨t, ht, hfirst⟩ := decodeBack?_record hlawful hs hlt
    rw [List.append_assoc] at ht hlimit ⊢
    obtain ⟨u, hu, hrest⟩ := ih ht hlimit
    refine ⟨u, hu, ?_⟩
    rw [List.reverse_append, List.reverse_singleton, Trailer.encodeAll_append, ← List.append_assoc,
      Trailer.encodeAll_cons, Trailer.encodeAll_nil, List.append_nil]
    exact .cons hfirst hrest

theorem decodeManyBack_apply {contents : List Bytes} {max : Int}
    (hs : holds s (bytes ++ Trailer.encodeAll contents))
    (hlimit : (bytes ++ Trailer.encodeAll contents).length < Offset.range)
    (hmax : limit max = some contents.length ∨ limit max = none ∧ bytes = []) :
    ∃ t, holds t (bytes ++ Trailer.encodeAll contents) ∧
      decodeManyBack max (⟨s, (bytes ++ Trailer.encodeAll contents).length⟩ : Cursor σ) =
        .ok contents.reverse ⟨t, bytes.length⟩ := by
  have hcount : contents.reverse.length < Offset.range := by
    have hle : contents.length ≤ (Trailer.encodeAll contents).length :=
      Bytes.length_le_flatMap Trailer.encode_ne_nil contents
    rw [List.length_append] at hlimit
    rw [List.length_reverse]
    omega
  rw [← List.append_nil (bytes ++ Trailer.encodeAll contents)] at hs hlimit
  obtain ⟨t, ht, hyields⟩ := yields_decodeBack? hlawful hs hlimit
  rw [List.append_nil] at ht
  refine ⟨t, ht, collect_of_yields hyields ?_ hcount⟩
  rw [List.length_reverse]
  refine hmax.imp_right ?_
  rintro ⟨hnone, rfl⟩
  exact ⟨by simp [hnone], decodeBack?_start t⟩

end Cursor

/-! ### From the end -/

namespace Trailer

/-- Looking before a position: nothing at the start, out of range behind the end, and else what is
taken off the end of the bytes up to there. -/
structure LooksBefore (holds : σ → Bytes → Prop) (s : σ) (bytes : Bytes) (tail : Nat) : Prop where
  start : tail = 0 → boundsBefore? tail s = .ok none s
  past : bytes.length < tail →
    ∃ t, holds t bytes ∧ boundsBefore? tail s = .error (.outOfRange tail tail bytes.length) t
  record : 0 < tail → tail ≤ bytes.length → ∃ t, holds t bytes ∧
    ((∃ rest content bounds, splitLast? (bytes.take tail) = .ok (some (rest, content)) ∧
        boundsBefore? tail s = .ok (some bounds) t ∧
        bounds.content = rest.length ∧ bounds.stop = tail ∧ Delimits bytes bounds content) ∨
      ∃ cause cause', splitLast? (bytes.take tail) = .error cause ∧
        boundsBefore? tail s = .error (.malformed tail cause') t)

/-- Records that are added behind bytes are walked back, up to those bytes; all of them, without a
limit, if there were no bytes. -/
def WalksBack (holds : σ → Bytes → Prop) (s : σ) (bytes : Bytes) (contents : List Bytes) : Prop :=
  ∃ t, holds t (bytes ++ encodeAll contents) ∧ appendAll contents s = .ok ⟨⟩ t ∧
    ∀ max, max = (contents.length : Int) ∨ max < 0 ∧ bytes = [] →
      ∃ u, holds u (bytes ++ encodeAll contents) ∧
        Cursor.decodeManyBack max
            (⟨t, (bytes ++ encodeAll contents).length⟩ : Cursor σ) =
          .ok contents.reverse ⟨u, bytes.length⟩

theorem looksBefore (hlawful : Storage.Lawful holds) (hs : holds s bytes) (tail : Nat) :
    LooksBefore holds s bytes tail where
  start := by
    rintro rfl
    rfl
  past := boundsBefore?_past hlawful hs
  record := by
    intro hpos hle
    have hlength : (bytes.take tail).length = tail := List.length_take_of_le hle
    rcases hsplit : splitLast? (bytes.take tail) with cause | _ | ⟨rest, content⟩
    · obtain ⟨t, cause', ht, hbounds⟩ := boundsBefore?_of_refused hlawful hs hpos hle hsplit
      exact ⟨t, ht, .inr ⟨cause, cause', rfl, hbounds⟩⟩
    · have hnil := (splitLast?_canonical _).nothing.mp hsplit
      rw [hnil] at hlength
      exact absurd hlength (Nat.ne_of_lt hpos)
    · obtain ⟨t, ht, hbounds⟩ := boundsBefore?_of_split hlawful hs hpos hle hsplit
      obtain ⟨-, htake⟩ := eq_encode_of_splitLast? hsplit
      have hdelimits := delimits_boundsOf rest content (bytes.drop tail)
      rw [← htake, List.take_append_drop] at hdelimits
      refine ⟨t, ht, .inl ⟨rest, content, _, rfl, hbounds, rfl, ?_, hdelimits⟩⟩
      rw [htake, List.length_append] at hlength
      exact hlength

theorem walksBack (hlawful : Storage.Lawful holds) (hs : holds s bytes) {contents : List Bytes}
    (hlimit : (bytes ++ encodeAll contents).length < Offset.range) :
    WalksBack holds s bytes contents := by
  obtain ⟨t, ht, happend⟩ := appendAll_apply hlawful contents hs
  refine ⟨t, ht, happend, fun max hmax => Cursor.decodeManyBack_apply hlawful ht hlimit ?_⟩
  unfold Cursor.limit
  rcases hmax with rfl | ⟨hneg, hnil⟩
  · left
    rw [if_neg (by omega), Int.toNat_natCast]
  · exact .inr ⟨if_pos hneg, hnil⟩

/-- **Records are found from their end.** In memory and in any storage, the last record is the one
that was written there, looking and taking off agree at every position, and what was added is
walked back to where it began. -/
theorem records_from_end (hlawful : Storage.Lawful holds) (hs : holds s bytes) :
    (∀ whole, EndsCanonically whole) ∧ (∀ tail, LooksBefore holds s bytes tail) ∧
      ∀ contents, (bytes ++ encodeAll contents).length < Offset.range →
        WalksBack holds s bytes contents :=
  ⟨splitLast?_canonical, looksBefore hlawful hs, fun _ => walksBack hlawful hs⟩

/-- Records behind bytes that look like a trailer, one of them with a content that does too. -/
theorem records_from_end_lookalike :
    (⟨[1, 2, 255]⟩ : Memory).content = [1, 2, 255] ∧
      ([1, 2, 255] ++ encodeAll [[], [1, 2, 255]]).length < Offset.range ∧
      EndsCanonically [1, 2, 255] ∧
      LooksBefore (fun (memory : Memory) bytes => memory.content = bytes) ⟨[1, 2, 255]⟩
        [1, 2, 255] 2 ∧
      WalksBack (fun (memory : Memory) bytes => memory.content = bytes) ⟨[1, 2, 255]⟩
        [1, 2, 255] [[], [1, 2, 255]] := by
  have h := records_from_end Memory.lawful (rfl : (⟨[1, 2, 255]⟩ : Memory).content = [1, 2, 255])
  exact ⟨rfl, by decide, h.1 _, h.2.1 2, h.2.2 _ (by decide)⟩

end Trailer

end FramedStore
