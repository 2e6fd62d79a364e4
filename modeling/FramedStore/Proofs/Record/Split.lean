import FramedStore.Proofs.Record.Cursor
import FramedStore.Proofs.Record.Found

/-!
# Records found where they are split off

A record at a position of a storage is found by way of a window of the storage, and a record at the
front of a byte string by `splitFirst?`, which has all of the bytes. In memory the two agree at every
position, whatever bytes are there (`finds_boundsAt?`), and the calls at a cursor do what the bounds
found there say (`cursor_follows_split`).
-/

namespace FramedStore

open Effect

/-- The bounds lie in a byte string, with a content between them and the rest behind them. -/
structure Bounds.Enclose (bounds : Bounds) (bytes content rest : Bytes) : Prop where
  start_lt : bounds.start < bounds.content
  content_le : bounds.content ≤ bounds.stop
  stop_le : bounds.stop ≤ bytes.length
  content : bytes.slice bounds.content bounds.stop = content
  rest : bytes.drop bounds.stop = rest

namespace Framing

variable {framing : Framing} {bytes content rest : Bytes} {position : Nat}

/-- What is found at a position, next to what is split off the bytes from there on. -/
inductive Finds (framing : Framing) (bytes : Bytes) (position : Nat) :
    Except Error (Option Bounds) → Prop
  | atEnd (hend : bytes.length ≤ position)
      (hsplit : framing.splitFirst? (bytes.drop position) = .ok none) :
      Finds framing bytes position (.ok none)
  | record {bounds : Bounds} {content rest : Bytes} (hlt : position < bytes.length)
      (hsplit : framing.splitFirst? (bytes.drop position) = .ok (some (content, rest)))
      (hstart : bounds.start = position) (henclose : bounds.Enclose bytes content rest) :
      Finds framing bytes position (.ok (some bounds))
  | damaged {cause found : Malformation} (hlt : position < bytes.length)
      (hsplit : framing.splitFirst? (bytes.drop position) = .error cause) :
      Finds framing bytes position (.error (.malformed position found))

theorem boundsOf_enclose (h : bytes.drop position = framing.encode content ++ rest) :
    (framing.boundsOf position content).Enclose bytes content rest := by
  have hlength := congrArg List.length h
  have hpos := length_indicator_pos framing content
  rw [List.length_drop, List.length_append, length_encode] at hlength
  have hbody : bytes.drop (position + (framing.indicator content).length) = content ++ rest := by
    rw [encode, List.append_assoc] at h
    exact Bytes.drop_behind h
  constructor
  · simp only [boundsOf]
    omega
  · simp only [boundsOf, length_encode]
    omega
  · simp only [boundsOf, length_encode]
    omega
  · have hcount : position + (framing.encode content).length -
        (position + (framing.indicator content).length) = content.length := by
      rw [length_encode]
      omega
    simp only [boundsOf, Bytes.slice, hbody, hcount, List.take_left]
  · rw [boundsOf, ← List.drop_drop, h, List.drop_left]

/-- **In memory a record is found just where one can be split off**, at every position. -/
theorem finds_boundsAt? (framing : Framing) (position : Nat) (hcap : bytes.length ≤ Bytes.capacity) :
    ∃ found, Finds framing bytes position found ∧
      (framing.boundsAt? position).attempt (⟨bytes⟩ : Memory) = .ok found ⟨bytes⟩ := by
  rcases boundsAt?_cases framing position hcap with
    ⟨hend, hbounds⟩ | ⟨content, ⟨rest, hrest⟩, hbounds⟩ | ⟨hlt, hnone, cause, hbounds⟩
  · refine ⟨_, .atEnd hend ?_, by rw [attempt_apply, hbounds]⟩
    rw [List.drop_eq_nil_iff.mpr hend, splitFirst?_nil]
  · have henclose := boundsOf_enclose hrest.symm
    have hlength := congrArg List.length hrest
    rw [List.length_append, length_encode, List.length_drop] at hlength
    have hpos := length_indicator_pos framing content
    refine ⟨_, .record (by omega) ?_ rfl henclose, by rw [attempt_apply, hbounds]⟩
    rw [← hrest]
    exact splitFirst?_encode_append (Bytes.lt_range_of_le_capacity (by omega)) rest
  · have hne : bytes.drop position ≠ [] := by
      rw [Ne, List.drop_eq_nil_iff]
      omega
    obtain ⟨refused, hsplit⟩ := exists_splitFirst?_error hne
      fun content rest _ h => hnone content ⟨rest, h.symm⟩
    exact ⟨_, .damaged hlt hsplit, by rw [attempt_apply, hbounds]⟩

end Framing

namespace Cursor

variable {framing : Framing} {bytes : Bytes} {position : Nat} {α : Type}
  {found : Except Error (Option Bounds)}

/-- The outcome of a call that goes by what is found at the cursor: an answer and a move if there is a
record, and else nothing is changed. -/
def follow (cursor : Cursor Memory) (answer : Bounds → α) (after : Bounds → Cursor Memory) :
    Except Error (Option Bounds) → EStateM.Result Error (Cursor Memory) (Option α)
  | .ok none => .ok none cursor
  | .ok (some bounds) => .ok (some (answer bounds)) (after bounds)
  | .error e => .error e cursor

/-- A call that looks at the cursor first goes by what is found there, if it does so at a record. -/
theorem follow_of_record {call : Option Bounds → Effect (Cursor Memory) (Option α)}
    {answer : Bounds → α} {after : Bounds → Cursor Memory}
    (hfound : (framing.boundsAt? position).attempt (⟨bytes⟩ : Memory) = .ok found ⟨bytes⟩)
    (hnone : call none = pure none)
    (hrecord : ∀ bounds, found = .ok (some bounds) →
      call (some bounds) ⟨⟨bytes⟩, position⟩ = .ok (some (answer bounds)) (after bounds)) :
    (bounds? framing >>= call) ⟨⟨bytes⟩, position⟩ =
      follow ⟨⟨bytes⟩, position⟩ answer after found := by
  rcases found with e | _ | bounds
  · have hlook : bounds? framing (⟨⟨bytes⟩, position⟩ : Cursor Memory) =
        .error e ⟨⟨bytes⟩, position⟩ := by
      refine (bind_ok (get_apply _)).trans ?_
      rw [onStorage, within_apply, error_of_attempt hfound]
    exact bind_error hlook
  · have hlook : bounds? framing (⟨⟨bytes⟩, position⟩ : Cursor Memory) =
        .ok none ⟨⟨bytes⟩, position⟩ := onStorage_ok (ok_of_attempt hfound)
    rw [bind_ok hlook, hnone]
    rfl
  · have hlook : bounds? framing (⟨⟨bytes⟩, position⟩ : Cursor Memory) =
        .ok (some bounds) ⟨⟨bytes⟩, position⟩ := onStorage_ok (ok_of_attempt hfound)
    exact (bind_ok hlook).trans (hrecord bounds rfl)

/-- **Calls at a cursor go by the record that can be split off there**, whatever bytes are in memory and
wherever the cursor stands. All fail alike or find no record alike, and then change nothing; at a
record, `decode?` gives its content, it and `skip?` move behind the record, and `delete?` takes just
the record out. -/
theorem cursor_follows_split (framing : Framing) {bytes : Bytes}
    (hcap : bytes.length ≤ Bytes.capacity) (position : Nat) :
    ∃ found, framing.Finds bytes position found ∧
      (framing.boundsAt? position).attempt (⟨bytes⟩ : Memory) = .ok found ⟨bytes⟩ ∧
      skip? framing ⟨⟨bytes⟩, position⟩ =
        follow ⟨⟨bytes⟩, position⟩ id (fun bounds => ⟨⟨bytes⟩, bounds.stop⟩) found ∧
      decode? framing ⟨⟨bytes⟩, position⟩ =
        follow ⟨⟨bytes⟩, position⟩ (fun bounds => bytes.slice bounds.content bounds.stop)
          (fun bounds => ⟨⟨bytes⟩, bounds.stop⟩) found ∧
      delete? framing ⟨⟨bytes⟩, position⟩ =
        follow ⟨⟨bytes⟩, position⟩ id
          (fun bounds => ⟨⟨bytes.take position ++ bytes.drop bounds.stop⟩, position⟩) found := by
  obtain ⟨found, hfinds, hfound⟩ := framing.finds_boundsAt? position hcap
  refine ⟨found, hfinds, hfound, ?_, ?_, ?_⟩
  · refine follow_of_record hfound rfl fun bounds _ => ?_
    rfl
  · refine follow_of_record hfound rfl fun bounds hbounds => ?_
    subst hbounds
    cases hfinds with
    | record _ _ _ henclose =>
      exact (bind_ok (onStorage_ok (Memory.slice_of_le _ henclose.content_le henclose.stop_le))).trans
        rfl
  · refine follow_of_record hfound rfl fun bounds hbounds => ?_
    subst hbounds
    cases hfinds with
    | record _ _ hstart henclose =>
      have hremove : Storage.delete bounds.start bounds.stop (⟨bytes⟩ : Memory) =
          .ok ⟨⟩ ⟨bytes.take position ++ bytes.drop bounds.stop⟩ := by
        have hle := Nat.le_trans (Nat.le_of_lt henclose.start_lt) henclose.content_le
        rw [Memory.delete_apply, if_pos ⟨hle, henclose.stop_le⟩, Bytes.remove, hstart]
      exact (bind_ok (onStorage_ok hremove)).trans rfl

/-- A text record between another one and a length without a guard. -/
theorem cursor_follows_split_between :
    ([48, 97, 50, 90, 49, 48, 57] : Bytes).length ≤ Bytes.capacity ∧
      Framing.text.Finds [48, 97, 50, 90, 49, 48, 57] 2 (.ok (some ⟨2, 4, 6⟩)) ∧
      skip? .text (⟨⟨[48, 97, 50, 90, 49, 48, 57]⟩, 2⟩ : Cursor Memory) =
        .ok (some ⟨2, 4, 6⟩) ⟨⟨[48, 97, 50, 90, 49, 48, 57]⟩, 6⟩ ∧
      decode? .text (⟨⟨[48, 97, 50, 90, 49, 48, 57]⟩, 2⟩ : Cursor Memory) =
        .ok (some [49, 48]) ⟨⟨[48, 97, 50, 90, 49, 48, 57]⟩, 6⟩ ∧
      delete? .text (⟨⟨[48, 97, 50, 90, 49, 48, 57]⟩, 2⟩ : Cursor Memory) =
        .ok (some ⟨2, 4, 6⟩) ⟨⟨[48, 97, 57]⟩, 2⟩ := by
  have hcap : ([48, 97, 50, 90, 49, 48, 57] : Bytes).length ≤ Bytes.capacity := by decide
  obtain ⟨found, hfinds, hfound, hskip, hdecode, hdelete⟩ := cursor_follows_split .text hcap 2
  have hlook : (Framing.text.boundsAt? 2).attempt
      (⟨[48, 97, 50, 90, 49, 48, 57]⟩ : Memory) =
        .ok (.ok (some ⟨2, 4, 6⟩)) ⟨[48, 97, 50, 90, 49, 48, 57]⟩ := rfl
  obtain ⟨rfl, -⟩ := EStateM.Result.ok.inj (hfound.symm.trans hlook)
  exact ⟨hcap, hfinds, hskip, hdecode, hdelete⟩

end Cursor

end FramedStore
