import FramedStore.Proofs.Effect.Ending
import FramedStore.Proofs.Record.FailedReads

/-!
# Walks over records end

Whatever bytes are in memory, a call at a cursor that finds a record moves the cursor or makes the
memory shorter, by a byte at least (`progress`). So a repetition of such calls ends, also if no number
of records is given, within one round more than there are bytes.
-/

namespace FramedStore

open Effect

/-! ### To look is to read -/

section Reads

variable (memory : Memory)

theorem Memory.reads_size : Reads memory (Storage.size memory) := rfl

theorem Memory.reads_slice (start stop : Nat) : Reads memory (Storage.slice start stop memory) := by
  rw [slice_apply]
  split
  · exact .pure _
  · exact ⟨rfl, nofun⟩

theorem Malformation.reads_ofExcept {α : Type} (position : Nat) (x : Except Malformation α) :
    Reads memory ((Malformation.ofExcept position x : Effect Memory α) memory) := by
  cases x with
  | ok a => exact .pure a
  | error cause => exact .throw nofun

theorem Framing.reads_firstByte? (window : Bytes) (indicator : Indicator) (position : Nat) :
    Reads memory (firstByte? window indicator position memory) := by
  unfold firstByte?
  refine .ite _ (.pure none) ?_
  cases window[indicator.headerLength]? with
  | some found => exact .pure (some found)
  | none => exact .bind (memory.reads_slice _ _) fun bytes => .pure bytes.head?

theorem Framing.reads_boundsAt? (framing : Framing) (position : Nat) :
    Reads memory (framing.boundsAt? position memory) := by
  unfold boundsAt?
  refine .bind memory.reads_size fun size => .ite _ (.pure none) ?_
  refine .bind (memory.reads_slice _ _) fun window => ?_
  refine .bind (Malformation.reads_ofExcept _ _ _) fun indicator => ?_
  refine .ite _ (.throw_bind (by nofun) _) ?_
  refine .bind (reads_firstByte? _ _ _ _) fun first => ?_
  exact .bind (Malformation.reads_ofExcept _ _ _) fun _ => .pure _

theorem Trailer.reads_boundsBefore? (tail : Nat) :
    Reads memory (boundsBefore? tail memory) := by
  unfold boundsBefore?
  refine .ite _ (.pure none) (.bind memory.reads_size fun size => ?_)
  refine .ite _ (.throw_bind (by nofun) _) ?_
  refine .bind (memory.reads_slice _ _) fun window => ?_
  refine .bind (Malformation.reads_ofExcept _ _ _) fun trailer => ?_
  exact .ite _ (.throw_bind (by nofun) _) (.pure _)

end Reads

namespace Cursor

variable {σ α : Type}

/-! ### Steps -/

/-- A step is not cut off, and one that has an answer leads to a state as wanted. -/
structure Advances (one : Effect σ (Option α)) (moved : σ → Prop) (s : σ) : Prop where
  finished : Finished (one s)
  moves : ∀ ⦃a t⦄, one s = .ok (some a) t → moved t

section Steps

variable {framing : Framing} {bytes : Bytes} {offset : Nat}

/-- A call that goes by what is found at the cursor. -/
theorem advances_follow {one : Effect (Cursor Memory) (Option α)} {moved : Cursor Memory → Prop}
    {found : Except Error (Option Bounds)} {answer : Bounds → α} {after : Bounds → Cursor Memory}
    (hfinds : framing.Finds bytes offset found)
    (hone : one ⟨⟨bytes⟩, offset⟩ = follow ⟨⟨bytes⟩, offset⟩ answer after found)
    (hmoved : ∀ bounds, offset < bounds.stop → bounds.stop ≤ bytes.length → moved (after bounds)) :
    Advances one moved ⟨⟨bytes⟩, offset⟩ := by
  cases hfinds with
  | atEnd =>
    refine ⟨by rw [hone]; trivial, fun a t h => ?_⟩
    cases h.symm.trans hone
  | damaged =>
    refine ⟨by rw [hone]; exact nofun, fun a t h => ?_⟩
    cases h.symm.trans hone
  | record _ _ hstart henclose =>
    refine ⟨by rw [hone]; trivial, fun a t h => ?_⟩
    cases h.symm.trans hone
    refine hmoved _ ?_ henclose.stop_le
    exact hstart ▸ henclose.start_lt.trans_le henclose.content_le

theorem reads_onStorage {effect : Effect Memory α} {cursor : Cursor Memory}
    (h : Reads cursor.storage (effect cursor.storage)) : Reads cursor (onStorage effect cursor) :=
  .within (fun _ => rfl) h

theorem finished_decodeBack? (cursor : Cursor Memory) : Finished (decodeBack? cursor) := by
  have hbounds : Reads cursor (boundsBefore? cursor) :=
    reads_onStorage (Trailer.reads_boundsBefore? cursor.storage cursor.offset)
  refine finished_bind hbounds.finished fun bounds middle _ => ?_
  cases bounds with
  | none => trivial
  | some bounds =>
    exact finished_bind (reads_onStorage (Memory.reads_slice _ _ _)).finished fun _ _ _ => trivial

/-- What calls at a cursor do where they find a record: some move the cursor on or back, and some make
the memory shorter. -/
structure Progress (framing : Framing) (bytes : Bytes) (offset : Nat) : Prop where
  decode : Advances (decode? framing)
    (fun after : Cursor Memory =>
      after.storage = ⟨bytes⟩ ∧ offset < after.offset ∧ after.offset ≤ bytes.length) ⟨⟨bytes⟩, offset⟩
  skip : Advances (skip? framing)
    (fun after : Cursor Memory =>
      after.storage = ⟨bytes⟩ ∧ offset < after.offset ∧ after.offset ≤ bytes.length) ⟨⟨bytes⟩, offset⟩
  delete : Advances (delete? framing)
    (fun after : Cursor Memory =>
      after.storage.content.length < bytes.length ∧ after.offset = offset) ⟨⟨bytes⟩, offset⟩
  decodeBack : Advances decodeBack?
    (fun after : Cursor Memory =>
      after.storage = ⟨bytes⟩ ∧ after.offset < offset ∧ offset ≤ bytes.length) ⟨⟨bytes⟩, offset⟩

theorem progress (framing : Framing) (hcap : bytes.length ≤ Bytes.capacity) (offset : Nat) :
    Progress framing bytes offset := by
  obtain ⟨found, hfinds, -, hskip, hdecode, hdelete⟩ := cursor_follows_split framing hcap offset
  constructor
  case decode => exact advances_follow hfinds hdecode fun bounds hlt hle => ⟨rfl, hlt, hle⟩
  case skip => exact advances_follow hfinds hskip fun bounds hlt hle => ⟨rfl, hlt, hle⟩
  case delete =>
    refine advances_follow hfinds hdelete fun bounds hlt hle => ⟨?_, rfl⟩
    rw [List.length_append, List.length_take, List.length_drop]
    omega
  case decodeBack => exact ⟨finished_decodeBack? _, fun content after h => decodeBack?_moves h⟩

end Steps

/-! ### Repetitions -/

section Repetitions

variable {one : Effect σ (Option α)} {s : σ}

/-- A repetition of a step whose answers lower a measure. -/
theorem endsWithin_collect (inv : σ → Prop) (measure : σ → Nat)
    (hone : ∀ s, inv s → Advances one (fun t => inv t ∧ measure t < measure s) s) (hs : inv s)
    {rounds : Nat} (hlt : measure s < rounds) (state : Option Nat × List α) :
    EndsWithin (collectRound one) rounds state s := by
  refine endsWithin_of_keeps (fun _ => inv) (fun _ => measure) (fun _ h => h) ?_ hs hlt
  rintro ⟨wanted, found⟩ s hs
  obtain ⟨hfinished, hmoves⟩ := hone s hs
  by_cases hwanted : wanted = some 0
  · rw [collectRound_last found (.inl hwanted)]
    trivial
  · rcases h : one s with ⟨_ | a, t⟩ | ⟨e, t⟩
    · rw [collectRound_none found hwanted h]
      trivial
    · rw [collectRound_again found hwanted h]
      exact hmoves h
    · rw [collectRound_error found hwanted h]
      rwa [h] at hfinished

variable (framing : Framing) {bytes : Bytes} (hcap : bytes.length ≤ Bytes.capacity) (offset : Nat)
  (state : Option Nat × List Bytes)
include hcap

theorem endsWithin_decode? :
    EndsWithin (collectRound (decode? framing)) (bytes.length + 1) state
      (⟨⟨bytes⟩, offset⟩ : Cursor Memory) := by
  refine endsWithin_collect (fun cursor => cursor.storage = ⟨bytes⟩)
    (fun cursor => bytes.length - cursor.offset) ?_ rfl (Nat.lt_succ_of_le (Nat.sub_le _ _)) state
  rintro ⟨_, offset⟩ rfl
  obtain ⟨hfinished, hmoves⟩ := (progress framing hcap offset).decode
  refine ⟨hfinished, fun content after h => ?_⟩
  obtain ⟨hstorage, hlt, hle⟩ := hmoves h
  refine ⟨hstorage, ?_⟩
  dsimp only
  omega

theorem endsWithin_decodeBack? :
    EndsWithin (collectRound decodeBack?) (bytes.length + 1) state
      (⟨⟨bytes⟩, offset⟩ : Cursor Memory) := by
  -- behind the end of the bytes nothing is read, so an offset there counts as the end
  refine endsWithin_collect (fun cursor => cursor.storage = ⟨bytes⟩)
    (fun cursor => min cursor.offset bytes.length) ?_ rfl (Nat.lt_succ_of_le (Nat.min_le_right _ _))
    state
  rintro ⟨_, offset⟩ rfl
  obtain ⟨hfinished, hmoves⟩ := (progress .byte hcap offset).decodeBack
  refine ⟨hfinished, fun content after h => ?_⟩
  obtain ⟨hstorage, hlt, hle⟩ := hmoves h
  refine ⟨hstorage, ?_⟩
  dsimp only
  omega

theorem endsWithin_delete? (state : Option Nat × List Bounds) :
    EndsWithin (collectRound (delete? framing)) (bytes.length + 1) state
      (⟨⟨bytes⟩, offset⟩ : Cursor Memory) := by
  have hshort : bytes.length < bytes.length + 1 := Nat.lt_succ_self _
  refine endsWithin_collect (fun cursor => cursor.storage.content.length ≤ Bytes.capacity)
    (fun cursor => cursor.storage.content.length) ?_ hcap hshort state
  rintro ⟨⟨bytes⟩, offset⟩ hcap
  obtain ⟨hfinished, hmoves⟩ := (progress framing hcap offset).delete
  refine ⟨hfinished, fun bounds after h => ?_⟩
  have hlt := (hmoves h).1
  exact ⟨hlt.le.trans hcap, hlt⟩

end Repetitions

end Cursor

end FramedStore
