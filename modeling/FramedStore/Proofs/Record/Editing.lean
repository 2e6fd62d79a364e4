import FramedStore.Proofs.Effect.Run
import FramedStore.Proofs.Record.Cursor
import FramedStore.Proofs.Record.Places

/-!
# Records edited under a cursor

A cursor at a boundary of the records of a list, in memory, does to the bytes what `Records.apply`
does to the list, call after call (`trace_mirrors_records`): from the bytes alone it finds the record
at the place again, whatever was put in or taken out before.
-/

namespace FramedStore

open Effect

/-! ### Calls at a cursor -/

namespace Cursor

variable {framing : Framing} {passed rest taken : List Bytes} {content : Bytes}
  {records : Records}

/-- The record at the place stands at the cursor. -/
theorem encode_isPrefix (passed : List Bytes) (content : Bytes) (rest : List Bytes) :
    framing.encode content <+: (framing.encodeAll (passed ++ content :: rest)).drop
      (framing.encodeAll passed).length := by
  rw [Framing.encodeAll_append, List.drop_left]
  exact List.prefix_append _ _

/-- Behind the record at the place, the cursor is at the next place. -/
theorem cursor_behind (passed : List Bytes) (content : Bytes) (rest : List Bytes) :
    (⟨⟨framing.encodeAll (passed ++ content :: rest)⟩,
        (framing.boundsBehind passed content).stop⟩ : Cursor Memory) =
      Records.cursor framing ⟨passed ++ [content], rest⟩ := by
  simp [Records.cursor, Records.all, Framing.boundsBehind]

theorem bounds?_apply (hfits : records.Fits framing) :
    bounds? framing (records.cursor framing) =
      .ok (records.bounds? framing) (records.cursor framing) := by
  refine onStorage_ok ?_
  obtain ⟨passed, _ | ⟨content, rest⟩⟩ := records
  · refine Framing.boundsAt?_end ?_
    simp [Records.cursor, Records.all]
  · rw [Records.bounds?, List.head?_cons, Option.map_some, Framing.boundsBehind_eq]
    exact Framing.boundsAt?_of_isPrefix hfits (encode_isPrefix passed content rest)

/-- At the end there is no record, whatever is to be done with it. -/
theorem none_at_end (hfits : Records.Fits framing ⟨passed, []⟩) :
    decode? framing (Records.cursor framing ⟨passed, []⟩) =
        .ok none (Records.cursor framing ⟨passed, []⟩) ∧
      skip? framing (Records.cursor framing ⟨passed, []⟩) =
        .ok none (Records.cursor framing ⟨passed, []⟩) ∧
      delete? framing (Records.cursor framing ⟨passed, []⟩) =
        .ok none (Records.cursor framing ⟨passed, []⟩) :=
  ⟨(bind_ok (bounds?_apply hfits)).trans rfl, (bind_ok (bounds?_apply hfits)).trans rfl,
    (bind_ok (bounds?_apply hfits)).trans rfl⟩

section Cons

variable (hfits : Records.Fits framing ⟨passed, content :: rest⟩)
include hfits

theorem skip?_cons :
    skip? framing (Records.cursor framing ⟨passed, content :: rest⟩) =
      .ok (some (framing.boundsBehind passed content))
        (Records.cursor framing ⟨passed ++ [content], rest⟩) := by
  refine (bind_ok (bounds?_apply hfits)).trans ?_
  rw [← cursor_behind]
  rfl

theorem decode?_cons :
    decode? framing (Records.cursor framing ⟨passed, content :: rest⟩) =
      .ok (some content) (Records.cursor framing ⟨passed ++ [content], rest⟩) := by
  have hslice : onStorage (Storage.slice (framing.boundsBehind passed content).content
      (framing.boundsBehind passed content).stop)
      (Records.cursor framing ⟨passed, content :: rest⟩) =
        .ok content (Records.cursor framing ⟨passed, content :: rest⟩) := by
    rw [Framing.boundsBehind_eq]
    exact onStorage_ok (Framing.slice_boundsOf (encode_isPrefix passed content rest))
  refine (bind_ok (bounds?_apply hfits)).trans ?_
  refine (bind_ok hslice).trans ?_
  rw [← cursor_behind]
  rfl

theorem delete?_cons :
    delete? framing (Records.cursor framing ⟨passed, content :: rest⟩) =
      .ok (some (framing.boundsBehind passed content))
        (Records.cursor framing ⟨passed, rest⟩) := by
  have hremove : Storage.delete (framing.boundsBehind passed content).start
      (framing.boundsBehind passed content).stop
      (⟨framing.encodeAll (passed ++ content :: rest)⟩ : Memory) =
        .ok ⟨⟩ ⟨framing.encodeAll (passed ++ rest)⟩ := by
    have hbytes : framing.encodeAll (passed ++ content :: rest) =
        framing.encodeAll passed ++ framing.encode content ++ framing.encodeAll rest := by
      simp
    simp only [Framing.boundsBehind_eq, Framing.boundsOf]
    rw [Memory.delete_apply, hbytes, if_pos, Bytes.remove_middle, Framing.encodeAll_append]
    simp only [List.length_append]
    omega
  refine (bind_ok (bounds?_apply hfits)).trans ?_
  exact (bind_ok (onStorage_ok hremove)).trans rfl

end Cons

/-! ### Several records -/

theorem yields_decode? (hfits : Records.Fits framing ⟨passed, taken ++ rest⟩) :
    Yields (decode? framing) (Records.cursor framing ⟨passed, taken ++ rest⟩) taken
      (Records.cursor framing ⟨passed ++ taken, rest⟩) := by
  induction taken generalizing passed with
  | nil =>
    rw [List.append_nil]
    exact .nil _
  | cons content taken ih =>
    have hnext : Records.Fits framing ⟨passed ++ [content], taken ++ rest⟩ := by
      simpa [Records.Fits, Records.all] using hfits
    have hrest := ih hnext
    rw [List.append_assoc] at hrest
    exact .cons (decode?_cons hfits) hrest

theorem yields_delete? (hfits : Records.Fits framing ⟨passed, taken ++ rest⟩) :
    Yields (delete? framing) (Records.cursor framing ⟨passed, taken ++ rest⟩)
      (taken.map (framing.boundsBehind passed)) (Records.cursor framing ⟨passed, rest⟩) := by
  induction taken with
  | nil => exact .nil _
  | cons content taken ih =>
    have hfewer : Records.Fits framing ⟨passed, [content] ++ (taken ++ rest)⟩ := hfits
    exact .cons (delete?_cons hfits) (ih hfewer.of_taken)

theorem length_lt_range (hfits : Records.Fits framing ⟨passed, taken ++ rest⟩) :
    taken.length < Offset.range := by
  have h1 := Bytes.length_le_flatMap framing.encode_ne_nil (Records.all ⟨passed, taken ++ rest⟩)
  have h2 := Bytes.lt_range_of_le_capacity hfits
  unfold Framing.encodeAll at h2
  simp only [Records.all, List.length_append] at h1 h2
  omega

theorem decodeMany_apply (hfits : records.Fits framing) (max : Int) :
    decodeMany framing max (records.cursor framing) =
      .ok (records.ahead.take (records.reach max))
        (Records.cursor framing (records.advance (records.reach max))) := by
  obtain ⟨taken, rest, hcut, hlength, hends⟩ := records.exists_reach max
  obtain ⟨passed, ahead⟩ := records
  obtain rfl : ahead = taken ++ rest := hcut
  rw [Records.advance, List.take_left' hlength, List.drop_left' hlength]
  refine collect_of_yields (yields_decode? hfits) ?_ (length_lt_range hfits)
  refine hends.imp_right fun ⟨hmax, hrest⟩ => ⟨hmax, ?_⟩
  subst hrest
  refine (none_at_end ?_).1
  simpa [Records.Fits, Records.all] using hfits

theorem deleteMany_apply (hfits : records.Fits framing) (max : Int) :
    deleteMany framing max (records.cursor framing) =
      .ok (records.reach max)
        (Records.cursor framing ⟨records.passed, records.ahead.drop (records.reach max)⟩) := by
  obtain ⟨taken, rest, hcut, hlength, hends⟩ := records.exists_reach max
  obtain ⟨passed, ahead⟩ := records
  obtain rfl : ahead = taken ++ rest := hcut
  rw [List.drop_left' hlength, ← hlength]
  have hcollect : collect max (delete? framing)
      (Records.cursor framing ⟨passed, taken ++ rest⟩) =
        .ok (taken.map (framing.boundsBehind passed)) (Records.cursor framing ⟨passed, rest⟩) := by
    refine collect_of_yields (yields_delete? hfits) ?_ (by simpa using length_lt_range hfits)
    rw [List.length_map]
    refine hends.imp_right fun ⟨hmax, hrest⟩ => ⟨hmax, ?_⟩
    subst hrest
    exact (none_at_end hfits.of_taken).2.2
  refine (bind_ok hcollect).trans ?_
  rw [List.length_map]
  rfl

/-! ### Records put in -/

theorem append_apply
    (hafter : Records.Fits framing ⟨records.passed, records.ahead ++ [content]⟩) :
    onStorage (framing.append content) (records.cursor framing) =
      .ok (framing.boundsBehind records.all content)
        (Records.cursor framing ⟨records.passed, records.ahead ++ [content]⟩) := by
  have hbytes : framing.encodeAll (Records.all ⟨records.passed, records.ahead ++ [content]⟩) =
      framing.encodeAll records.all ++ framing.encode content := by
    simp [Records.all]
  rw [Records.Fits, hbytes] at hafter
  refine (onStorage_ok (Framing.append_apply hafter)).trans ?_
  rw [Framing.boundsBehind_eq]
  simp only [Records.cursor, hbytes]

theorem insert_apply
    (hafter : Records.Fits framing ⟨records.passed ++ [content], records.ahead⟩) :
    insert framing content (records.cursor framing) =
      .ok (framing.boundsBehind records.passed content)
        (Records.cursor framing ⟨records.passed ++ [content], records.ahead⟩) := by
  have hbytes : (framing.encodeAll records.all).insertAt
      (framing.encodeAll records.passed).length (framing.encode content) =
        framing.encodeAll (Records.all ⟨records.passed ++ [content], records.ahead⟩) := by
    simp [Bytes.insertAt, Records.all]
  unfold Records.Fits at hafter
  simp only [Records.all, Framing.encodeAll_append, Framing.encodeAll_cons, Framing.encodeAll_nil,
    List.length_append, List.length_nil] at hafter
  have hstop : Offset.add (framing.encodeAll records.passed).length
      (framing.encode content).length =
        (framing.encodeAll records.passed).length + (framing.encode content).length :=
    Bytes.offset_add_eq (by omega) (by omega)
  have hinsert : onStorage (Storage.insert (framing.encodeAll records.passed).length
      (framing.encode content)) (records.cursor framing) =
        .ok ⟨⟩ ⟨⟨framing.encodeAll (Records.all ⟨records.passed ++ [content], records.ahead⟩)⟩,
          (framing.encodeAll records.passed).length⟩ := by
    refine onStorage_ok ?_
    rw [Records.cursor, Memory.insert_apply, if_pos (by simp [Records.all]), hbytes]
  unfold insert
  refine (bind_ok (get_apply _)).trans ?_
  refine (bind_ok hinsert).trans ?_
  rw [show (records.cursor framing).offset = (framing.encodeAll records.passed).length from rfl,
    hstop]
  simp [Framing.boundsBehind, Framing.length_encode, Records.cursor, ← Nat.add_assoc]

theorem seek_boundary {offset : Nat} (h : framing.Boundary records.all offset) :
    seek offset (records.cursor framing) =
      .ok ⟨⟩ (Records.cursor framing (Records.placeAt framing offset records.all)) := by
  obtain ⟨before, ⟨rest, hall⟩, rfl⟩ := h
  rw [← hall, Records.placeAt_boundary, seek_apply, Records.cursor, ← hall]
  rfl

/-- **A call at a cursor does to the bytes what it does to the records.** -/
theorem perform_apply {call : Call} (h : records.Allows framing call) :
    perform framing call (records.cursor framing) =
      .ok (Records.apply framing call records).1
        (Records.cursor framing (Records.apply framing call records).2) := by
  obtain ⟨hfits, hafter, hboundary⟩ := h
  cases call with
  | append content => exact (bind_ok (append_apply hafter)).trans rfl
  | insert content => exact (bind_ok (insert_apply hafter)).trans rfl
  | delete =>
    obtain ⟨passed, _ | ⟨content, rest⟩⟩ := records
    · exact (bind_ok (none_at_end hfits).2.2).trans rfl
    · exact (bind_ok (delete?_cons hfits)).trans rfl
  | deleteMany max => exact (bind_ok (deleteMany_apply hfits max)).trans rfl
  | decode =>
    obtain ⟨passed, _ | ⟨content, rest⟩⟩ := records
    · refine (bind_ok (none_at_end hfits).1).trans ?_
      simp [Records.apply, Records.advance]
    · exact (bind_ok (decode?_cons hfits)).trans rfl
  | decodeMany max => exact (bind_ok (decodeMany_apply hfits max)).trans rfl
  | skip =>
    obtain ⟨passed, _ | ⟨content, rest⟩⟩ := records
    · refine (bind_ok (none_at_end hfits).2.1).trans ?_
      simp [Records.apply, Records.advance, Records.bounds?]
    · exact (bind_ok (skip?_cons hfits)).trans rfl
  | bounds => exact (bind_ok (bounds?_apply hfits)).trans rfl
  | seek offset => exact (bind_ok (seek_boundary (hboundary offset rfl))).trans rfl

/-! ### Runs -/

/-- A step at a cursor gives the answer of a step on the records, and leaves the cursor over their
bytes. -/
def Mirrors (framing : Framing) (edit : Step Call (Cursor Memory) Answer)
    (model : Step Call Records Answer) : Prop :=
  (∃ answer, edit.outcome = .ok answer ∧ model.outcome = .ok answer) ∧
    edit.after = model.after.cursor framing

/-- **A cursor in memory edits a list of records.** As long as the records fit into one byte string,
and the cursor is only moved to their boundaries, no call fails, each gives the answer of the list,
and leaves the bytes of its records with the cursor at the same place. -/
theorem trace_mirrors_records (framing : Framing) {calls : List Call} {records : Records}
    (hallowed : Throughout (Records.perform framing)
      (fun call records => records.Allows framing call) calls records) :
    List.Forall₂ (Mirrors framing)
      (trace (perform framing) calls (records.cursor framing))
      (trace (Records.perform framing) calls records) := by
  refine forall₂_trace (fun cursor records => cursor = records.cursor framing) ?_ calls _ _ rfl
    hallowed
  rintro call _ records rfl h
  rw [step_ok (perform_apply h), step_ok (rfl : Records.perform framing call records = _)]
  exact ⟨rfl, ⟨_, rfl, rfl⟩, rfl⟩

/-- A run that moves back to a record whose content looks like records, takes it out, and goes on to
the end. -/
theorem trace_mirrors_records_lookalike :
    Throughout (Records.perform .byte) (fun call records => records.Allows .byte call)
      [.decode, .insert [], .append [7], .seek 0, .skip, .seek 0, .delete, .deleteMany 1,
        .decodeMany (-1), .decode, .append [255], .decode]
      ⟨[[1, 97, 0]], [[255]]⟩ ∧
    List.Forall₂ (Mirrors .byte)
      (trace (perform .byte)
        [.decode, .insert [], .append [7], .seek 0, .skip, .seek 0, .delete, .deleteMany 1,
          .decodeMany (-1), .decode, .append [255], .decode]
        (Records.cursor .byte ⟨[[1, 97, 0]], [[255]]⟩))
      (trace (Records.perform .byte)
        [.decode, .insert [], .append [7], .seek 0, .skip, .seek 0, .delete, .deleteMany 1,
          .decodeMany (-1), .decode, .append [255], .decode]
        ⟨[[1, 97, 0]], [[255]]⟩) := by
  have hallowed : Throughout (Records.perform .byte)
      (fun call records => records.Allows .byte call)
      [.decode, .insert [], .append [7], .seek 0, .skip, .seek 0, .delete, .deleteMany 1,
        .decodeMany (-1), .decode, .append [255], .decode]
      ⟨[[1, 97, 0]], [[255]]⟩ := by
    unfold Throughout
    decide +kernel
  exact ⟨hallowed, trace_mirrors_records .byte hallowed⟩

end Cursor

end FramedStore
