import FramedStore.Proofs.Record.Bounds
import FramedStore.Record.Call

/-!
# Lists of records with a place

`Records` is a list of contents with a place between two of them, and `Records.apply` says what each
call at a cursor comes to there. The place is a boundary of the records in their bytes, where a
cursor stands (`Records.cursor`).
-/

namespace FramedStore

/-! ### Lists of records -/

namespace Framing

variable {framing : Framing}

/-- The bytes of the records of a list of contents. -/
def encodeAll (framing : Framing) (contents : List Bytes) : Bytes := contents.flatMap framing.encode

@[simp] theorem encodeAll_nil : framing.encodeAll [] = [] := rfl

@[simp] theorem encodeAll_cons (content : Bytes) (contents : List Bytes) :
    framing.encodeAll (content :: contents) =
      framing.encode content ++ framing.encodeAll contents :=
  List.flatMap_cons

@[simp] theorem encodeAll_append (contents more : List Bytes) :
    framing.encodeAll (contents ++ more) = framing.encodeAll contents ++ framing.encodeAll more :=
  List.flatMap_append

/-- The bounds of the record of a content behind those of others. -/
def boundsBehind (framing : Framing) (before : List Bytes) (content : Bytes) : Bounds where
  start := (framing.encodeAll before).length
  content := (framing.encodeAll before ++ framing.indicator content).length
  stop := (framing.encodeAll (before ++ [content])).length

theorem boundsBehind_eq (before : List Bytes) (content : Bytes) :
    framing.boundsBehind before content =
      framing.boundsOf (framing.encodeAll before).length content := by
  simp [boundsBehind, boundsOf]

/-- A position is the start of a record, or the end of the last one. -/
def Boundary (framing : Framing) (contents : List Bytes) (offset : Nat) : Prop :=
  ∃ before, before <+: contents ∧ (framing.encodeAll before).length = offset

end Framing

/-- A list of contents and a place in it. -/
structure Records where
  /-- The contents before the place. -/
  passed : List Bytes
  /-- The contents from the place on. -/
  ahead : List Bytes
  deriving Repr, DecidableEq

namespace Records

/-- All contents. -/
def all (records : Records) : List Bytes := records.passed ++ records.ahead

/-- The place `n` contents further on, or at the end. -/
def advance (records : Records) (n : Nat) : Records :=
  ⟨records.passed ++ records.ahead.take n, records.ahead.drop n⟩

/-- How many contents there are from the place on, at most `max` if that is not negative. -/
def reach (records : Records) (max : Int) : Nat :=
  if max < 0 then records.ahead.length else min max.toNat records.ahead.length

/-- The last place at or before an offset. -/
def placeAt (framing : Framing) : Nat → List Bytes → Records
  | _, [] => ⟨[], []⟩
  | offset, content :: rest =>
    if offset < (framing.encode content).length then ⟨[], content :: rest⟩
    else
      let found := placeAt framing (offset - (framing.encode content).length) rest
      ⟨content :: found.passed, found.ahead⟩

/-- The bounds of the record at the place. -/
def bounds? (framing : Framing) (records : Records) : Option Bounds :=
  records.ahead.head?.map (framing.boundsBehind records.passed)

/-- What a call gives, and the records after it. -/
def apply (framing : Framing) : Cursor.Call → Records → Cursor.Answer × Records
  | .append content, records =>
    (.written (framing.boundsBehind records.all content),
      ⟨records.passed, records.ahead ++ [content]⟩)
  | .insert content, records =>
    (.written (framing.boundsBehind records.passed content),
      ⟨records.passed ++ [content], records.ahead⟩)
  | .delete, records => (.found (records.bounds? framing), ⟨records.passed, records.ahead.tail⟩)
  | .deleteMany max, records =>
    (.count (records.reach max), ⟨records.passed, records.ahead.drop (records.reach max)⟩)
  | .decode, records => (.content records.ahead.head?, records.advance 1)
  | .decodeMany max, records =>
    (.contents (records.ahead.take (records.reach max)), records.advance (records.reach max))
  | .skip, records => (.found (records.bounds? framing), records.advance 1)
  | .bounds, records => (.found (records.bounds? framing), records)
  | .seek offset, records => (.done, placeAt framing offset records.all)

/-- Makes a call; none fails. -/
def perform (framing : Framing) (call : Cursor.Call) : Effect Records Cursor.Answer :=
  fun records => .ok (apply framing call records).1 (apply framing call records).2

/-- The cursor at the place, over the bytes of the records in memory. -/
def cursor (framing : Framing) (records : Records) : Cursor Memory :=
  ⟨⟨framing.encodeAll records.all⟩, (framing.encodeAll records.passed).length⟩

/-- The bytes of the records fit into one byte string. -/
def Fits (framing : Framing) (records : Records) : Prop :=
  (framing.encodeAll records.all).length ≤ Bytes.capacity

/-- Where a call moves the cursor to without looking at the records. -/
def target? : Cursor.Call → Option Nat
  | .seek offset => some offset
  | _ => none

/-- A call may be made: the records fit before and after it, and the cursor is only moved to a
boundary. -/
def Allows (framing : Framing) (records : Records) (call : Cursor.Call) : Prop :=
  records.Fits framing ∧ (apply framing call records).2.Fits framing ∧
    ∀ offset ∈ target? call, framing.Boundary records.all offset

/-! ### Places -/

variable {framing : Framing} {passed : List Bytes} {records : Records}

theorem placeAt_boundary (passed ahead : List Bytes) :
    placeAt framing (framing.encodeAll passed).length (passed ++ ahead) = ⟨passed, ahead⟩ := by
  induction passed with
  | nil =>
    cases ahead with
    | nil => rfl
    | cons content rest =>
      -- no record is empty, so the search stops in front of the first one
      have hpos := List.length_pos_iff.mpr (framing.encode_ne_nil content)
      rw [List.nil_append, placeAt, if_pos (by simpa using hpos)]
  | cons content passed ih =>
    rw [List.cons_append, placeAt, Framing.encodeAll_cons, List.length_append,
      if_neg (by omega), Nat.add_sub_cancel_left, ih]

theorem all_placeAt (framing : Framing) (offset : Nat) (contents : List Bytes) :
    (placeAt framing offset contents).all = contents := by
  induction contents generalizing offset with
  | nil => rfl
  | cons content contents ih =>
    rw [placeAt]
    split
    · rfl
    · exact congrArg (content :: ·) (ih _)

/-- An offset is a boundary if the last place at or before it is there. -/
theorem boundary_iff {contents : List Bytes} {offset : Nat} :
    (framing.encodeAll (placeAt framing offset contents).passed).length = offset ↔
      framing.Boundary contents offset := by
  constructor
  · intro h
    exact ⟨_, ⟨_, all_placeAt framing offset contents⟩, h⟩
  · rintro ⟨before, ⟨rest, rfl⟩, rfl⟩
    rw [placeAt_boundary]

instance (contents : List Bytes) (offset : Nat) : Decidable (framing.Boundary contents offset) :=
  decidable_of_iff _ boundary_iff

instance : Decidable (records.Fits framing) := inferInstanceAs (Decidable (_ ≤ _))

instance (call : Cursor.Call) : Decidable (records.Allows framing call) :=
  inferInstanceAs (Decidable (_ ∧ _ ∧ _))

/-- What `reach` takes: as many contents as wanted, or all of them if there are no more than that. -/
theorem exists_reach (records : Records) (max : Int) :
    ∃ taken rest, records.ahead = taken ++ rest ∧ taken.length = records.reach max ∧
      (Cursor.limit max = some taken.length ∨
        (∀ n ∈ Cursor.limit max, taken.length ≤ n) ∧ rest = []) := by
  unfold reach Cursor.limit
  by_cases hneg : max < 0
  · exact ⟨records.ahead, [], by simp [hneg]⟩
  rw [if_neg hneg, if_neg hneg]
  rcases Nat.le_total max.toNat records.ahead.length with hle | hle
  · have hlength := List.length_take_of_le hle
    refine ⟨_, _, (List.take_append_drop max.toNat records.ahead).symm, ?_, .inl ?_⟩
    · rw [hlength, Nat.min_eq_left hle]
    · rw [hlength]
  · refine ⟨records.ahead, [], (List.append_nil _).symm, (Nat.min_eq_right hle).symm,
      .inr ⟨?_, rfl⟩⟩
    rintro _ ⟨⟩
    exact hle

theorem Fits.of_taken {taken rest : List Bytes} (h : Fits framing ⟨passed, taken ++ rest⟩) :
    Fits framing ⟨passed, rest⟩ := by
  unfold Fits at h ⊢
  simp only [all, Framing.encodeAll_append, List.length_append] at h ⊢
  omega

end Records

end FramedStore
