import FramedStore.Proofs.Record.Split
import FramedStore.Proofs.Record.TailWalk

/-!
# Reads that fail

A read of one record moves the cursor last, so one that fails leaves it where it was, in any storage.
A read of many moves it from record to record, and one that fails leaves it at the record it failed
at: the contents that it had read before are not returned, and the cursor stands behind them
(`failed_reads_place`).
-/

namespace FramedStore.Cursor

open Effect

/-! ### Calls that move last -/

section Place

variable {σ α β : Type}

/-- A call that fails leaves the cursor where it was. -/
def KeepsPlace (call : Effect (Cursor σ) α) : Prop :=
  ∀ ⦃cursor e after⦄, call cursor = .error e after → after.offset = cursor.offset

/-- A call leaves the cursor where it is. -/
structure Stays (call : Effect (Cursor σ) α) : Prop where
  ok : ∀ ⦃cursor a after⦄, call cursor = .ok a after → after.offset = cursor.offset
  error : KeepsPlace call

theorem Stays.bind {call : Effect (Cursor σ) α} {next : α → Effect (Cursor σ) β} (h : Stays call)
    (hnext : ∀ a, KeepsPlace (next a)) : KeepsPlace (call >>= next) := by
  intro cursor e after herror
  rcases bind_error_iff.mp herror with herror | ⟨a, middle, hok, herror⟩
  · exact h.error herror
  · exact (hnext a herror).trans (h.ok hok)

theorem stays_onStorage (effect : Effect σ α) : Stays (onStorage effect) where
  ok cursor a after h := (onStorage_eq_ok h).2
  error cursor e after h := by
    rw [onStorage, within_apply] at h
    split at h <;> cases h
    rfl

theorem keepsPlace_pure (a : α) : KeepsPlace (pure a : Effect (Cursor σ) α) := nofun

theorem keepsPlace_moved (offset : Nat) (a : α) :
    KeepsPlace (do seek offset; return a : Effect (Cursor σ) α) := nofun

/-- A call that looks from the place of the cursor on first, and keeps its place after that. -/
theorem keepsPlace_look (look : Nat → Effect σ α) {next : α → Effect (Cursor σ) β}
    (hnext : ∀ a, KeepsPlace (next a)) :
    KeepsPlace ((do onStorage (look (← get).offset)) >>= next) := by
  refine Stays.bind ⟨fun cursor _ _ h => ?_, fun cursor _ _ h => ?_⟩ hnext
  · exact (stays_onStorage (look cursor.offset)).ok h
  · exact (stays_onStorage (look cursor.offset)).error h

variable [Storage σ]

theorem keepsPlace_decode? (framing : Framing) :
    KeepsPlace (decode? framing : Effect (Cursor σ) (Option Bytes)) := by
  refine keepsPlace_look framing.boundsAt? fun bounds => ?_
  cases bounds with
  | none => exact keepsPlace_pure none
  | some bounds => exact (stays_onStorage _).bind fun content => keepsPlace_moved _ _

theorem keepsPlace_skip? (framing : Framing) :
    KeepsPlace (skip? framing : Effect (Cursor σ) (Option Bounds)) := by
  refine keepsPlace_look framing.boundsAt? fun bounds => ?_
  cases bounds with
  | none => exact keepsPlace_pure none
  | some bounds => exact keepsPlace_moved _ _

/-- Where the content is no text the cursor has moved, and is put back. -/
theorem keepsPlace_decodeText? : KeepsPlace (decodeText? : Effect (Cursor σ) (Option String)) := by
  intro cursor e after h
  rcases bind_error_iff.mp ((bind_ok (get_apply cursor)).symm.trans h) with
    h | ⟨content, middle, -, h⟩
  · exact keepsPlace_decode? .text h
  · cases content with
    | none => cases h
    | some content =>
      cases hdecode : Utf8.decode content with
      | ok text =>
        simp only [hdecode] at h
        cases h
      | error fault =>
        simp only [hdecode] at h
        cases h
        rfl

theorem keepsPlace_decodeBack? : KeepsPlace (decodeBack? : Effect (Cursor σ) (Option Bytes)) := by
  refine keepsPlace_look Trailer.boundsBefore? fun bounds => ?_
  cases bounds with
  | none => exact keepsPlace_pure none
  | some bounds => exact (stays_onStorage _).bind fun content => keepsPlace_moved _ _

theorem keepsPlace_skipBack? :
    KeepsPlace (skipBack? : Effect (Cursor σ) (Option TailBounds)) := by
  refine keepsPlace_look Trailer.boundsBefore? fun bounds => ?_
  cases bounds with
  | none => exact keepsPlace_pure none
  | some bounds => exact keepsPlace_moved _ _

end Place

/-! ### Reads of many records -/

section Many

variable {framing : Framing} {bytes content : Bytes} {offset : Nat} {after : Cursor Memory} {e : Error}
  {max : Int}

/-- A record that starts at a position ends behind it. -/
theorem boundsAt?_lt {position : Nat} {bounds : Bounds} {memory : Memory}
    (hcap : bytes.length ≤ Bytes.capacity)
    (h : framing.boundsAt? position (⟨bytes⟩ : Memory) = .ok (some bounds) memory) :
    memory = ⟨bytes⟩ ∧ position < bounds.stop ∧ bounds.stop ≤ bytes.length := by
  rcases framing.boundsAt?_cases position hcap with
    ⟨-, hnone⟩ | ⟨record, ⟨rest, hrest⟩, hfound⟩ | ⟨-, -, _, herror⟩
  · cases h.symm.trans hnone
  · cases h.symm.trans hfound
    have henclose := Framing.boundsOf_enclose hrest.symm
    exact ⟨rfl, henclose.start_lt.trans_le henclose.content_le, henclose.stop_le⟩
  · cases h.symm.trans herror

/-- A record that ends at a position starts before it. -/
theorem boundsBefore?_lt {tail : Nat} {bounds : TailBounds} {memory : Memory}
    (h : Trailer.boundsBefore? tail (⟨bytes⟩ : Memory) = .ok (some bounds) memory) :
    memory = ⟨bytes⟩ ∧ bounds.content < tail ∧ tail ≤ bytes.length := by
  have hlooks := Trailer.looksBefore Memory.lawful (rfl : (⟨bytes⟩ : Memory).content = bytes) tail
  rcases Nat.eq_zero_or_pos tail with hzero | hpos
  · cases h.symm.trans (hlooks.start hzero)
  rcases Nat.lt_or_ge bytes.length tail with hpast | hle
  · obtain ⟨_, -, hout⟩ := hlooks.past hpast
    cases h.symm.trans hout
  obtain ⟨_, hmemory, ⟨rest, content, _, hsplit, hbounds, hstart, -⟩ | ⟨_, _, -, hbounds⟩⟩ :=
    hlooks.record hpos hle
  · cases h.symm.trans hbounds
    have hlength := congrArg List.length (Trailer.eq_encode_of_splitLast? hsplit).2
    have hencode := List.length_pos_iff.mpr (Trailer.encode_ne_nil content)
    rw [List.length_take_of_le hle, List.length_append] at hlength
    exact ⟨congrArg Memory.mk hmemory, by omega, hle⟩
  · cases h.symm.trans hbounds

/-- A read that gives a content moves the cursor on. -/
theorem decode?_moves (hcap : bytes.length ≤ Bytes.capacity)
    (h : decode? framing ⟨⟨bytes⟩, offset⟩ = .ok (some content) after) :
    after.storage = ⟨bytes⟩ ∧ offset < after.offset ∧ after.offset ≤ bytes.length := by
  obtain ⟨bounds, middle, hlook, h⟩ := bind_ok_iff.mp h
  cases bounds with
  | none => cases h
  | some bounds =>
    obtain ⟨_, _, hslice, h⟩ := bind_ok_iff.mp h
    cases h
    obtain ⟨hmiddle, hbounds⟩ := boundsAt?_lt hcap (onStorage_eq_ok hlook).1
    rw [Memory.after_slice _ (onStorage_eq_ok hslice).1]
    exact ⟨hmiddle, hbounds⟩

/-- A read from the end that gives a content moves the cursor back. -/
theorem decodeBack?_moves (h : decodeBack? ⟨⟨bytes⟩, offset⟩ = .ok (some content) after) :
    after.storage = ⟨bytes⟩ ∧ after.offset < offset ∧ offset ≤ bytes.length := by
  obtain ⟨bounds, middle, hlook, h⟩ := bind_ok_iff.mp h
  cases bounds with
  | none => cases h
  | some bounds =>
    obtain ⟨_, _, hslice, h⟩ := bind_ok_iff.mp h
    cases h
    obtain ⟨hmiddle, hbounds⟩ := boundsBefore?_lt (onStorage_eq_ok hlook).1
    rw [Memory.after_slice _ (onStorage_eq_ok hslice).1]
    exact ⟨hmiddle, hbounds⟩

/-- A read of many fails at a record that cannot be read, and leaves the cursor there; this is where it
was just if no content was read before. -/
structure FailsAtRecord (one : Effect (Cursor Memory) (Option Bytes))
    (many : Effect (Cursor Memory) (List Bytes)) (max : Int) (cursor : Cursor Memory) : Prop where
  error_iff : ∀ e after, many cursor = .error e after ↔
    ∃ found last, BreaksOff one (limit max) cursor found last e after
  place : ∀ ⦃found last e after⦄, BreaksOff one (limit max) cursor found last e after →
    after.offset = last.offset ∧ (after.offset = cursor.offset ↔ found = [])

theorem failsAtRecord_collect {one : Effect (Cursor Memory) (Option Bytes)} (measure : Nat → Nat)
    (hkeeps : KeepsPlace one)
    (hstep : ∀ offset content after, one ⟨⟨bytes⟩, offset⟩ = .ok (some content) after →
      after.storage = ⟨bytes⟩ ∧ measure after.offset < measure offset)
    (hlt : measure offset < Offset.range) :
    FailsAtRecord one (collect max one) max ⟨⟨bytes⟩, offset⟩ := by
  have hmoves : ∀ (cursor : Cursor Memory) content after, cursor.storage = ⟨bytes⟩ →
      one cursor = .ok (some content) after →
        after.storage = ⟨bytes⟩ ∧ measure after.offset < measure cursor.offset := by
    rintro ⟨_, offset⟩ content after rfl h
    exact hstep offset content after h
  refine ⟨fun e after => ?_, fun found last e after h => ?_⟩
  · exact collect_error_iff (·.storage = ⟨bytes⟩) (fun cursor => measure cursor.offset) hmoves rfl hlt
  · obtain ⟨hyields, -, hlast⟩ := h
    have hplace := hkeeps hlast
    refine ⟨hplace, fun hsame => ?_, ?_⟩
    · -- every content that was read has lowered the measure
      have hle := (hyields.length_le (·.storage = ⟨bytes⟩) (fun cursor => measure cursor.offset)
        hmoves rfl).2
      dsimp only at hle hsame
      rw [← hplace, hsame] at hle
      exact List.length_eq_zero_iff.mp (by omega)
    · rintro rfl
      cases hyields
      exact hplace

end Many

/-- **Where reads that fail leave the cursor**: a read of one record where it was, whatever the storage
is, and a read of many at the record that could not be read. -/
theorem failed_reads_place (framing : Framing) {bytes : Bytes} (hcap : bytes.length ≤ Bytes.capacity)
    (offset : Nat) (max : Int) :
    (∀ (σ : Type) [Storage σ], KeepsPlace (decode? framing : Effect (Cursor σ) (Option Bytes)) ∧
      KeepsPlace (skip? framing : Effect (Cursor σ) (Option Bounds)) ∧
      KeepsPlace (decodeText? : Effect (Cursor σ) (Option String)) ∧
      KeepsPlace (decodeBack? : Effect (Cursor σ) (Option Bytes)) ∧
      KeepsPlace (skipBack? : Effect (Cursor σ) (Option TailBounds))) ∧
    FailsAtRecord (decode? framing) (decodeMany framing max) max ⟨⟨bytes⟩, offset⟩ ∧
    FailsAtRecord decodeBack? (decodeManyBack max) max ⟨⟨bytes⟩, offset⟩ := by
  have hrange := Bytes.lt_range_of_le_capacity hcap
  refine ⟨fun σ _ => ⟨keepsPlace_decode? framing, keepsPlace_skip? framing, keepsPlace_decodeText?,
    keepsPlace_decodeBack?, keepsPlace_skipBack?⟩, ?_, ?_⟩
  · refine failsAtRecord_collect (bytes.length - ·) (keepsPlace_decode? framing) ?_ (by omega)
    intro offset content after h
    obtain ⟨hstorage, hlt, hle⟩ := decode?_moves hcap h
    exact ⟨hstorage, by omega⟩
  · -- behind the end of the bytes nothing is read, so an offset there counts as the end
    refine failsAtRecord_collect (min · bytes.length) keepsPlace_decodeBack? ?_ (by omega)
    intro offset content after h
    obtain ⟨hstorage, hlt, hle⟩ := decodeBack?_moves h
    exact ⟨hstorage, by omega⟩

/-- Behind one record there is the start of another. -/
theorem failed_reads_place_truncated :
    ([1, 97, 5] : Bytes).length ≤ Bytes.capacity ∧
      FailsAtRecord (decode? .byte) (decodeMany .byte (-1)) (-1) ⟨⟨[1, 97, 5]⟩, 0⟩ ∧
      FailsAtRecord decodeBack? (decodeManyBack (-1)) (-1) ⟨⟨[1, 97, 5]⟩, 0⟩ :=
  have hcap : ([1, 97, 5] : Bytes).length ≤ Bytes.capacity := by decide
  ⟨hcap, (failed_reads_place .byte hcap 0 (-1)).2⟩

/-- **A read of many does not keep the place**: it may fail behind a record that it has read. -/
theorem not_keepsPlace_decodeMany :
    ¬ KeepsPlace (decodeMany .byte (-1) : Effect (Cursor Memory) (List Bytes)) ∧
      ¬ KeepsPlace (decodeManyBack (-1) : Effect (Cursor Memory) (List Bytes)) := by
  refine ⟨fun h => ?_, fun h => ?_⟩
  · have hfail : BreaksOff (decode? .byte) none (⟨⟨[1, 97, 5]⟩, 0⟩ : Cursor Memory) [[97]]
        ⟨⟨[1, 97, 5]⟩, 2⟩ (.malformed 2 (.pastStorage 5 3)) ⟨⟨[1, 97, 5]⟩, 2⟩ :=
      ⟨.cons rfl (.nil _), by simp [Fewer], rfl⟩
    cases h (iterate_collectRound_of_breaksOff [] hfail (by decide))
  · have hfail : BreaksOff decodeBack? none (⟨⟨[5, 97, 1]⟩, 3⟩ : Cursor Memory) [[97]]
        ⟨⟨[5, 97, 1]⟩, 1⟩ (.malformed 1 (.beforeStorage 5)) ⟨⟨[5, 97, 1]⟩, 1⟩ :=
      ⟨.cons rfl (.nil _), by simp [Fewer], rfl⟩
    cases h (iterate_collectRound_of_breaksOff [] hfail (by decide))

end FramedStore.Cursor
