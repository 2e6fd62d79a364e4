import FramedStore.Proofs.TagStore.Layout
import FramedStore.TagStore.Walk

/-!
# Walks that remove entries

A sweep goes through the entries at the front of a memory and removes the chosen ones. It ends with
the entries, or fails at bytes that start with no entry; either way just the chosen entries in front
of them are gone (`run_sweep`).
-/

namespace FramedStore

open Effect

namespace TagStore

variable {framing : Framing} {bytes rest : Bytes} {position : Nat}

/-- No entry stands at the front of a byte string. -/
def NoEntry (framing : Framing) (rest : Bytes) : Prop :=
  ∀ entry : Entry, ¬ encodePair framing entry.1 entry.2 <+: rest

/-- Every byte string is entries, and behind them bytes that start with none. -/
theorem exists_entries (framing : Framing) (bytes : Bytes) :
    ∃ entries rest, bytes = encodeEntries framing entries ++ rest ∧ NoEntry framing rest :=
  Bytes.exists_eq_flatMap encodePair_ne_nil bytes

theorem noEntry_nil : NoEntry framing [] := fun entry h =>
  encodePair_ne_nil entry (List.prefix_nil.mp h)

theorem readTag_error {pair : RawPair} (h : encodeRaw framing pair <+: bytes.drop position)
    (hnotext : ∀ tag, pair.1 ≠ Utf8.encode tag) :
    ∃ fault, readTag (rawAt framing position pair).tag (⟨bytes⟩ : Memory) =
      .error (.invalidUtf8 fault) ⟨bytes⟩ := by
  unfold readTag
  have hcontent : content (rawAt framing position pair).tag (⟨bytes⟩ : Memory) =
      .ok pair.1 ⟨bytes⟩ := Framing.slice_boundsOf (drop_tag h).1
  rw [bind_ok hcontent]
  rcases hdecode : Utf8.decode pair.1 with fault | tag
  · exact ⟨_, rfl⟩
  · exact absurd (Utf8.decode_eq_ok.mp hdecode) (hnotext tag)

end TagStore

namespace Walk

open TagStore

variable {framing : Framing} {bytes rest : Bytes} {position : Nat}

theorem look?_entry {entry : Entry} (hcap : bytes.length ≤ Bytes.capacity)
    (h : encodePair framing entry.1 entry.2 <+: bytes.drop position) :
    look? framing position (⟨bytes⟩ : Memory) =
      .ok (some (pairOf framing position entry, entry)) ⟨bytes⟩ := by
  unfold look?
  rw [bind_ok (pairAt?_of_isPrefix hcap h)]
  exact (bind_ok (readPair_pairOf h)).trans rfl

theorem look?_end (h : bytes.length ≤ position) :
    look? framing position (⟨bytes⟩ : Memory) = .ok none ⟨bytes⟩ := by
  unfold look?
  exact bind_ok (pairAt?_end h)

/-- Where no entry stands, a look fails, and so does each scan that reads tags, with the same error. If
the bytes are at fault and not the text of a tag, then no pair stands there either. -/
theorem look?_damage (hcap : bytes.length ≤ Bytes.capacity) (h : bytes.drop position = rest)
    (hrest : NoEntry framing rest) (hne : rest ≠ []) :
    ∃ e, look? framing position (⟨bytes⟩ : Memory) = .error e ⟨bytes⟩ ∧
      (∀ found, entriesRound framing (position, found) (⟨bytes⟩ : Memory) = .error e ⟨bytes⟩) ∧
      (∀ found, tagsRound framing (position, found) (⟨bytes⟩ : Memory) = .error e ⟨bytes⟩) ∧
      ∀ start cause, e = .malformed start cause → NoPair framing rest := by
  subst h
  rcases pairAt?_cases framing position hcap with
    ⟨hend, -⟩ | ⟨pair, hpair, hfound⟩ | ⟨-, hnone, start, cause, herror⟩
  · exact absurd (List.drop_eq_nil_iff.mpr hend) hne
  · have hnotext : ∀ tag, pair.1 ≠ Utf8.encode tag := by
      intro tag htag
      refine hrest (tag, pair.2) ?_
      rw [encodePair, ← htag]
      exact hpair
    obtain ⟨fault, hread⟩ := readTag_error hpair hnotext
    refine ⟨_, (bind_ok hfound).trans (bind_error (bind_error hread)),
      fun _ => (bind_ok hfound).trans (bind_error (bind_error hread)),
      fun _ => (bind_ok hfound).trans (bind_error hread), ?_⟩
    intro start cause heq
    cases heq
  · exact ⟨_, bind_error herror, fun _ => bind_error herror, fun _ => bind_error herror,
      fun _ _ _ => hnone⟩

theorem look?_rest (hcap : bytes.length ≤ Bytes.capacity) (h : bytes.drop position = rest)
    (hrest : NoEntry framing rest) :
    rest = [] ∧ look? framing position (⟨bytes⟩ : Memory) = .ok none ⟨bytes⟩ ∨
      rest ≠ [] ∧ ∃ e, look? framing position (⟨bytes⟩ : Memory) = .error e ⟨bytes⟩ := by
  by_cases hnil : rest = []
  · exact .inl ⟨hnil, look?_end (List.drop_eq_nil_iff.mp (h.trans hnil))⟩
  · obtain ⟨e, hlook, -⟩ := look?_damage hcap h hrest hnil
    exact .inr ⟨hnil, e, hlook⟩

/-- A walk that has not failed. -/
def going (bytes : Bytes) (offset : Nat) (current : Option Nat) : Walk Memory where
  storage := ⟨bytes⟩
  offset := offset
  current := current

/-- A step of a walk is a look at its offset, for better or worse. -/
theorem next?_going (bytes : Bytes) (position : Nat) (current : Option Nat) :
    next? framing (going bytes position current) =
      match look? framing position (⟨bytes⟩ : Memory) with
      | .ok none memory => .ok none { going bytes position none with storage := memory }
      | .ok (some (pair, entry)) memory =>
        .ok (some entry) ⟨memory, pair.stop, some pair.start, false⟩
      | .error e memory => .error e ⟨memory, position, none, true⟩ := by
  unfold next?
  rw [bind_ok (get_apply _)]
  refine (bind_ok (set_apply _ (going bytes position none))).trans ?_
  rcases hlook : look? framing position (⟨bytes⟩ : Memory) with ⟨_ | ⟨pair, entry⟩, memory⟩ |
    ⟨e, memory⟩
  · have hon : (onStorage (look? framing position)).attempt (going bytes position none) =
        .ok (.ok none) { going bytes position none with storage := memory } := by
      rw [attempt_apply, onStorage, within_apply, going, hlook]
    exact bind_ok hon
  · have hon : (onStorage (look? framing position)).attempt (going bytes position none) =
        .ok (.ok (some (pair, entry))) { going bytes position none with storage := memory } := by
      rw [attempt_apply, onStorage, within_apply, going, hlook]
    exact bind_ok hon
  · have hon : (onStorage (look? framing position)).attempt (going bytes position none) =
        .ok (.error e) { going bytes position none with storage := memory } := by
      rw [attempt_apply, onStorage, within_apply, going, hlook]
    exact bind_ok hon

theorem next?_entry {entry : Entry} (current : Option Nat) (hcap : bytes.length ≤ Bytes.capacity)
    (h : encodePair framing entry.1 entry.2 <+: bytes.drop position) :
    next? framing (going bytes position current) =
      .ok (some entry)
        (going bytes (position + (encodePair framing entry.1 entry.2).length) (some position)) := by
  rw [next?_going, look?_entry hcap h]
  simp only [pairOf_stop, pairOf_start]
  rfl

theorem next?_rest (current : Option Nat) (hcap : bytes.length ≤ Bytes.capacity) (h : bytes.drop position = rest)
    (hrest : NoEntry framing rest) :
    Leaves rest (· = none) (·.storage = ⟨bytes⟩)
      (next? framing (going bytes position current)) := by
  rw [next?_going]
  rcases look?_rest hcap h hrest with ⟨hnil, hlook⟩ | ⟨hne, e, hlook⟩
  · rw [hlook]
    exact ⟨hnil, rfl, rfl⟩
  · rw [hlook]
    exact ⟨hne, rfl⟩

theorem removeCurrent_going (front middle behind : Bytes) :
    removeCurrent (going (front ++ (middle ++ behind)) (front.length + middle.length)
        (some front.length)) =
      .ok true (going (front ++ behind) front.length none) := by
  have hdelete : Storage.delete front.length (front.length + middle.length)
      (⟨front ++ (middle ++ behind)⟩ : Memory) = .ok ⟨⟩ ⟨front ++ behind⟩ := by
    rw [Memory.delete_apply, if_pos, ← List.append_assoc, Bytes.remove_middle]
    simp only [List.length_append]
    omega
  have hon : onStorage (Storage.delete front.length (front.length + middle.length))
      (going (front ++ (middle ++ behind)) (front.length + middle.length) none) =
      .ok ⟨⟩ (going (front ++ behind) (front.length + middle.length) none) := by
    rw [onStorage, within_apply, going, hdelete]
    rfl
  unfold removeCurrent
  rw [bind_ok (get_apply _)]
  refine (bind_ok (set_apply _ _)).trans ?_
  exact bind_ok hon

/-- What a sweep tells of an entry. -/
def swept (chosen : String → Bool) (entry : Entry) : Entry × Option Bool :=
  (entry, if chosen entry.1 then some true else none)

/-- The entries that a sweep leaves. -/
def kept (chosen : String → Bool) (entries : List Entry) : List Entry :=
  entries.filter fun entry => !chosen entry.1

/-- The entries behind `front` are gone through once. -/
theorem iterate_sweepRound (chosen : String → Bool) (hrest : NoEntry framing rest)
    {entries : List Entry} (front : Bytes)
    (hcap : (front ++ (encodeEntries framing entries ++ rest)).length ≤ Bytes.capacity)
    (current : Option Nat) (seen : List (Entry × Option Bool)) {rounds : Nat}
    (hrounds : entries.length < rounds) :
    Leaves rest (· = seen.reverse ++ entries.map (swept chosen))
      (·.storage = ⟨front ++ (encodeEntries framing (kept chosen entries) ++ rest)⟩)
      (iterate (sweepRound framing chosen) rounds seen
        (going (front ++ (encodeEntries framing entries ++ rest)) front.length current)) := by
  induction entries generalizing front current seen rounds with
  | nil =>
    obtain ⟨rounds, rfl⟩ := Nat.exists_eq_add_one.mpr (Nat.zero_lt_of_lt hrounds)
    have hnext := next?_rest current hcap List.drop_left hrest
    rcases hstep : next? framing
        (going (front ++ (encodeEntries framing [] ++ rest)) front.length current) with
      ⟨answer, walk⟩ | ⟨e, walk⟩
    · rw [hstep] at hnext
      obtain ⟨hnil, rfl, hwalk⟩ := hnext
      rw [iterate_done ((bind_ok hstep).trans rfl)]
      exact ⟨hnil, by simp, hwalk⟩
    · rw [hstep] at hnext
      rw [iterate_error (bind_error hstep)]
      exact hnext
  | cons entry entries ih =>
    obtain ⟨rounds, rfl⟩ := Nat.exists_eq_add_one.mpr (Nat.zero_lt_of_lt hrounds)
    have hfewer : entries.length < rounds := Nat.lt_of_succ_lt_succ hrounds
    rw [encodeEntries_cons, List.append_assoc] at hcap ⊢
    have hpair : encodePair framing entry.1 entry.2 <+:
        (front ++ (encodePair framing entry.1 entry.2 ++
          (encodeEntries framing entries ++ rest))).drop front.length := by
      rw [List.drop_left]
      exact List.prefix_append _ _
    have hstep := next?_entry current hcap hpair
    by_cases hchosen : chosen entry.1
    · -- a chosen entry is cut out, and the walk stands where it stood
      have hround : sweepRound framing chosen seen
          (going (front ++ (encodePair framing entry.1 entry.2 ++
            (encodeEntries framing entries ++ rest))) front.length current) =
          .ok (.again (swept chosen entry :: seen))
            (going (front ++ (encodeEntries framing entries ++ rest)) front.length none) := by
        refine (bind_ok hstep).trans ?_
        simp only [hchosen, if_true]
        refine (bind_ok (removeCurrent_going _ _ _)).trans ?_
        simp [swept, hchosen]
      have hless : (front ++ (encodeEntries framing entries ++ rest)).length ≤ Bytes.capacity := by
        simp only [List.length_append] at hcap ⊢
        omega
      have hlater := ih front hless none (swept chosen entry :: seen) hfewer
      rw [iterate_again hround]
      simpa [kept, hchosen] using hlater
    · have hround : sweepRound framing chosen seen
          (going (front ++ (encodePair framing entry.1 entry.2 ++
            (encodeEntries framing entries ++ rest))) front.length current) =
          .ok (.again (swept chosen entry :: seen))
            (going (front ++ encodePair framing entry.1 entry.2 ++
              (encodeEntries framing entries ++ rest))
              (front ++ encodePair framing entry.1 entry.2).length (some front.length)) := by
        refine (bind_ok hstep).trans ?_
        simp [swept, hchosen]
      have hless : (front ++ encodePair framing entry.1 entry.2 ++
          (encodeEntries framing entries ++ rest)).length ≤ Bytes.capacity := by
        rw [List.append_assoc]
        exact hcap
      have hlater := ih _ hless (some front.length) (swept chosen entry :: seen) hfewer
      rw [iterate_again hround]
      simpa [kept, hchosen] using hlater

/-- **What a sweep comes to.** -/
theorem run_sweep (chosen : String → Bool) {entries : List Entry} (hrest : NoEntry framing rest)
    (hcap : (encodeEntries framing entries ++ rest).length ≤ Bytes.capacity) :
    Leaves rest (· = entries.map (swept chosen))
      (· = ⟨encodeEntries framing (kept chosen entries) ++ rest⟩)
      (run (sweep framing chosen) (⟨encodeEntries framing entries ++ rest⟩ : Memory)) := by
  have hmany := Bytes.length_lt_range encodePair_ne_nil hcap List.drop_zero
  have hsweep := iterate_sweepRound chosen hrest [] hcap none [] hmany
  have hstart : (⟨⟨encodeEntries framing entries ++ rest⟩, 0, none, false⟩ : Walk Memory) =
      going ([] ++ (encodeEntries framing entries ++ rest)) ([] : Bytes).length none := rfl
  unfold run sweep scan
  rw [hstart]
  rcases hscan : iterate (sweepRound framing chosen) Offset.range []
    (going ([] ++ (encodeEntries framing entries ++ rest)) ([] : Bytes).length none) with
    ⟨answer, walk⟩ | ⟨e, walk⟩
  · rw [hscan] at hsweep
    exact hsweep
  · rw [hscan] at hsweep
    exact hsweep

end Walk

end FramedStore
