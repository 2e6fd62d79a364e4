import Mathlib
import FramedStore.Proofs.TagStore.Multimap
import FramedStore.Proofs.TagStore.Sweep

/-!
# All reads of a tag store agree

A tag store is read in five ways: all entries, all tags, the number of entries, a look-up, and a walk.
Each is a scan of its own. Whatever bytes are in memory, the five see the same entries in front of the
same damage (`reads_agree`).
-/

namespace FramedStore

open Effect TagStore

namespace Walk

variable {framing : Framing} {bytes rest : Bytes} {position : Nat}

/-! ### What a walk gives, call after call -/

/-- The first `count` of some items that `last` follows for ever. -/
def thenForever {α : Type} (items : List α) (last : α) (count : Nat) : List α :=
  (items ++ List.replicate count last).take count

@[simp] theorem thenForever_cons {α : Type} (item : α) (items : List α) (last : α) (count : Nat) :
    thenForever (item :: items) last (count + 1) = item :: thenForever items last count := by
  have hmin : min (count - items.length) (count + 1) = min (count - items.length) count := by omega
  simp [thenForever, List.take_append, List.take_replicate, hmin]

@[simp] theorem thenForever_nil {α : Type} (last : α) (count : Nat) :
    thenForever [] last count = List.replicate count last := by
  simp [thenForever]

theorem mem_thenForever {α : Type} {items : List α} {last item : α} {count : Nat}
    (h : item ∈ thenForever items last count) : item ∈ items ∨ item = last := by
  rcases List.mem_append.mp (List.mem_of_mem_take h) with hitem | hlast
  · exact .inl hitem
  · exact .inr (List.eq_of_mem_replicate hlast)

theorem mem_thenForever_of_mem {α : Type} {items : List α} {item : α} (h : item ∈ items) (last : α) :
    item ∈ thenForever items last items.length := by
  rw [thenForever, List.take_left' rfl]
  exact h

/-- What the first `count` calls of `next?` on a walk come to. -/
def visits (framing : Framing) (count : Nat) (walk : Walk Memory) :
    List (Except Error (Option Entry)) :=
  (trace (fun _ : Unit => next? framing) (List.replicate count ()) walk).map (·.outcome)

theorem visits_ok {walk walk' : Walk Memory} {answer : Option Entry}
    (h : next? framing walk = .ok answer walk') (count : Nat) :
    visits framing (count + 1) walk = .ok answer :: visits framing count walk' := by
  have hstep : step (fun _ : Unit => next? framing) () walk = ⟨(), walk, .ok answer, walk'⟩ :=
    step_ok h
  rw [visits, List.replicate_succ, trace, hstep]
  rfl

theorem visits_error {walk walk' : Walk Memory} {e : Error}
    (h : next? framing walk = .error e walk') (count : Nat) :
    visits framing (count + 1) walk = .error e :: visits framing count walk' := by
  have hstep : step (fun _ : Unit => next? framing) () walk = ⟨(), walk, .error e, walk'⟩ :=
    step_error h
  rw [visits, List.replicate_succ, trace, hstep]
  rfl

/-- A walk that has failed gives nothing more. -/
theorem visits_failed {walk : Walk Memory} (h : walk.failed = true) (count : Nat) :
    visits framing count walk = List.replicate count (.ok none) := by
  induction count with
  | zero => rfl
  | succ count ih =>
    have hnext : next? framing walk = .ok none walk := by
      unfold next?
      rw [bind_ok (get_apply walk), if_apply, if_pos h]
      rfl
    rw [visits_ok hnext, ih, List.replicate_succ]

/-- A walk at the end gives nothing more. -/
theorem visits_end (h : bytes.length ≤ position) (current : Option Nat) (count : Nat) :
    visits framing count (going bytes position current) = List.replicate count (.ok none) := by
  induction count generalizing current with
  | zero => rfl
  | succ count ih =>
    have hnext : next? framing (going bytes position current) =
        .ok none (going bytes position none) := by
      rw [next?_going, look?_end h]
      rfl
    rw [visits_ok hnext, ih, List.replicate_succ]

/-- A walk at damage fails, and then gives nothing more. -/
theorem visits_damage {e : Error} {memory : Memory}
    (h : look? framing position (⟨bytes⟩ : Memory) = .error e memory) (current : Option Nat)
    (count : Nat) :
    visits framing count (going bytes position current) =
      thenForever [.error e] (.ok none) count := by
  cases count with
  | zero => rfl
  | succ count =>
    have hnext : next? framing (going bytes position current) =
        .error e ⟨memory, position, none, true⟩ := by
      rw [next?_going, h]
    rw [visits_error hnext, visits_failed rfl, thenForever_cons, thenForever_nil]

/-- A walk gives the entries at its position one after the other. -/
theorem visits_entries {behind : List (Except Error (Option Entry))}
    (hcap : bytes.length ≤ Bytes.capacity) {entries : List Entry}
    (h : bytes.drop position = encodeEntries framing entries ++ rest)
    (hbehind : ∀ current count,
      visits framing count
          (going bytes (position + (encodeEntries framing entries).length) current) =
        thenForever behind (.ok none) count) (current : Option Nat) (count : Nat) :
    visits framing count (going bytes position current) =
      thenForever (entries.map (fun entry => .ok (some entry)) ++ behind) (.ok none) count := by
  induction entries generalizing position current count with
  | nil => exact hbehind current count
  | cons entry entries ih =>
    rw [encodeEntries_cons, List.append_assoc] at h
    cases count with
    | zero => rfl
    | succ count =>
      rw [visits_ok (next?_entry current hcap ⟨_, h.symm⟩), List.map_cons, List.cons_append,
        thenForever_cons]
      congr 1
      refine ih (Bytes.drop_behind h) ?_ _ _
      rw [encodeEntries_cons, List.length_append, ← Nat.add_assoc] at hbehind
      exact hbehind

end Walk

namespace TagStore

variable {framing : Framing} {rest : Bytes} {stored : List Entry}

theorem contains_of_get? {tag : String} {value : Bytes}
    (h : Multimap.get? stored tag = some value) : Multimap.contains stored tag = true := by
  rw [← Multimap.isSome_get?, h]
  rfl

theorem contains_of_get?_none {tag : String} (h : Multimap.get? stored tag = none) :
    Multimap.contains stored tag = false := by
  rw [← Multimap.isSome_get?, h]
  rfl

/-! ### Damage behind entries -/

section Damage

variable (hcap : (encodeEntries framing stored ++ rest).length ≤ Bytes.capacity)
include hcap

/-- The value of a tag in front of the damage is found. -/
theorem get?_front {tag : String} {value : Bytes} (h : Multimap.get? stored tag = some value) :
    get? framing tag (⟨encodeEntries framing stored ++ rest⟩ : Memory) =
        .ok (some value) ⟨encodeEntries framing stored ++ rest⟩ ∧
      contains framing tag (⟨encodeEntries framing stored ++ rest⟩ : Memory) =
        .ok true ⟨encodeEntries framing stored ++ rest⟩ := by
  obtain ⟨more, rest', rfl, hrest'⟩ := exists_split framing rest
  have hfirst : firstValue tag (stored.map rawOf ++ more) = some value := by
    rw [← firstValue_rawOf, firstValue] at h
    obtain ⟨pair, hfind, hvalue⟩ := Option.map_eq_some_iff.mp h
    rw [firstValue, List.find?_append, hfind]
    exact congrArg some hvalue
  rw [encodeEntries_eq_encodeRaws, ← List.append_assoc, ← encodeRaws_append] at hcap ⊢
  rcases get?_raw tag hrest' hcap with ⟨found, hfound, hget, hcontains⟩ | ⟨hnone, -⟩
  · obtain rfl := Option.some.inj (hfound.symm.trans hfirst)
    exact ⟨hget, hcontains⟩
  · rw [hnone] at hfirst
    cases hfirst

/-- The search for another tag fails at bytes that are no pair. -/
theorem get?_behind (hrest : NoPair framing rest) (hne : rest ≠ []) {tag : String}
    (h : Multimap.get? stored tag = none) :
    Damaged (encodeEntries framing stored ++ rest)
        (get? framing tag (⟨encodeEntries framing stored ++ rest⟩ : Memory)) ∧
      Damaged (encodeEntries framing stored ++ rest)
        (contains framing tag (⟨encodeEntries framing stored ++ rest⟩ : Memory)) := by
  rw [encodeEntries_eq_encodeRaws] at hcap ⊢
  rcases get?_raw tag hrest hcap with ⟨value, hfirst, -⟩ | ⟨-, ⟨hnil, -⟩ | ⟨-, hdamaged⟩⟩
  · rw [firstValue_rawOf, h] at hfirst
    cases hfirst
  · exact absurd hnil hne
  · exact hdamaged

/-- The number of entries is not given where bytes are no pair. -/
theorem size_damaged (hrest : NoPair framing rest) (hne : rest ≠ []) :
    Damaged (encodeEntries framing stored ++ rest)
      (size framing (⟨encodeEntries framing stored ++ rest⟩ : Memory)) := by
  obtain ⟨rounds, hsize⟩ := size_behind hcap rfl
  rcases pairAt?_rest hcap List.drop_left hrest with ⟨hnil, -⟩ | ⟨-, start, cause, hpair⟩
  · exact absurd hnil hne
  rw [hsize]
  rcases framing.boundsAt?_cases (encodeEntries framing stored).length hcap with
    ⟨-, hbounds⟩ | ⟨tag, -, hbounds⟩ | ⟨-, -, cause', hbounds⟩
  · have hend := (bind_ok hbounds).symm.trans hpair
    cases hend
  · -- a record without a partner, or with a damaged one
    have hlater := (bind_ok hbounds).symm.trans hpair
    rw [iterate_again ((bind_ok hbounds).trans rfl)]
    rcases framing.boundsAt?_cases
        (framing.boundsOf (encodeEntries framing stored).length tag).stop hcap with
      ⟨-, hvalue⟩ | ⟨value, -, hvalue⟩ | ⟨-, -, cause', hvalue⟩
    · have hodd : (2 * stored.length + 1) % 2 ≠ 0 := by omega
      have hround : sizeRound framing
          ((framing.boundsOf (encodeEntries framing stored).length tag).stop,
            2 * stored.length + 1) (⟨encodeEntries framing stored ++ rest⟩ : Memory) =
          .error (.malformed (framing.boundsOf (encodeEntries framing stored).length tag).stop
            .tagWithoutValue) ⟨encodeEntries framing stored ++ rest⟩ := by
        refine (bind_ok hvalue).trans ?_
        simp only [if_pos hodd]
        rfl
      exact ⟨_, _, iterate_error hround⟩
    · have hfound := (bind_ok hvalue).symm.trans hlater
      cases hfound
    · exact ⟨_, cause', iterate_error (bind_error hvalue)⟩
  · exact ⟨_, cause', iterate_error (bind_error hbounds)⟩

end Damage

/-! ### The reads agree -/

/-- What the first `count` calls on a fresh walk through `bytes` come to. -/
def visitsFrom (framing : Framing) (bytes : Bytes) (count : Nat) :
    List (Except Error (Option Entry)) :=
  Walk.visits framing count { storage := ⟨bytes⟩ }

/-- All reads of a memory give the same entries. -/
structure ReadsAs (framing : Framing) (bytes : Bytes) (stored : List Entry) : Prop where
  tags : tags framing (⟨bytes⟩ : Memory) = .ok (stored.map (·.1)) ⟨bytes⟩
  visits : ∀ count, visitsFrom framing bytes count =
    Walk.thenForever (stored.map fun entry => .ok (some entry)) (.ok none) count
  size : size framing (⟨bytes⟩ : Memory) = .ok stored.length ⟨bytes⟩
  get? : ∀ tag, get? framing tag (⟨bytes⟩ : Memory) = .ok (Multimap.get? stored tag) ⟨bytes⟩
  contains : ∀ tag, contains framing tag (⟨bytes⟩ : Memory) =
    .ok (Multimap.contains stored tag) ⟨bytes⟩

/-- All reads of a memory give the same entries in front of an error. -/
structure BreaksBehind (framing : Framing) (bytes : Bytes) (stored : List Entry) (e : Error) :
    Prop where
  tags : tags framing (⟨bytes⟩ : Memory) = .error e ⟨bytes⟩
  visits : ∀ count, visitsFrom framing bytes count =
    Walk.thenForever ((stored.map fun entry => .ok (some entry)) ++ [.error e]) (.ok none) count
  get? : ∀ tag, Multimap.contains stored tag = true →
    get? framing tag (⟨bytes⟩ : Memory) = .ok (Multimap.get? stored tag) ⟨bytes⟩
  contains : ∀ tag, Multimap.contains stored tag = true →
    contains framing tag (⟨bytes⟩ : Memory) = .ok true ⟨bytes⟩
  /-- If the bytes are at fault and not the text of a tag, nothing is read over them. -/
  malformed : ∀ start cause, e = .malformed start cause →
    Damaged bytes (size framing (⟨bytes⟩ : Memory)) ∧
      ∀ tag, Multimap.contains stored tag = false →
        Damaged bytes (TagStore.get? framing tag (⟨bytes⟩ : Memory)) ∧
          Damaged bytes (TagStore.contains framing tag (⟨bytes⟩ : Memory))

/-- Entries and nothing else are read in every way. -/
theorem readsAs_entries (hcap : (encodeEntries framing stored).length ≤ Bytes.capacity) :
    entries framing (⟨encodeEntries framing stored⟩ : Memory) =
        .ok stored ⟨encodeEntries framing stored⟩ ∧
      ReadsAs framing (encodeEntries framing stored) stored := by
  refine ⟨entries_apply hcap List.drop_zero, ?_⟩
  refine ⟨tags_apply hcap List.drop_zero, fun count => ?_, size_apply hcap List.drop_zero,
    get?_apply hcap, contains_apply hcap⟩
  have hend : ∀ current count, Walk.visits framing count (Walk.going (encodeEntries framing stored)
      (0 + (encodeEntries framing stored).length) current) =
        Walk.thenForever [] (.ok none) count := by
    intro current count
    rw [Walk.visits_end (Nat.le_add_left _ _), Walk.thenForever_nil]
  have hvisits := Walk.visits_entries hcap (List.drop_zero.trans (List.append_nil _).symm) hend
    none count
  rw [List.append_nil] at hvisits
  exact hvisits

/-- Entries in front of other bytes are read in every way, up to one error. -/
theorem breaksBehind_entries (hcap : (encodeEntries framing stored ++ rest).length ≤ Bytes.capacity)
    (hrest : NoEntry framing rest) (hne : rest ≠ []) :
    ∃ e, entries framing (⟨encodeEntries framing stored ++ rest⟩ : Memory) =
        .error e ⟨encodeEntries framing stored ++ rest⟩ ∧
      BreaksBehind framing (encodeEntries framing stored ++ rest) stored e := by
  obtain ⟨e, hlook, hentries, htags, hmalformed⟩ :=
    Walk.look?_damage hcap List.drop_left hrest hne
  refine ⟨e, ?_, ?_, fun count => ?_, fun tag hcontains => ?_, fun tag hcontains => ?_,
    fun start cause he => ?_⟩
  · obtain ⟨rounds, hscan⟩ := entries_behind hcap rfl
    rw [hscan, iterate_error (hentries _)]
  · obtain ⟨rounds, hscan⟩ := tags_behind hcap rfl
    rw [hscan, iterate_error (htags _)]
  · refine Walk.visits_entries hcap List.drop_zero (fun current count => ?_) none count
    rw [Nat.zero_add]
    exact Walk.visits_damage hlook current count
  · cases hget : Multimap.get? stored tag with
    | none =>
      rw [contains_of_get?_none hget] at hcontains
      cases hcontains
    | some value => exact (get?_front hcap hget).1
  · cases hget : Multimap.get? stored tag with
    | none =>
      rw [contains_of_get?_none hget] at hcontains
      cases hcontains
    | some value => exact (get?_front hcap hget).2
  · have hnopair := hmalformed start cause he
    refine ⟨size_damaged hcap hnopair hne, fun tag hcontains => ?_⟩
    cases hget : Multimap.get? stored tag with
    | none => exact get?_behind hcap hnopair hne hget
    | some value =>
      rw [contains_of_get? hget] at hcontains
      cases hcontains

/-- **All reads of a tag store agree**, whatever its bytes are. If the entries can be read, then so can
the tags, and a walk meets no error; and tags, number, look-ups and walk are those of the entries. If
not, then all reads give the entries in front of the damage and fail at it. -/
theorem reads_agree (framing : Framing) {bytes : Bytes} (hcap : bytes.length ≤ Bytes.capacity) :
    (∀ stored after, entries framing (⟨bytes⟩ : Memory) = .ok stored after →
      after = ⟨bytes⟩ ∧ bytes = encodeEntries framing stored ∧ ReadsAs framing bytes stored) ∧
    (∀ e after, entries framing (⟨bytes⟩ : Memory) = .error e after →
      after = ⟨bytes⟩ ∧ ∃ stored rest, bytes = encodeEntries framing stored ++ rest ∧
        NoEntry framing rest ∧ rest ≠ [] ∧ BreaksBehind framing bytes stored e) ∧
    ((∃ stored after, entries framing (⟨bytes⟩ : Memory) = .ok stored after) ↔
      ∃ found after, tags framing (⟨bytes⟩ : Memory) = .ok found after) ∧
    ((∃ stored after, entries framing (⟨bytes⟩ : Memory) = .ok stored after) ↔
      ∀ count, ∀ outcome ∈ visitsFrom framing bytes count, ∃ answer, outcome = .ok answer) := by
  obtain ⟨stored, rest, rfl, hrest⟩ := exists_entries framing bytes
  by_cases hne : rest = []
  · subst hne
    rw [List.append_nil] at hcap ⊢
    obtain ⟨hentries, hreads⟩ := readsAs_entries hcap
    refine ⟨fun found after h => ?_, fun e after h => ?_, ⟨fun _ => ⟨_, _, hreads.tags⟩,
      fun _ => ⟨_, _, hentries⟩⟩, ⟨fun _ count outcome houtcome => ?_, fun _ => ⟨_, _, hentries⟩⟩⟩
    · obtain ⟨rfl, rfl⟩ := EStateM.Result.ok.inj (hentries.symm.trans h)
      exact ⟨rfl, rfl, hreads⟩
    · cases hentries.symm.trans h
    · rw [hreads.visits count] at houtcome
      rcases Walk.mem_thenForever houtcome with hitem | rfl
      · obtain ⟨entry, -, rfl⟩ := List.mem_map.mp hitem
        exact ⟨_, rfl⟩
      · exact ⟨_, rfl⟩
  · obtain ⟨e, hentries, hbreaks⟩ := breaksBehind_entries hcap hrest hne
    refine ⟨fun found after h => ?_, fun e' after h => ?_, ⟨?_, ?_⟩, ⟨?_, fun hquiet => ?_⟩⟩
    · cases hentries.symm.trans h
    · obtain ⟨rfl, rfl⟩ := EStateM.Result.error.inj (hentries.symm.trans h)
      exact ⟨rfl, stored, rest, rfl, hrest, hne, hbreaks⟩
    · rintro ⟨found, after, h⟩
      cases hentries.symm.trans h
    · rintro ⟨found, after, h⟩
      cases hbreaks.tags.symm.trans h
    · rintro ⟨found, after, h⟩
      cases hentries.symm.trans h
    · -- the error is among the outcomes of a walk that is long enough
      have hlast : (.error e : Except Error (Option Entry)) ∈
          (stored.map fun entry => .ok (some entry)) ++ [.error e] := by simp
      have hmem := Walk.mem_thenForever_of_mem hlast (.ok none)
      rw [← hbreaks.visits] at hmem
      obtain ⟨answer, hanswer⟩ := hquiet _ _ hmem
      cases hanswer

/-- A tag store with a dangling tag behind two pairs under one tag. -/
theorem reads_agree_dangling :
    ([1, 97, 1, 1, 1, 97, 0, 1, 98] : Bytes).length ≤ Bytes.capacity ∧
      entries .byte (⟨[1, 97, 1, 1, 1, 97, 0, 1, 98]⟩ : Memory) =
        .error (.malformed 7 .tagWithoutValue) ⟨[1, 97, 1, 1, 1, 97, 0, 1, 98]⟩ ∧
      ∃ stored rest, ([1, 97, 1, 1, 1, 97, 0, 1, 98] : Bytes) =
          encodeEntries .byte stored ++ rest ∧ NoEntry .byte rest ∧ rest ≠ [] ∧
        BreaksBehind .byte [1, 97, 1, 1, 1, 97, 0, 1, 98] stored
          (.malformed 7 .tagWithoutValue) := by
  have hcap : ([1, 97, 1, 1, 1, 97, 0, 1, 98] : Bytes).length ≤ Bytes.capacity := by decide
  have hentries : entries .byte (⟨[1, 97, 1, 1, 1, 97, 0, 1, 98]⟩ : Memory) =
      .error (.malformed 7 .tagWithoutValue) ⟨[1, 97, 1, 1, 1, 97, 0, 1, 98]⟩ := by cbv
  exact ⟨hcap, hentries, ((reads_agree .byte hcap).2.1 _ _ hentries).2⟩

end TagStore

end FramedStore
