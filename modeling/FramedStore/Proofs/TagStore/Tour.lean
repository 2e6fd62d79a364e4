import FramedStore.Proofs.Effect.Run
import FramedStore.Proofs.TagStore.Sweep

/-!
# Programs of calls on a walk

Entries are visited, removed and visited on, in any order of calls. A walk through entries in memory
stands for a `Tour`, which holds the entries passed, the one that can be removed and those ahead; each
call takes the walk of a tour to the walk of another (`perform_walk`). What a program of calls comes to
is then told of the calls alone: which entry is visited next, which one can be removed, and which ones
are left (`program_visits`).
-/

namespace FramedStore.Walk

open Effect TagStore

variable {framing : Framing}

/-! ### What calls come to -/

/-- A call to remove comes before the next visit. -/
def removesFirst (calls : List Call) : Bool :=
  (calls.takeWhile (· ≠ .next)).contains .remove

/-- For each visit, whether the visited entry is removed before the visit that follows it. -/
def removals : List Call → List Bool
  | [] => []
  | .next :: calls => removesFirst calls :: removals calls
  | _ :: calls => removals calls

/-- The entries that are not marked. -/
def spared : List Bool → List Entry → List Entry
  | [], entries => entries
  | _, [] => []
  | marked :: marks, entry :: entries =>
    if marked then spared marks entries else entry :: spared marks entries

/-- The entries that some calls leave: each one but those visited and removed. -/
def remaining (made : List Call) (entries : List Entry) : List Entry :=
  spared (removals made) entries

/-- The entry that can be removed after some calls: the one that the latest visit gave, if no call to
remove was made since. -/
def removable? (entries : List Entry) (made : List Call) : Option Entry :=
  if (made.filter (· ≠ .offset)).getLast? = some .next then entries[made.count .next - 1]? else none

/-- A walk in front of the first of some entries. -/
def fresh (framing : Framing) (entries : List Entry) : Walk Memory where
  storage := ⟨encodeEntries framing entries⟩

/-- A walk through entries as some calls leave it, told by what the next call gives. -/
structure Visits (framing : Framing) (entries : List Entry) (made : List Call)
    (walk : Walk Memory) : Prop where
  storage : walk.storage = ⟨encodeEntries framing (remaining made entries)⟩
  next : ∃ after, perform framing .next walk = .ok (.entry entries[made.count .next]?) after
  remove : ∀ entry, removable? entries made = some entry →
    ∃ front after, remaining made entries = front ++ entry :: entries.drop (made.count .next) ∧
      perform framing .remove walk = .ok (.flag true) after ∧
      after.storage = ⟨encodeEntries framing (front ++ entries.drop (made.count .next))⟩
  keep : removable? entries made = none → perform framing .remove walk = .ok (.flag false) walk
  offset : perform framing .offset walk = .ok (.offset (encodeEntries framing
    (remaining made (entries.take (made.count .next)))).length) walk

@[simp] theorem removesFirst_next (calls : List Call) : removesFirst (.next :: calls) = false := rfl

@[simp] theorem removesFirst_remove (calls : List Call) : removesFirst (.remove :: calls) = true := rfl

@[simp] theorem removesFirst_offset (calls : List Call) :
    removesFirst (.offset :: calls) = removesFirst calls := by
  simp [removesFirst]

@[simp] theorem spared_nil (marks : List Bool) : spared marks [] = [] := by
  cases marks <;> rfl

theorem length_removals (calls : List Call) : (removals calls).length = calls.count .next := by
  induction calls with
  | nil => rfl
  | cons call calls ih => cases call <;> simp [removals, ih]

theorem spared_take_append_drop (marks : List Bool) (entries : List Entry) :
    spared marks (entries.take marks.length) ++ entries.drop marks.length =
      spared marks entries := by
  induction marks generalizing entries with
  | nil => rfl
  | cons marked marks ih =>
    cases entries with
    | nil => rfl
    | cons entry entries =>
      cases marked <;> simp [spared, ih]

/-! ### Tours -/

/-- How far a walk through entries has come. -/
structure Tour where
  /-- The entries that were visited and cannot be removed any more. -/
  passed : List Entry
  /-- The entry visited last, if it can be removed. -/
  latest : Option Entry
  ahead : List Entry

namespace Tour

/-- The visited entries that were kept. -/
def visited (tour : Tour) : List Entry := tour.passed ++ tour.latest.toList

def entries (tour : Tour) : List Entry := tour.visited ++ tour.ahead

/-- A tour in front of its first entry. -/
def start (entries : List Entry) : Tour := ⟨[], none, entries⟩

/-- The walk that has come as far as a tour. -/
def walk (framing : Framing) (tour : Tour) : Walk Memory :=
  going (encodeEntries framing tour.entries) (encodeEntries framing tour.visited).length
    (tour.latest.map fun _ => (encodeEntries framing tour.passed).length)

/-- What a call makes of a tour. -/
def after (tour : Tour) : Call → Tour
  | .next => ⟨tour.visited, tour.ahead.head?, tour.ahead.tail⟩
  | .remove => { tour with latest := none }
  | .offset => tour

/-- What a call gives on a tour. -/
def answer (framing : Framing) (tour : Tour) : Call → Answer
  | .next => .entry tour.ahead.head?
  | .remove => .flag tour.latest.isSome
  | .offset => .offset (encodeEntries framing tour.visited).length

/-- The entries of a tour fit into memory. -/
def Fits (framing : Framing) (tour : Tour) : Prop :=
  (encodeEntries framing tour.entries).length ≤ Bytes.capacity

variable {tour : Tour}

/-- A visit moves an entry from those ahead to those visited. -/
theorem entries_after_next (tour : Tour) : (tour.after .next).entries = tour.entries := by
  rcases tour with ⟨passed, latest, _ | ⟨entry, ahead⟩⟩ <;> simp [after, entries, visited]

theorem Fits.after (h : tour.Fits framing) (call : Call) : (tour.after call).Fits framing := by
  cases call with
  | next => rwa [Fits, entries_after_next]
  | remove =>
    simp only [Fits, Tour.after, entries, visited, encodeEntries_append, List.length_append,
      Option.toList_none, encodeEntries_nil, List.length_nil] at h ⊢
    omega
  | offset => exact h

theorem next_walk (h : tour.Fits framing) :
    next? framing (tour.walk framing) = .ok tour.ahead.head? ((tour.after .next).walk framing) := by
  rcases tour with ⟨passed, latest, _ | ⟨entry, ahead⟩⟩
  · -- behind the last entry a walk stays where it is
    have hend : (encodeEntries framing (⟨passed, latest, []⟩ : Tour).entries).length ≤
        (encodeEntries framing (⟨passed, latest, []⟩ : Tour).visited).length := by
      simp [entries]
    rw [walk, next?_going, look?_end hend]
    simp [walk, after, entries, visited]
    rfl
  · have hpair : encodePair framing entry.1 entry.2 <+:
        (encodeEntries framing (⟨passed, latest, entry :: ahead⟩ : Tour).entries).drop
          (encodeEntries framing (⟨passed, latest, entry :: ahead⟩ : Tour).visited).length := by
      rw [entries, encodeEntries_append, List.drop_left, encodeEntries_cons]
      exact List.prefix_append _ _
    rw [walk, next?_entry _ h hpair]
    simp [walk, after, entries, visited, Nat.add_assoc]

theorem remove_walk (tour : Tour) :
    removeCurrent (tour.walk framing) =
      .ok tour.latest.isSome ((tour.after .remove).walk framing) := by
  rcases tour with ⟨passed, _ | entry, ahead⟩
  · rfl
  · have hremove := removeCurrent_going (encodeEntries framing passed)
      (encodeEntries framing [entry]) (encodeEntries framing ahead)
    simp only [walk, after, entries, visited, Option.toList_some, Option.toList_none,
      encodeEntries_append, List.length_append, List.append_nil, List.append_assoc, Option.map_some,
      Option.map_none, Option.isSome_some]
    exact hremove

/-- **A call takes the walk of a tour to the walk of a tour.** -/
theorem perform_walk (h : tour.Fits framing) (call : Call) :
    perform framing call (tour.walk framing) =
      .ok (tour.answer framing call) ((tour.after call).walk framing) := by
  cases call with
  | next => exact (bind_ok (next_walk h)).trans rfl
  | remove => exact (bind_ok (remove_walk tour)).trans rfl
  | offset => rfl

/-- The tour that calls made one after the other lead to. -/
def along (tour : Tour) (calls : List Call) : Tour := calls.foldl after tour

theorem ending_walk (h : tour.Fits framing) (calls : List Call) :
    (tour.along calls).Fits framing ∧
      ending (perform framing) calls (tour.walk framing) = (tour.along calls).walk framing := by
  induction calls generalizing tour with
  | nil => exact ⟨h, rfl⟩
  | cons call calls ih =>
    rw [ending, step_ok (perform_walk h call)]
    exact ih (h.after call)

/-! ### Where calls lead -/

theorem ahead_along (tour : Tour) (calls : List Call) :
    (tour.along calls).ahead = tour.ahead.drop (calls.count .next) := by
  induction calls generalizing tour with
  | nil => rfl
  | cons call calls ih =>
    refine (ih (tour.after call)).trans ?_
    cases call with
    | next => simp [after]
    | remove => simp [after]
    | offset => simp [after]

theorem visited_along (tour : Tour) (calls : List Call) :
    (tour.along calls).visited =
      tour.passed ++ (if removesFirst calls then [] else tour.latest.toList) ++
        spared (removals calls) (tour.ahead.take (calls.count .next)) := by
  induction calls generalizing tour with
  | nil => simp [along, visited, removesFirst, removals]
  | cons call calls ih =>
    refine (ih (tour.after call)).trans ?_
    cases call with
    | next =>
      -- whether the entry visited here is kept is up to the calls that follow
      rcases tour with ⟨passed, latest, _ | ⟨entry, ahead⟩⟩ <;>
        by_cases hremoves : removesFirst calls <;>
        simp [after, visited, removals, spared, hremoves]
    | remove => simp [after, removals]
    | offset => simp [after, removals]

theorem along_concat (tour : Tour) (calls : List Call) (call : Call) :
    tour.along (calls ++ [call]) = (tour.along calls).after call := by
  rw [along, List.foldl_append]
  rfl

theorem latest_along (entries : List Entry) (calls : List Call) :
    ((start entries).along calls).latest = removable? entries calls := by
  -- from the end of the calls, since the latest ones tell what can be removed
  induction calls using List.reverseRecOn with
  | nil => rfl
  | append_singleton calls call ih =>
    rw [along_concat]
    cases call with
    | next => simp [after, ahead_along, start, removable?]
    | remove => simp [after, removable?]
    | offset => simpa [after, removable?] using ih

variable (entries : List Entry) (made : List Call)

theorem visited_start :
    ((start entries).along made).visited = remaining made (entries.take (made.count .next)) := by
  simp [visited_along, start, remaining]

theorem entries_start : ((start entries).along made).entries = remaining made entries := by
  rw [Tour.entries, visited_start, ahead_along, remaining, remaining, ← length_removals]
  exact spared_take_append_drop _ _

/-- The walk of a tour through entries is as the calls that led to it tell. -/
theorem visits_along (h : ((start entries).along made).Fits framing) :
    Visits framing entries made (((start entries).along made).walk framing) := by
  have hperform := perform_walk h
  refine { storage := ?storage, next := ?next, remove := ?remove, keep := ?keep, offset := ?offset }
  case storage =>
    rw [← entries_start]
    rfl
  case next =>
    refine ⟨(((start entries).along made).after .next).walk framing, ?_⟩
    rw [hperform .next, answer, ahead_along, List.head?_drop]
    rfl
  case remove =>
    intro entry hentry
    rw [← latest_along] at hentry
    refine ⟨((start entries).along made).passed,
      (((start entries).along made).after .remove).walk framing, ?_, ?_, ?_⟩
    · rw [← entries_start, Tour.entries, visited, hentry, ahead_along]
      simp [start]
    · rw [hperform .remove, answer, hentry]
      rfl
    · simp only [walk, going, after, Tour.entries, visited, ahead_along, Option.toList_none,
        List.append_nil]
      rfl
  case keep =>
    intro hnone
    rw [← latest_along] at hnone
    -- with nothing to remove the tour stays as it is
    have hsame : ((start entries).along made).after .remove = (start entries).along made := by
      rw [after, ← hnone]
    rw [hperform .remove, answer, hnone, hsame]
    rfl
  case offset =>
    rw [hperform .offset, answer, visited_start]
    rfl

end Tour

/-- **Programs of calls on a walk through entries in memory.** No call fails. The visits give the
entries in order, each one once, and then none, whatever was removed; and the walk that any calls leave
goes on as they have it. -/
theorem program_visits (framing : Framing) {entries : List Entry}
    (hcap : (encodeEntries framing entries).length ≤ Bytes.capacity) (calls : List Call) :
    Visits framing entries calls (ending (perform framing) calls (fresh framing entries)) ∧
      ((trace (perform framing) calls (fresh framing entries)).filter (·.call = .next)).map
          (·.outcome) =
        (List.range (calls.count .next)).map fun n => .ok (.entry entries[n]?) := by
  have hvisits : ∀ made,
      Visits framing entries made (ending (perform framing) made (fresh framing entries)) := by
    intro made
    have hfits : (Tour.start entries).Fits framing := hcap
    obtain ⟨hfits', hending⟩ := Tour.ending_walk hfits made
    have hstart : fresh framing entries = (Tour.start entries).walk framing := rfl
    rw [hstart, hending]
    exact Tour.visits_along entries made hfits'
  refine ⟨hvisits calls, ?_⟩
  induction calls using List.reverseRecOn with
  | nil => rfl
  | append_singleton made call ih =>
    rw [trace_concat, List.filter_append, List.map_append, ih]
    cases call with
    | next =>
      obtain ⟨after, hnext⟩ := (hvisits made).next
      rw [step_ok hnext]
      simp [List.range_succ]
    | remove => simp
    | offset => simp

/-- Calls to remove before the first visit, twice after a visit, and behind the last entry. -/
theorem program_visits_removed_once :
    (encodeEntries .byte [("a", [1]), ("b", [])]).length ≤ Bytes.capacity ∧
    remaining [.remove, .next, .remove, .remove, .next, .offset, .next, .remove]
      [("a", [1]), ("b", [])] = [("b", [])] ∧
    Visits .byte [("a", [1]), ("b", [])]
      [.remove, .next, .remove, .remove, .next, .offset, .next, .remove]
      (ending (perform .byte) [.remove, .next, .remove, .remove, .next, .offset, .next, .remove]
        (fresh .byte [("a", [1]), ("b", [])])) ∧
    ((trace (perform .byte) [.remove, .next, .remove, .remove, .next, .offset, .next, .remove]
        (fresh .byte [("a", [1]), ("b", [])])).filter (·.call = .next)).map (·.outcome) =
      [.ok (.entry (some ("a", [1]))), .ok (.entry (some ("b", []))), .ok (.entry none)] := by
  have hfits : (encodeEntries .byte [("a", [1]), ("b", [])]).length ≤ Bytes.capacity := by
    decide +kernel
  exact ⟨hfits, rfl, program_visits .byte hfits
    [.remove, .next, .remove, .remove, .next, .offset, .next, .remove]⟩

end FramedStore.Walk
