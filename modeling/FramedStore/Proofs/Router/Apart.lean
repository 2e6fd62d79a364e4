import FramedStore.Proofs.Router.Agreement
import FramedStore.Proofs.Router.Completion
import FramedStore.Proofs.Router.Interleaving
import FramedStore.Proofs.Router.Shelves

/-!
# Threads whose keys are apart

Threads that share a router and use keys of their own do not disturb each other, on either router and
in whatever order their calls are made: each gets the outcomes that it has alone, and the values under
a key are those that the calls under it leave (`threads_apart`). Both routers do to their bytes what the
calls do to entries on shelves (`Composite.performKeyed_shelves`, `MultiStore.performKeyed_shelves`),
and a run of threads makes their calls in some order (`Machine.Scheduled`).
-/

namespace FramedStore

open Effect KeyedCall
open Multimap (values apply)
open TagStore (Answer encodeEntries)

variable {programs : List (List KeyedCall)} {schedule : List (Nat × KeyedCall)} {framing : Framing}

/-! ### Namespaces in one tag store -/

namespace Composite

/-- A key has its joint tag on the only shelf. -/
def place (key : String × String) : Unit × String := ((), join key.1 key.2)

theorem place_injective : Function.Injective place := by
  rintro ⟨super, sub⟩ ⟨super', sub'⟩ heq
  obtain ⟨rfl, rfl⟩ := join_inj.mp (Prod.mk.inj heq).2
  rfl

/-- Makes a call under a key. -/
def performKeyed (framing : Framing) (call : KeyedCall) : Effect Memory Answer :=
  perform framing call.onRouter

theorem performKeyed_eq (call : KeyedCall) :
    performKeyed framing call = TagStore.perform framing (call.use.onTag (place call.key).2) := by
  obtain ⟨super, sub, use⟩ := call
  cases use <;> rfl

/-- The bytes of the entries on the only shelf. -/
def encoded (framing : Framing) (shelves : Unit → List Entry) : Memory :=
  ⟨encodeEntries framing (shelves ())⟩

theorem performKeyed_apply {call : KeyedCall} {shelves : Unit → List Entry}
    (hfits : call.Fits place framing shelves) :
    performKeyed framing call (encoded framing shelves) =
      .ok (call.answer place shelves) (encoded framing (call.after place shelves)) := by
  have hafter : call.after place shelves () = _ := call.after_self place shelves
  rw [performKeyed_eq, encoded, encoded, hafter]
  exact TagStore.perform_apply hfits _

/-- What every order of the calls of programs comes to. -/
structure Undisturbed (framing : Framing) (programs : List (List KeyedCall))
    (schedule : List (Nat × KeyedCall)) : Prop where
  /-- Each program has the outcomes that it has alone. -/
  outcomes : ∀ number,
    outcomesOf number (trace (onTurn (performKeyed framing)) schedule ⟨[]⟩) =
      (trace (performKeyed framing) (programs.getD number []) ⟨[]⟩).map (·.outcome)
  /-- The values under a key do not depend on the order of the calls. -/
  values : ∃ entries,
    ending (onTurn (performKeyed framing)) schedule ⟨[]⟩ = ⟨encodeEntries framing entries⟩ ∧
      ∀ super sub, values entries (join super sub) = stored programs (super, sub)

theorem performKeyed_shelves (call : KeyedCall) (memory : Memory) (shelves : Unit → List Entry)
    (hsame : memory = encoded framing shelves) (hfits : call.Fits place framing shelves) :
    ∃ answer memory' shelves', performKeyed framing call memory = .ok answer memory' ∧
      onShelves place call shelves = .ok answer shelves' ∧ memory' = encoded framing shelves' := by
  subst hsame
  exact ⟨_, _, _, performKeyed_apply hfits, rfl, rfl⟩

theorem throughout_encoded
    (hfits : Throughout (onTurn (performKeyed framing))
      (fun _ memory => memory.content.length ≤ Bytes.capacity) schedule ⟨[]⟩) :
    Throughout (onTurn (onShelves place)) (fun turn => turn.2.Fits place framing) schedule
      fun _ => [] := by
  refine hfits.related (fun memory shelves => memory = encoded framing shelves) ?_ rfl
  rintro ⟨number, call⟩ _ shelves rfl hcap
  have hfits : call.Fits place framing shelves := hcap
  have hstep := step_ok (performKeyed_apply hfits)
  refine ⟨hfits, ?_⟩
  rw [step_onTurn, step_onTurn, hstep, step_onShelves]

/-- **Whatever the order of the calls, programs whose keys are apart do not disturb each other.** -/
theorem undisturbed (hapart : Apart programs) (hschedule : Interleaves programs schedule)
    (hfits : Throughout (onTurn (performKeyed framing))
      (fun _ memory => memory.content.length ≤ Bytes.capacity) schedule ⟨[]⟩) :
    Undisturbed framing programs schedule := by
  have hshelves := throughout_encoded hfits
  have hrun := runs_related (fun _ memory shelves => memory = encoded framing shelves)
    (fun _ turn => performKeyed_shelves turn.2) schedule (s := ⟨[]⟩) rfl hshelves
  constructor
  · intro number
    rw [outcomesOf_congr number hrun.1, ← hschedule number]
    exact outcomesOf_mirrored place_injective hapart hschedule.mem number performKeyed_shelves rfl
      hshelves
  · refine ⟨_, hrun.2, fun super sub => ?_⟩
    exact values_of_interleaves place_injective hapart hschedule (super, sub)

end Composite

/-! ### A child for each super-tag -/

namespace MultiStore

/-- Makes a call under a key. -/
def performKeyed (call : KeyedCall) : Effect (MultiStore Parked Memory) Answer :=
  perform call.onRouter

theorem onEntries_onRouter (call : KeyedCall) (entries : List Entry) :
    call.onRouter.onEntries entries = apply (call.use.onTag call.sub) entries := by
  obtain ⟨super, sub, use⟩ := call
  cases use <;> rfl

theorem onSpaces_onRouter (call : KeyedCall) (shelves : String → List Entry) :
    call.onRouter.onSpaces shelves = call.after id shelves := by
  rw [RouterCall.onSpaces, onEntries_onRouter, super_onRouter]
  rfl

/-- A router whose children hold the entries on the shelves of their super-tags. -/
def Mirrors (router : MultiStore Parked Memory) (shelves : String → List Entry) : Prop :=
  ∃ owners, Quiet owners router (childBytes shelves)

theorem performKeyed_shelves (call : KeyedCall) (router : MultiStore Parked Memory)
    (shelves : String → List Entry) (hmirrors : Mirrors router shelves)
    (hfits : call.Fits id .byte shelves) :
    ∃ answer router' shelves', performKeyed call router = .ok answer router' ∧
      onShelves id call shelves = .ok answer shelves' ∧ Mirrors router' shelves' := by
  obtain ⟨owners, hquiet⟩ := hmirrors
  have hcap : (childBytes shelves call.onRouter.super).length ≤ Bytes.capacity := by
    rw [super_onRouter]
    exact hfits
  obtain ⟨owners', router', hperform, hquiet'⟩ := perform_quiet call.onRouter hquiet hcap
  rw [onEntries_onRouter, super_onRouter] at hperform
  rw [onSpaces_onRouter] at hquiet'
  exact ⟨_, router', _, hperform, rfl, owners', hquiet'⟩

theorem mirrors_start {capacity : Nat} (hpos : 0 < capacity) :
    Mirrors { factory := {}, capacity, capacity_pos := hpos } fun _ => [] :=
  ⟨[], .start hpos⟩

theorem onContent_onRouter {call : KeyedCall} {shelves : String → List Entry}
    (hfits : call.Fits id .byte shelves) :
    call.onRouter.onContent ⟨childBytes shelves call.super⟩ =
      (.ok (call.answer id shelves), ⟨childBytes (call.after id shelves) call.super⟩) := by
  have hafter : call.after id shelves call.super =
      (apply (call.use.onTag call.sub) (shelves call.super)).2 := call.after_self id shelves
  have hchild : call.onRouter.onChild (⟨childBytes shelves call.super⟩ : Memory) = _ :=
    call.onRouter.onChild_apply hfits
  rw [onEntries_onRouter] at hchild
  unfold RouterCall.onContent
  rw [hchild, childBytes, hafter]
  rfl

/-- A call changes the bytes of its own super-tag as it changes the entries. -/
theorem replay_onRouter {call : KeyedCall} {shelves : String → List Entry}
    (hfits : call.Fits id .byte shelves) (child : ChildId) (outcome : Except Error Answer)
    (super : String) :
    Event.replay super ⟨childBytes shelves super⟩ (.ran call.onRouter child outcome) =
      ⟨childBytes (call.after id shelves) super⟩ := by
  rw [Event.replay, super_onRouter]
  split
  · next hsuper =>
    rw [← hsuper, onContent_onRouter hfits]
  · next hsuper =>
    have hsame : call.after id shelves super = shelves super :=
      after_of_ne (Ne.symm hsuper) shelves
    rw [childBytes, childBytes, hsame]

/-! ### Turns of threads that make calls -/

/-- A thread has to make calls under keys, and nothing else. -/
structure Thread.Calls (left : List KeyedCall) (thread : Thread) : Prop where
  tasks : thread.tasks = left.map fun call => .call call.onRouter
  stage : thread.stage = .ready ∨ thread.stage.next?.isSome

section Turn

variable {router router' : MultiStore Parked Memory} {thread thread' : Thread} {event : Event}
  {left : List KeyedCall}

/-- In a turn a thread makes its next call, or gets closer to it. -/
theorem Turned.calls (h : Turned router thread event router' thread') (hcalls : thread.Calls left) :
    (thread'.Calls left ∧ thread'.outcomes = thread.outcomes ∧
        ∀ super memory, event.replay super memory = memory) ∨
      ∃ call later id outcome, left = call :: later ∧ event = .ran call.onRouter id outcome ∧
        thread'.Calls later ∧ thread'.outcomes = thread.outcomes ++ [outcome] := by
  cases h with
  | found => exact .inl ⟨⟨hcalls.tasks, .inr rfl⟩, rfl, fun _ _ => rfl⟩
  | waited => exact .inl ⟨hcalls, rfl, fun _ _ => rfl⟩
  | refused _ _ hopen => cases hopen
  | opened =>
    obtain ⟨stage, hstage⟩ := thread.goOn_of_next ⟨_, some router.children.length, none⟩ rfl
    refine .inl ⟨⟨?_, .inr ?_⟩, ?_, fun _ _ => rfl⟩
    · rw [hstage]
      exact hcalls.tasks
    · rw [Thread.next?_goOn]
      rfl
    · rw [hstage]
  | evicted _ htasks =>
    -- the thread has nothing but calls to make
    rw [hcalls.tasks] at htasks
    cases left <;> cases htasks
  | @handedBack _ _ rest _ _ _ hstage =>
    refine .inl ⟨⟨hcalls.tasks, .inr ?_⟩, rfl, fun _ _ => rfl⟩
    have hnext := hcalls.stage
    rw [hstage] at hnext
    rcases hnext with hready | hnext
    · cases hready
    · rwa [Stage.next?, Rest.next_note]
  | @forgot _ _ rest hstage =>
    have hnext : rest.next.isSome := by
      have hnext := hcalls.stage
      rw [hstage] at hnext
      rcases hnext with hready | hnext
      · cases hready
      · exact hnext
    obtain ⟨id, hid⟩ := Option.isSome_iff_exists.mp hnext
    obtain ⟨later, hlater⟩ := thread.goOn_of_next rest hid
    refine .inl ⟨⟨?_, .inr ?_⟩, ?_, fun _ _ => rfl⟩
    · rw [hlater]
      exact hcalls.tasks
    · rw [Thread.next?_goOn]
      exact hnext
    · rw [hlater]
  | missed => exact .inl ⟨⟨hcalls.tasks, .inl rfl⟩, rfl, fun _ _ => rfl⟩
  | @ran call tasks id storage lent outcome hstage htasks =>
    right
    rw [hcalls.tasks] at htasks
    obtain ⟨first, later, rfl, hfirst, hlater⟩ := List.map_eq_cons_iff.mp htasks
    cases hfirst
    refine ⟨first, later, id, outcome, rfl, rfl, ⟨?_, .inl rfl⟩, rfl⟩
    exact (congrArg List.tail hcalls.tasks).trans rfl

/-- Children in memory are taken back. -/
theorem Turned.unharmed (h : Turned router thread event router' thread') (super : String) :
    Unharmed super [event] := by
  intro id e hmem
  obtain rfl := List.mem_singleton.mp hmem
  cases h with
  | handedBack _ _ hrelease => cases hrelease

end Turn

namespace Machine

variable {capacity : Nat} {events : List Event} {event : Event} {machine next : Machine Parked Memory}

theorem unharmed_run (hpos : 0 < capacity) {tasks : List (List Task)}
    (hrun : Run (start { factory := {}, capacity, capacity_pos := hpos } tasks) events machine)
    (super : String) : Unharmed super events := by
  induction hrun with
  | nil => exact fun _ _ => List.not_mem_nil
  | @snoc events event machine next hrun hstep ih =>
    obtain ⟨number, thread, thread', -, hturned, -⟩ := hstep.turned (.run hpos hrun)
    intro id e hmem
    rcases List.mem_append.mp hmem with hmem | hmem
    · exact ih id e hmem
    · exact hturned.unharmed super id e hmem

/-- Whether an event is not a call on a content that is too large for a memory. -/
def fitsAfter (before : List Event) : Event → Bool
  | .ran call _ _ => (replay call.super before ⟨[]⟩).content.length ≤ Bytes.capacity
  | _ => true

/-- Each call is made on a content that fits into a memory. -/
def Fitting (events : List Event) : Prop :=
  ∀ place (h : place < events.length), fitsAfter (events.take place) events[place] = true

instance : Decidable (Fitting events) :=
  inferInstanceAs (Decidable (∀ place (_ : place < events.length), _))

theorem Fitting.front (h : Fitting (events ++ [event])) : Fitting events := by
  intro place hplace
  have hfits := h place (by rw [List.length_append]; omega)
  rwa [List.take_append_of_le_length (Nat.le_of_lt hplace), List.getElem_append_left hplace] at hfits

theorem Fitting.last (h : Fitting (events ++ [event])) : fitsAfter events event = true := by
  have hfits := h events.length (by simp)
  rwa [List.take_left, List.getElem_concat_length rfl] at hfits

/-- The turns so far have made the calls of a schedule, in which each program is as far as its thread. -/
structure Scheduled (programs : List (List KeyedCall)) (events : List Event)
    (machine : Machine Parked Memory) (schedule : List (Nat × KeyedCall)) : Prop where
  length : machine.threads.length = programs.length
  threads : ∀ {number : Nat} {thread : Thread}, machine.threads[number]? = some thread →
    ∃ left, programs.getD number [] = callsOf number schedule ++ left ∧ thread.Calls left ∧
      thread.outcomes = outcomesOf number (trace (onTurn (onShelves id)) schedule fun _ => [])
  mem : ∀ turn ∈ schedule, turn.2 ∈ programs.getD turn.1 []
  content : ∀ super, replay super events ⟨[]⟩ =
    ⟨childBytes (ending (onTurn (onShelves id)) schedule fun _ => []) super⟩
  fits : Throughout (onTurn (onShelves id)) (fun turn => turn.2.Fits id .byte) schedule fun _ => []

/-- The tasks of threads that make calls. -/
def tasksOf (programs : List (List KeyedCall)) : List (List Task) :=
  programs.map fun program => program.map fun call => .call call.onRouter

namespace Scheduled

theorem start (router : MultiStore Parked Memory) :
    Scheduled programs [] (Machine.start router (tasksOf programs)) [] where
  length := by rw [Machine.start, tasksOf, List.length_map, List.length_map]
  threads := by
    intro number thread hthread
    rw [Machine.start, tasksOf, List.map_map, List.getElem?_map] at hthread
    obtain ⟨program, hprogram, rfl⟩ := Option.map_eq_some_iff.mp hthread
    refine ⟨program, ?_, ⟨rfl, .inl rfl⟩, rfl⟩
    rw [List.getD_eq_getElem?_getD, hprogram]
    rfl
  mem := nofun
  content := fun _ => rfl
  fits := nofun

/-- **A turn goes on with the schedule, or leaves it as it is.** -/
theorem step (h : Scheduled programs events machine schedule) (hpos : 0 < capacity)
    (hrun : Run (Machine.start { factory := {}, capacity, capacity_pos := hpos } (tasksOf programs))
      events machine)
    (hstep : Step machine event next) (hfitting : Fitting (events ++ [event])) :
    ∃ schedule', Scheduled programs (events ++ [event]) next schedule' := by
  have hcons := Consistent.run hpos hrun
  obtain ⟨number, thread, thread', hthread, hturned, hthreads⟩ := hstep.turned hcons
  obtain ⟨left, hprogram, hcalls, houtcomes⟩ := h.threads hthread
  have hlength : next.threads.length = programs.length := by
    rw [hthreads, List.length_set, h.length]
  have hcases : ∀ {other later}, next.threads[other]? = some later →
      other = number ∧ later = thread' ∨ other ≠ number ∧ machine.threads[other]? = some later :=
    fun hlater => thread_cases (hthreads ▸ hlater)
  rcases hturned.calls hcalls with ⟨hcalls', houtcomes', hquiet⟩ |
    ⟨call, later, child, outcome, rfl, rfl, hcalls', houtcomes'⟩
  · refine ⟨schedule, hlength, ?_, h.mem, ?_, h.fits⟩
    · intro other later hlater
      rcases hcases hlater with ⟨rfl, rfl⟩ | ⟨-, hlater⟩
      · exact ⟨left, hprogram, hcalls', houtcomes'.trans houtcomes⟩
      · exact h.threads hlater
    · intro super
      rw [replay, List.foldl_concat, hquiet]
      exact h.content super
  · have hfits : call.Fits id .byte (ending (onTurn (onShelves id)) schedule fun _ => []) := by
      have hcap := of_decide_eq_true hfitting.last
      rw [h.content, super_onRouter] at hcap
      exact hcap
    have hkeeps := keeps_run hpos hrun (unharmed_run hpos hrun call.onRouter.super)
    have houtcome : outcome = (call.onRouter.onContent
        (replay call.onRouter.super events ⟨[]⟩)).1 := hturned.outcome (hcons.sound hthread) hkeeps
    rw [h.content, super_onRouter, onContent_onRouter hfits] at houtcome
    have hmem : (number, call).2 ∈ programs.getD (number, call).1 [] := by
      rw [hprogram]
      exact List.mem_append_right _ List.mem_cons_self
    refine ⟨schedule ++ [(number, call)], hlength, ?_, ?_, ?_, h.fits.concat hfits⟩
    · intro other thread hthread
      rw [outcomesOf_concat, step_onShelves]
      rcases hcases hthread with ⟨rfl, rfl⟩ | ⟨hother, hthread⟩
      · refine ⟨later, ?_, hcalls', ?_⟩
        · rw [hprogram, callsOf_concat_self, List.append_assoc, List.singleton_append]
        · rw [houtcomes', houtcomes, houtcome, if_pos rfl]
      · rw [callsOf_concat_ne hother.symm, if_neg hother.symm, List.append_nil]
        exact h.threads hthread
    · intro turn hturn
      rcases List.mem_append.mp hturn with hturn | hturn
      · exact h.mem turn hturn
      · rwa [List.mem_singleton.mp hturn]
    · intro super
      have hbefore := h.content super
      rw [replay] at hbefore
      rw [replay, List.foldl_concat, hbefore, replay_onRouter hfits, ending_concat, step_onTurn,
        step_onShelves]

/-- **A run of threads makes the calls of a schedule.** -/
theorem run (hpos : 0 < capacity)
    (hrun : Run (Machine.start { factory := {}, capacity, capacity_pos := hpos } (tasksOf programs))
      events machine)
    (hfitting : Fitting events) : ∃ schedule, Scheduled programs events machine schedule := by
  induction hrun with
  | nil => exact ⟨[], .start _⟩
  | snoc hrun hstep ih =>
    obtain ⟨schedule, hscheduled⟩ := ih hfitting.front
    exact hscheduled.step hpos hrun hstep hfitting

/-- When no thread has anything left to do, the schedule has all calls. -/
theorem interleaves (h : Scheduled programs events machine schedule)
    (hdone : ∀ thread ∈ machine.threads, thread.tasks = []) : Interleaves programs schedule := by
  intro number
  by_cases hlt : number < machine.threads.length
  · have hthread := List.getElem?_eq_getElem hlt
    obtain ⟨left, hprogram, hcalls, -⟩ := h.threads hthread
    have hleft := hcalls.tasks
    rw [hdone _ (List.getElem_mem hlt)] at hleft
    obtain rfl := List.map_eq_nil_iff.mp hleft.symm
    rw [hprogram, List.append_nil]
  · rw [h.length] at hlt
    have hnone : programs.getD number [] = [] := List.getD_eq_default _ _ (Nat.not_lt.mp hlt)
    rw [hnone, List.eq_nil_iff_forall_not_mem]
    intro call hcall
    have hmem := h.mem _ (mem_callsOf.mp hcall)
    rw [hnone] at hmem
    cases hmem

end Scheduled

/-- What every order of the turns of threads comes to. -/
structure Undisturbed (programs : List (List KeyedCall)) (router : MultiStore Parked Memory)
    (machine : Machine Parked Memory) : Prop where
  /-- The outcomes that a thread has had are those that its calls have alone. -/
  outcomes : ∀ number thread, machine.threads[number]? = some thread →
    thread.outcomes = ((trace performKeyed (programs.getD number []) router).map (·.outcome)).take
      thread.outcomes.length
  /-- Each call has had an outcome, or is still to be made. -/
  left : ∀ number thread, machine.threads[number]? = some thread →
    thread.outcomes.length + thread.tasks.length = (programs.getD number []).length
  /-- Some further turns let all threads make the rest of their calls. -/
  completes : ∃ more last, Run machine more last ∧ ∀ thread ∈ last.threads, thread.tasks = []
  /-- When all calls have been made, the values under a key do not depend on the order of the turns. -/
  values : (∀ thread ∈ machine.threads, thread.tasks = []) → ∀ super, ∃ entries,
    machine.router.contentOf super = encodeEntries .byte entries ∧
      ∀ sub, values entries sub = stored programs (super, sub)

/-- **Whatever the order of their turns, threads whose keys are apart do not disturb each other.** -/
theorem undisturbed (hpos : 0 < capacity) (hapart : Apart programs)
    (hrun : Run (start { factory := {}, capacity, capacity_pos := hpos } (tasksOf programs))
      events machine)
    (hfitting : Fitting events) :
    Undisturbed programs { factory := {}, capacity, capacity_pos := hpos } machine := by
  obtain ⟨schedule, h⟩ := Scheduled.run hpos hrun hfitting
  have hcons := Consistent.run hpos hrun
  have hplace : Function.Injective (id : String × String → String × String) := Function.injective_id
  constructor
  · intro number thread hthread
    obtain ⟨left, hprogram, -, houtcomes⟩ := h.threads hthread
    rw [outcomesOf_mirrored hplace hapart h.mem number performKeyed_shelves (mirrors_start hpos)
      h.fits] at houtcomes
    rw [hprogram, trace_append, List.map_append, ← houtcomes, List.take_left]
  · intro number thread hthread
    obtain ⟨left, hprogram, hcalls, houtcomes⟩ := h.threads hthread
    rw [outcomesOf_shelves hplace hapart h.mem] at houtcomes
    rw [houtcomes, hcalls.tasks, hprogram, List.length_append, List.length_map, List.length_map,
      length_trace]
  · exact hcons.completes
  · intro hdone super
    refine ⟨ending (onTurn (onShelves id)) schedule (fun _ => []) super, ?_, fun sub =>
      values_of_interleaves hplace hapart (h.interleaves hdone) (super, sub)⟩
    have hkeeps := keeps_run hpos hrun (unharmed_run hpos hrun super)
    exact (hkeeps.contentOf_eq hcons.ordered).trans (congrArg Memory.content (h.content super))

end Machine

end MultiStore

/-- **Threads whose keys are apart do not disturb each other**, on either router: each gets the outcomes
that it has alone on a router without entries, and the values under a key are the same for every order
of the calls. -/
theorem threads_apart (framing : Framing) (capacity : Nat) (hpos : 0 < capacity)
    (programs : List (List KeyedCall)) (hapart : Apart programs) :
    (∀ schedule, Interleaves programs schedule →
      Throughout (onTurn (Composite.performKeyed framing))
        (fun _ memory => memory.content.length ≤ Bytes.capacity) schedule ⟨[]⟩ →
      Composite.Undisturbed framing programs schedule) ∧
    ∃ router, MultiStore.create ({} : Parked) capacity = .ok router ∧
      ∀ events machine,
        MultiStore.Machine.Run (.start router (MultiStore.Machine.tasksOf programs)) events machine →
        MultiStore.Machine.Fitting events →
        MultiStore.Machine.Undisturbed programs router machine :=
  ⟨fun _ hschedule hfits => Composite.undisturbed hapart hschedule hfits, _, dif_pos hpos,
    fun _ _ hrun hfitting => MultiStore.Machine.undisturbed hpos hapart hrun hfitting⟩

/-- Two threads that share a super-tag, where the only open child is displaced under the hands of each
of them. -/
theorem threads_apart_displaced :
    let programs : List (List KeyedCall) :=
      [[⟨"a", "x", .push [1]⟩, ⟨"b", "x", .put [9]⟩, ⟨"a", "x", .get⟩],
        [⟨"a", "y", .push [2]⟩, ⟨"a", "y", .erase⟩]]
    let schedule : List (Nat × KeyedCall) :=
      [(1, ⟨"a", "y", .push [2]⟩), (0, ⟨"a", "x", .push [1]⟩), (0, ⟨"b", "x", .put [9]⟩),
        (1, ⟨"a", "y", .erase⟩), (0, ⟨"a", "x", .get⟩)]
    let events : List MultiStore.Event :=
      [.opened "a" 0, .ran (.push "a" "x" [1]) 0 (.ok .done), .found "a" 0, .opened "b" 1,
        .handedBack "a" 0 (.ok ()), .missed (.push "a" "y" [2]) 0, .waited "a", .forgot "a" 0,
        .opened "a" 2, .handedBack "b" 1 (.ok ()), .missed (.put "b" "x" [9]) 1, .forgot "b" 1,
        .ran (.push "a" "y" [2]) 2 (.ok .done), .opened "b" 3, .handedBack "a" 2 (.ok ()),
        .forgot "a" 2, .ran (.put "b" "x" [9]) 3 (.ok (.flag false)), .opened "a" 4,
        .handedBack "b" 3 (.ok ()), .forgot "b" 3,
        .ran (.erase "a" "y") 4 (.ok (.value (some [2]))), .found "a" 4,
        .ran (.get "a" "x") 4 (.ok (.value (some [1])))]
    0 < 1 ∧ Apart programs ∧ Interleaves programs schedule ∧
      Throughout (onTurn (Composite.performKeyed .text))
        (fun _ memory => memory.content.length ≤ Bytes.capacity) schedule ⟨[]⟩ ∧
      Composite.Undisturbed .text programs schedule ∧
      ∃ router, MultiStore.create ({} : Parked) 1 = .ok router ∧ ∃ machine,
        MultiStore.Machine.Run (.start router (MultiStore.Machine.tasksOf programs)) events machine ∧
        MultiStore.Machine.Fitting events ∧ machine.threads.map (·.tasks) = [[], []] ∧
        MultiStore.Machine.Undisturbed programs router machine := by
  intro programs schedule events
  have hapart : Apart programs := by
    unfold Apart
    decide +kernel
  have hschedule : Interleaves programs schedule := by
    rintro (_ | _ | number) <;> rfl
  have hfits : Throughout (onTurn (Composite.performKeyed .text))
      (fun _ memory => memory.content.length ≤ Bytes.capacity) schedule ⟨[]⟩ := by
    unfold Throughout
    decide +kernel
  obtain ⟨hcomposite, router, hrouter, hmulti⟩ := threads_apart .text 1 (by decide) programs hapart
  have hstart : router = { factory := {}, capacity := 1, capacity_pos := by decide } := by
    cases hrouter
    rfl
  have hfollow : ((MultiStore.Machine.start router (MultiStore.Machine.tasksOf programs)).follow
      [0, 0, 1, 0, 0, 1, 1, 0, 1, 1, 0, 1, 1, 0, 0, 0, 0, 1, 1, 1, 1, 0, 0]).map
        (fun made => (made.1, made.2.threads.map (·.tasks))) = some (events, [[], []]) := by
    rw [hstart]
    decide +kernel
  obtain ⟨⟨made, machine⟩, hmachine, heq⟩ := Option.map_eq_some_iff.mp hfollow
  obtain ⟨rfl, hdone⟩ := Prod.mk.inj heq
  have hrun := MultiStore.Machine.Run.nil.follow hmachine
  have hfitting : MultiStore.Machine.Fitting events := by
    unfold MultiStore.Machine.Fitting
    decide +kernel
  exact ⟨by decide, hapart, hschedule, hfits, hcomposite schedule hschedule hfits, router, hrouter,
    machine, hrun, hfitting, hdone, hmulti events machine hrun hfitting⟩

end FramedStore
