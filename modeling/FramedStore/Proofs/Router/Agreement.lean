import FramedStore.Proofs.Router.Namespaces
import FramedStore.Proofs.Router.Sequential

/-!
# Both routers give the same answers

The namespaces of one tag store and the children of a router that opens at most `capacity` of them give
the same answers to the same calls (`routers_agree`), whatever children are closed in between. The
answers to the calls on a super-tag are those of an ordered multimap of its own.
-/

namespace FramedStore

open Effect TagStore

/-- Makes a call on the entries of its namespace; none fails. -/
def RouterCall.onMultimap (call : RouterCall) : Effect (List Entry) Answer := fun entries =>
  .ok (call.onEntries entries).1 (call.onEntries entries).2

/-- The call of a task, if it is one. -/
def MultiStore.Task.call? : MultiStore.Task → Option RouterCall
  | .call made => some made
  | .closeAll => none

/-- The outcomes of the calls among the tasks of a run. -/
def MultiStore.callOutcomes {σ : Type} (steps : List (Step MultiStore.Task σ Answer)) :
    List (Except Error Answer) :=
  steps.filterMap fun made => made.call.call?.map fun _ => made.outcome

variable {framing : Framing} {memory : Memory} {spaces : String → List Entry}

/-- A tag store in memory has the entries of each namespace. -/
def Composite.Shows (framing : Framing) (memory : Memory) (spaces : String → List Entry) : Prop :=
  ∃ entries, memory = ⟨encodeEntries framing entries⟩ ∧ ∀ super, under super entries = spaces super

/-- The entries of all namespaces after a call. -/
def RouterCall.onSpaces (call : RouterCall) (spaces : String → List Entry) : String → List Entry :=
  Function.update spaces call.super (call.onEntries (spaces call.super)).2

namespace Composite

theorem perform_shows (call : RouterCall) (h : Shows framing memory spaces)
    (hcap : memory.content.length ≤ Bytes.capacity) :
    ∃ memory', perform framing call memory =
        .ok (call.onEntries (spaces call.super)).1 memory' ∧
      Shows framing memory' (call.onSpaces spaces) := by
  obtain ⟨entries, rfl, hunder⟩ := h
  refine ⟨⟨encodeEntries framing (onJoined call entries)⟩, ?_, onJoined call entries, rfl, ?_⟩
  · rw [perform_apply call hcap, hunder]
  · intro super
    unfold RouterCall.onSpaces
    by_cases hsuper : super = call.super
    · rw [hsuper, Function.update_self, under_onJoined_self, hunder]
    · rw [Function.update_of_ne hsuper, under_onJoined_other hsuper, hunder]

theorem length_le_of_shows (h : Shows framing memory spaces)
    (hcap : memory.content.length ≤ Bytes.capacity) (super : String) :
    (encodeEntries .byte (spaces super)).length ≤ Bytes.capacity := by
  obtain ⟨entries, rfl, hunder⟩ := h
  rw [← hunder super]
  exact Nat.le_trans (length_encode_under_le framing super entries) hcap

/-- **Each namespace answers as a multimap of its own.** -/
theorem outcomes_of_super (super : String) :
    ∀ (calls : List RouterCall) (memory : Memory) (spaces : String → List Entry),
      Shows framing memory spaces →
      Throughout (perform framing) (fun _ memory => memory.content.length ≤ Bytes.capacity)
        calls memory →
      ((trace (perform framing) calls memory).filter (·.call.super == super)).map (·.outcome) =
        (trace RouterCall.onMultimap (calls.filter (·.super == super)) (spaces super)).map
          (·.outcome) := by
  intro calls
  induction calls with
  | nil => intro memory spaces _ _; rfl
  | cons call calls ih =>
    intro memory spaces hshows hfits
    obtain ⟨hcap, hfits⟩ := throughout_cons.mp hfits
    obtain ⟨memory', hperform, hshows'⟩ := perform_shows call hshows hcap
    have hstep := step_ok hperform
    rw [hstep] at hfits
    have hlater := ih memory' _ hshows' hfits
    rw [trace, hstep]
    by_cases hsuper : call.super = super
    · subst hsuper
      have hown : step RouterCall.onMultimap call (spaces call.super) =
          ⟨call, spaces call.super, .ok (call.onEntries (spaces call.super)).1,
            call.onSpaces spaces call.super⟩ := by
        unfold RouterCall.onSpaces
        rw [Function.update_self]
        rfl
      rw [List.filter_cons_of_pos (by simp), List.filter_cons_of_pos (by simp), trace, hown,
        List.map_cons, List.map_cons, hlater]
    · have hspaces : call.onSpaces spaces super = spaces super :=
        Function.update_of_ne (Ne.symm hsuper) _ _
      rw [List.filter_cons_of_neg (by simpa using hsuper),
        List.filter_cons_of_neg (by simpa using hsuper), hlater, hspaces]

end Composite

namespace MultiStore

variable {owners : List String} {router : MultiStore Parked Memory}

/-- The bytes of each namespace in a child of its own. -/
def childBytes (spaces : String → List Entry) (super : String) : Bytes :=
  encodeEntries .byte (spaces super)

theorem childBytes_onSpaces (call : RouterCall) (spaces : String → List Entry) :
    childBytes (call.onSpaces spaces) = Function.update (childBytes spaces) call.super
      (encodeEntries .byte (call.onEntries (spaces call.super)).2) := by
  funext super
  unfold childBytes RouterCall.onSpaces
  by_cases hsuper : super = call.super
  · rw [hsuper, Function.update_self, Function.update_self]
  · rw [Function.update_of_ne hsuper, Function.update_of_ne hsuper]

theorem perform_quiet (call : RouterCall) (h : Quiet owners router (childBytes spaces))
    (hcap : (childBytes spaces call.super).length ≤ Bytes.capacity) :
    ∃ owners' router', perform call router =
        .ok (call.onEntries (spaces call.super)).1 router' ∧
      Quiet owners' router' (childBytes (call.onSpaces spaces)) := by
  have halike := fun contents => RouterCall.alike_onChild
    (FaithfulFactory.alike_storage (φ := Parked) contents) call
  obtain ⟨owners', router', haccess, hquiet⟩ :=
    access_parked halike (call.onChild_apply hcap) h
  refine ⟨owners', router', (perform_eq_access call router).trans haccess, ?_⟩
  rw [childBytes_onSpaces]
  exact hquiet

/-- A run on children has the answers of the run on namespaces. -/
theorem callOutcomes_eq :
    ∀ (tasks : List Task) (owners : List String) (router : MultiStore Parked Memory)
      (memory : Memory) (spaces : String → List Entry),
      Quiet owners router (childBytes spaces) → Composite.Shows framing memory spaces →
      Throughout (Composite.perform framing)
        (fun _ memory => memory.content.length ≤ Bytes.capacity) (tasks.filterMap Task.call?)
        memory →
      callOutcomes (trace performTask tasks router) =
        (trace (Composite.perform framing) (tasks.filterMap Task.call?) memory).map
          (·.outcome) := by
  intro tasks
  induction tasks with
  | nil => intro owners router memory spaces _ _ _; rfl
  | cons task tasks ih =>
    intro owners router memory spaces hquiet hshows hfits
    cases task with
    | call call =>
      have hcalls : (Task.call call :: tasks).filterMap Task.call? =
          call :: tasks.filterMap Task.call? := rfl
      rw [hcalls] at hfits ⊢
      obtain ⟨hcap, hfits⟩ := throughout_cons.mp hfits
      have hchild := Composite.length_le_of_shows hshows hcap call.super
      obtain ⟨memory', hcomposite, hshows'⟩ := Composite.perform_shows call hshows hcap
      obtain ⟨owners', router', hperform, hquiet'⟩ := perform_quiet call hquiet hchild
      have htask : performTask (.call call) router =
          .ok (call.onEntries (spaces call.super)).1 router' := hperform
      rw [step_ok hcomposite] at hfits
      rw [trace, trace, step_ok htask, step_ok hcomposite, List.map_cons,
        ← ih owners' router' memory' _ hquiet' hshows' hfits]
      rfl
    | closeAll =>
      obtain ⟨router', hclose, hquiet'⟩ := closeAll_parked hquiet
      have htask : performTask .closeAll router = .ok .done router' :=
        (bind_ok hclose).trans rfl
      rw [trace, step_ok htask]
      exact ih owners router' memory spaces hquiet' hshows hfits

end MultiStore

/-- **Both routers give the same answers.** As long as the bytes of the one tag store fit into a
memory, no call fails, and the calls on a super-tag have the answers of a multimap of its own. -/
theorem routers_agree (framing : Framing) (capacity : Nat) (hpos : 0 < capacity)
    (tasks : List MultiStore.Task)
    (hfits : Throughout (Composite.perform framing)
      (fun _ (memory : Memory) => memory.content.length ≤ Bytes.capacity)
      (tasks.filterMap MultiStore.Task.call?) ⟨[]⟩) :
    ∃ router, MultiStore.create ({} : Parked) capacity = .ok router ∧
      MultiStore.callOutcomes (trace MultiStore.performTask tasks router) =
        (trace (Composite.perform framing) (tasks.filterMap MultiStore.Task.call?)
          (⟨[]⟩ : Memory)).map (·.outcome) ∧
      ∀ super,
        ((trace (Composite.perform framing) (tasks.filterMap MultiStore.Task.call?)
          (⟨[]⟩ : Memory)).filter (·.call.super == super)).map (·.outcome) =
        (trace RouterCall.onMultimap
          ((tasks.filterMap MultiStore.Task.call?).filter (·.super == super)) []).map
          (·.outcome) := by
  have hshows : Composite.Shows framing ⟨[]⟩ fun _ => [] := ⟨[], rfl, fun _ => rfl⟩
  have hquiet : MultiStore.Quiet []
      ({ factory := {}, capacity, capacity_pos := hpos } : MultiStore Parked Memory)
      (MultiStore.childBytes fun _ => []) := .start hpos
  refine ⟨_, dif_pos hpos, ?_, fun super => ?_⟩
  · exact MultiStore.callOutcomes_eq tasks _ _ _ _ hquiet hshows hfits
  · exact Composite.outcomes_of_super super _ _ _ hshows hfits

/-- A run in which one child displaces the other, under super-tags that look alike. -/
theorem routers_agree_displaced :
    let calls : List RouterCall :=
      [.put "1" "a" [1], .push "" "1a" [2], .subTags "1", .put "1" "a" [], .clearSuper ""]
    let tasks : List MultiStore.Task :=
      [.call (.put "1" "a" [1]), .call (.push "" "1a" [2]), .closeAll, .call (.subTags "1"),
        .call (.put "1" "a" []), .call (.clearSuper "")]
    Throughout (Composite.perform .text)
      (fun _ (memory : Memory) => memory.content.length ≤ Bytes.capacity) calls ⟨[]⟩ ∧
    ∃ router, MultiStore.create ({} : Parked) 1 = .ok router ∧
      MultiStore.callOutcomes (trace MultiStore.performTask tasks router) =
        (trace (Composite.perform .text) calls (⟨[]⟩ : Memory)).map (·.outcome) ∧
      ∀ super,
        ((trace (Composite.perform .text) calls (⟨[]⟩ : Memory)).filter
          (·.call.super == super)).map (·.outcome) =
        (trace RouterCall.onMultimap (calls.filter (·.super == super)) []).map (·.outcome) := by
  intro calls tasks
  have hfits : Throughout (Composite.perform .text)
      (fun _ (memory : Memory) => memory.content.length ≤ Bytes.capacity) calls ⟨[]⟩ := by
    unfold Throughout
    decide +kernel
  exact ⟨hfits, routers_agree .text 1 (by decide) tasks hfits⟩

end FramedStore
