import FramedStore.Proofs.Router.Machine
import FramedStore.Proofs.Router.Sequential

/-!
# A thread alone

A thread that has a router for itself does its tasks in turns, and what comes of them is what comes of
the tasks when each is done as a whole (`run_alone`). So the turns are the sections of the calls, in
their order. The same holds while other threads take no turns, if none of them stands in a release
(`Reaches.task`).
-/

namespace FramedStore.MultiStore

open Effect
open TagStore (Answer)

variable {φ κ α : Type} [ChildFactory φ κ] {router router' mid : MultiStore φ κ} {super : String}
  {id : ChildId}

/-! ### Whole tasks -/

/-- An access comes to the use of the child that its first round finds. -/
theorem access_of_round {effect : Effect (Lent φ κ) α}
    (hround : accessRound super effect () router = useRound id effect mid)
    (hheld : (mid.held? id).isSome) :
    ∃ outcome router', (access super effect).attempt router = .ok outcome router' ∧
      (runOn id effect).attempt mid = .ok (outcome.map some) router' := by
  obtain ⟨storage, hstorage⟩ := Option.isSome_iff_exists.mp hheld
  have hrun := runOn_some mid effect hstorage
  have hattempt := attempt_apply mid (runOn id effect)
  have haccess := attempt_apply router (access super effect)
  rcases hresult : effect ⟨mid.factory, storage⟩ with ⟨a, lent⟩ | ⟨e, lent⟩
  all_goals
    rw [hresult] at hrun
    rw [hrun] at hattempt
  · have huse : accessRound super effect () router = .ok (.done a) _ :=
      hround.trans ((bind_ok hrun).trans rfl)
    have hwhole : access super effect router = .ok a _ := iterate_done huse
    rw [hwhole] at haccess
    exact ⟨.ok a, _, haccess, hattempt⟩
  · have huse : accessRound super effect () router = .error e _ := hround.trans (bind_error hrun)
    have hwhole : access super effect router = .error e _ := iterate_error huse
    rw [hwhole] at haccess
    exact ⟨.error e, _, haccess, hattempt⟩

/-! ### The turns of one thread -/

theorem Thread.goOn_stage (thread : Thread) (stage : Stage) (rest : Rest) :
    { thread with stage }.goOn rest = thread.goOn rest := by
  obtain ⟨_ | ⟨⟨super, id⟩, pending⟩, _ | next, failure⟩ := rest <;> rfl

namespace Machine

variable {first : Machine φ κ} {before after : List Thread} {thread thread' : Thread} {rest : Rest}

/-- A run gets so far with the turns of one thread, which stands between others. -/
def Reaches (first : Machine φ κ) (before after : List Thread) (router : MultiStore φ κ)
    (thread : Thread) : Prop :=
  ∃ events, Run first events ⟨router, before ++ thread :: after⟩

namespace Reaches

theorem turn {event : Event} (h : Reaches first before after router thread)
    (hturn : thread.turn router = .ok (some (event, thread')) router') :
    Reaches first before after router' thread' := by
  obtain ⟨events, hrun⟩ := h
  have hthread : (before ++ thread :: after)[before.length]? = some thread := by simp
  have hset : (before ++ thread :: after).set before.length thread' = before ++ thread' :: after := by
    simp
  exact ⟨_, hset ▸ hrun.snoc (step_of_turn hthread hturn)⟩

theorem release {outcome : Except Error Unit}
    (h : Reaches first before after router { thread with stage := .handing super id rest })
    (hrelease : (release super id).attempt router = .ok outcome router') :
    Reaches first before after router' (thread.goOn (rest.note outcome)) := by
  obtain ⟨outcome', mid, hback⟩ := exists_attempt router (handBack super id)
  rw [release_of_handBack hback] at hrelease
  cases hrelease
  have hhanded := h.turn ((bind_ok hback).trans rfl)
  have hforgot := hhanded.turn ((bind_ok (forget_apply mid super id)).trans rfl)
  rwa [Thread.goOn_stage] at hforgot

/-- The releases are made one after the other, and the first error is kept. -/
theorem releaseEach {pending : List (String × ChildId)} {next : Option ChildId}
    {failure found : Option Error}
    (h : Reaches first before after router (thread.goOn ⟨pending, next, failure⟩))
    (heach : releaseEach pending router = .ok found router') :
    Reaches first before after router' (thread.goOn ⟨[], next, failure.or found⟩) := by
  induction pending generalizing router failure found with
  | nil =>
    cases heach
    rwa [Option.or_none]
  | cons entry pending ih =>
    obtain ⟨super, id⟩ := entry
    obtain ⟨outcome, mid, hrelease⟩ := exists_attempt router (MultiStore.release super id)
    obtain ⟨later, last, hrest⟩ := exists_releaseEach pending mid
    rw [releaseEach_cons hrelease hrest] at heach
    cases heach
    have hmid : Reaches first before after mid (thread.goOn (Rest.note ⟨pending, next, failure⟩ outcome)) :=
      h.release hrelease
    cases outcome with
    | ok => exact ih hmid hrest
    | error e =>
      have hlast := ih hmid hrest
      rwa [Option.or_assoc] at hlast

theorem use {call : RouterCall} {tasks : List Task} {outcomes : List (Except Error Answer)}
    {outcome : Except Error Answer}
    (h : Reaches first before after router ⟨.call call :: tasks, .holding id, outcomes⟩)
    (hrun : (runOn id call.onChild).attempt router = .ok (outcome.map some) router') :
    Reaches first before after router' ⟨tasks, .ready, outcomes ++ [outcome]⟩ := by
  cases outcome <;> exact h.turn ((bind_ok hrun).trans rfl)

/-- A call in turns has the outcome that it has as a whole. -/
theorem call {owners : List String} {call : RouterCall} {tasks : List Task}
    {outcomes : List (Except Error Answer)}
    (h : Reaches first before after router ⟨.call call :: tasks, .ready, outcomes⟩)
    (hordered : Ordered owners router) (hsettled : router.releasing = []) :
    ∃ outcome router', (access call.super call.onChild).attempt router = .ok outcome router' ∧
      Reaches first before after router' ⟨tasks, .ready, outcomes ++ [outcome]⟩ := by
  have hattempt := attempt_apply router (find (φ := φ) call.super)
  rcases find_cases router call.super with ⟨id, hid, hfind⟩ | ⟨-, hwait, -⟩ |
    ⟨-, ⟨e, factory, -, hfind⟩ | ⟨storage, factory, -, hfind⟩⟩
  · rw [hfind] at hattempt
    have hround : accessRound call.super call.onChild () router = useRound id call.onChild _ :=
      bind_ok hfind
    obtain ⟨outcome, router', haccess, hrun⟩ :=
      access_of_round hround (hordered.opened_held call.super id hid).2
    exact ⟨outcome, router', haccess, (h.turn ((bind_ok hattempt).trans rfl)).use hrun⟩
  · rw [hsettled] at hwait
    cases hwait
  · rw [hfind] at hattempt
    have hround : accessRound call.super call.onChild () router = .error e _ := bind_error hfind
    have haccess := attempt_apply router (access call.super (call.onChild : Effect (Lent φ κ) Answer))
    have hwhole : access call.super call.onChild router = .error e _ := iterate_error hround
    rw [hwhole] at haccess
    exact ⟨.error e, _, haccess, h.turn ((bind_ok hattempt).trans rfl)⟩
  · rw [hfind] at hattempt
    have hself := held?_enter_self { router with factory } call.super storage
    have hopened := h.turn ((bind_ok hattempt).trans rfl)
    rcases hvictim : router.victim? with _ | ⟨evicted, old⟩
    · rw [hvictim] at hfind hopened
      have hround : accessRound call.super call.onChild () router =
          useRound router.children.length call.onChild _ := bind_ok hfind
      obtain ⟨outcome, router', haccess, hrun⟩ :=
        access_of_round hround (Option.isSome_of_eq_some hself)
      exact ⟨outcome, router', haccess, hopened.use hrun⟩
    · rw [hvictim] at hfind hopened
      have hsome := (hordered.opened_held evicted old (mem_of_victim? hvictim)).2
      have hne : router.children.length ≠ old := Nat.ne_of_gt (lt_length_of_held? hsome)
      have hsome' : (({ router with factory } : MultiStore φ κ).enter call.super storage
          |>.held? old).isSome := by
        rw [held?_enter_ne { router with factory } call.super storage hne.symm]
        exact hsome
      obtain ⟨released, mid, hrelease⟩ := exists_attempt
        ({ router with factory }.enter call.super storage) (MultiStore.release evicted old)
      rw [← held?_release hsome' hne hrelease] at hself
      have hround : accessRound call.super call.onChild () router =
          useRound router.children.length call.onChild mid :=
        (bind_ok hfind).trans (bind_ok hrelease)
      obtain ⟨outcome, router', haccess, hrun⟩ :=
        access_of_round hround (Option.isSome_of_eq_some hself)
      have hholding : Reaches first before after mid ⟨.call call :: tasks, .holding router.children.length,
          outcomes⟩ := by
        have hreleased := hopened.release hrelease
        cases released <;> exact hreleased
      exact ⟨outcome, router', haccess, hholding.use hrun⟩

/-- All children are closed in turns as they are as a whole. -/
theorem closeAll {owners : List String} {tasks : List Task} {outcomes : List (Except Error Answer)}
    (h : Reaches first before after router ⟨.closeAll :: tasks, .ready, outcomes⟩)
    (hordered : Ordered owners router) :
    ∃ outcome router', (performTask .closeAll).attempt router = .ok outcome router' ∧
      Reaches first before after router' ⟨tasks, .ready, outcomes ++ [outcome]⟩ := by
  have hevict := hordered.evictAll.1
  obtain ⟨failure, router', heach⟩ := exists_releaseEach router.opened.reverse
    { router with opened := [], releasing := router.opened ++ router.releasing }
  have hevicted := h.turn ((bind_ok hevict).trans rfl)
  have hreleased := hevicted.releaseEach heach
  have hclose : MultiStore.closeAll router = _ := (bind_ok hevict).trans (bind_ok heach)
  have hattempt := attempt_apply router (performTask .closeAll : Effect (MultiStore φ κ) Answer)
  cases failure with
  | none =>
    have hwhole : performTask .closeAll router = .ok .done router' := bind_ok hclose
    rw [hwhole] at hattempt
    exact ⟨.ok .done, router', hattempt, hreleased⟩
  | some e =>
    have hwhole : performTask .closeAll router = .error e router' := bind_error hclose
    rw [hwhole] at hattempt
    exact ⟨.error e, router', hattempt, hreleased⟩

section Task

variable {capacity : Nat} {events : List Event} {tasks : List Task}
  {outcomes : List (Except Error Answer)} (hcons : Consistent capacity events first)
  (hothers : ∀ other ∈ before ++ after, other.stage = .ready)
include hcons hothers

/-- A task in turns comes to what it comes to as a whole. -/
theorem task {task : Task} (h : Reaches first before after router ⟨task :: tasks, .ready, outcomes⟩) :
    Reaches first before after (step performTask task router).after
      ⟨tasks, .ready, outcomes ++ [(step performTask task router).outcome]⟩ := by
  obtain ⟨more, hrun⟩ := h
  have hcons := hcons.along hrun
  -- between its tasks the thread is not in a release
  have hsettled : router.releasing = [] := by
    rw [List.eq_nil_iff_forall_not_mem]
    intro entry hentry
    obtain ⟨number, thread, hthread, hreleases⟩ := hcons.releasing_owed entry hentry
    have hready : thread.stage = .ready := by
      rcases List.mem_append.mp (List.mem_of_getElem? hthread) with hmem | hmem
      · exact hothers thread (List.mem_append_left _ hmem)
      · rcases List.mem_cons.mp hmem with rfl | hmem
        · rfl
        · exact hothers thread (List.mem_append_right _ hmem)
    rw [hready] at hreleases
    exact Stage.not_releases_ready hreleases
  have hreached : ∃ outcome router', (performTask task).attempt router = .ok outcome router' ∧
      Reaches first before after router' ⟨tasks, .ready, outcomes ++ [outcome]⟩ := by
    cases task with
    | call made =>
      obtain ⟨outcome, router', haccess, hreached⟩ :=
        Reaches.call ⟨more, hrun⟩ hcons.ordered hsettled
      refine ⟨outcome, router', ?_, hreached⟩
      rw [attempt_apply, ← perform_eq_access] at haccess
      exact haccess
    | closeAll => exact Reaches.closeAll ⟨more, hrun⟩ hcons.ordered
  obtain ⟨outcome, router', hattempt, hreached⟩ := hreached
  rw [step_of_attempt hattempt]
  exact hreached

theorem program (h : Reaches first before after router ⟨tasks, .ready, outcomes⟩) :
    Reaches first before after
      (tasks.foldl (fun router task => (step performTask task router).after) router)
      ⟨[], .ready, outcomes ++ (trace performTask tasks router).map (·.outcome)⟩ := by
  induction tasks generalizing router outcomes with
  | nil =>
    rw [trace, List.map_nil, List.append_nil]
    exact h
  | cons task tasks ih =>
    have hrest := ih (h.task hcons hothers)
    rwa [List.append_assoc] at hrest

end Task

end Reaches

/-- **A thread alone does its tasks as they are done one after the other.** -/
theorem run_alone (factory : φ) (capacity : Nat) (hpos : 0 < capacity) (tasks : List Task) :
    ∃ router, create factory capacity = .ok router ∧ ∃ events, Run (start router [tasks]) events
      ⟨tasks.foldl (fun router task => (step performTask task router).after) router,
        [⟨[], .ready, (trace performTask tasks router).map (·.outcome)⟩]⟩ := by
  have hstart : Reaches (start { factory, capacity, capacity_pos := hpos } [tasks]) [] []
      { factory, capacity, capacity_pos := hpos } { tasks } := ⟨[], .nil⟩
  exact ⟨_, dif_pos hpos, hstart.program (.start hpos) (by simp)⟩

end Machine

end FramedStore.MultiStore
