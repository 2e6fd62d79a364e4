import FramedStore.Proofs.Router.Alone

/-!
# Every run can be completed

Wherever the turns of threads on one router have led, some order of further turns lets all threads do
the rest of their tasks (`Consistent.completes`): each thread first ends the release or the call that it
is in, and then does its tasks while the others stand still.
-/

namespace FramedStore.MultiStore.Machine

open Effect
open TagStore (Answer)

variable {φ κ : Type} [ChildFactory φ κ] {capacity : Nat} {events : List Event}
  {first machine : Machine φ κ} {before after : List Thread} {router : MultiStore φ κ} {thread : Thread}

namespace Reaches

/-- A thread that has a child for its call makes it, or finds that the child has been handed back. -/
theorem ready_of_holding (hcons : Consistent capacity events first)
    (h : Reaches first before after router thread) {id : ChildId} (hstage : thread.stage = .holding id) :
    ∃ router' thread', Reaches first before after router' thread' ∧ thread'.stage = .ready := by
  obtain ⟨more, hrun⟩ := h
  have hcons := hcons.along hrun
  have hthread : (before ++ thread :: after)[before.length]? = some thread := by simp
  have hsound := hcons.sound hthread
  have hbusy : thread.stage ≠ .ready := by
    rw [hstage]
    nofun
  obtain ⟨event, thread', router', hturn⟩ := exists_turn hcons.ordered hsound (.inl hbusy)
  refine ⟨router', thread', Reaches.turn ⟨more, hrun⟩ hturn, ?_⟩
  cases turn_cases hcons.ordered hsound hturn with
  | missed | ran => rfl
  | found hready | waited hready | refused hready | opened hready | evicted hready =>
    exact absurd hready hbusy
  | handedBack hother | forgot hother =>
    rw [hstage] at hother
    cases hother

/-- A thread in the middle of releases ends them. -/
theorem ready_of_goOn {rest : Rest} (hcons : Consistent capacity events first)
    (h : Reaches first before after router (thread.goOn rest)) :
    ∃ router' thread', Reaches first before after router' thread' ∧ thread'.stage = .ready := by
  obtain ⟨pending, next, failure⟩ := rest
  obtain ⟨found, router', heach⟩ := exists_releaseEach pending router
  have hreleased := h.releaseEach heach
  cases next with
  | none => exact ⟨router', _, hreleased, rfl⟩
  | some id => exact hreleased.ready_of_holding hcons rfl

/-- **A thread comes to the start of a task, whatever the others have done.** -/
theorem exists_ready (hcons : Consistent capacity events first)
    (h : Reaches first before after router thread) :
    ∃ router' thread', Reaches first before after router' thread' ∧ thread'.stage = .ready := by
  obtain ⟨tasks, stage, outcomes⟩ := thread
  cases stage with
  | ready => exact ⟨router, _, h, rfl⟩
  | holding id => exact h.ready_of_holding hcons rfl
  | handing super id rest =>
    have hreleases : Reaches first before after router (Thread.goOn ⟨tasks, .ready, outcomes⟩
        ⟨(super, id) :: rest.pending, rest.next, rest.failure⟩) := h
    exact hreleases.ready_of_goOn hcons
  | forgetting super id rest =>
    have hforgot := h.turn ((bind_ok (forget_apply router super id)).trans rfl)
    exact hforgot.ready_of_goOn hcons

end Reaches

/-- If each thread can be led to where it is wanted, one after the other, all can. -/
theorem lead_each (router : MultiStore φ κ) (before : List Thread) (given wanted : Thread → Prop)
    (hlead : ∀ (events : List Event) (router : MultiStore φ κ) (before after : List Thread)
      (thread : Thread), Consistent capacity events ⟨router, before ++ thread :: after⟩ →
      (∀ other ∈ before, wanted other) → given thread → (∀ other ∈ after, given other) →
      ∃ router' thread', Reaches ⟨router, before ++ thread :: after⟩ before after router' thread' ∧
        wanted thread')
    (hcons : Consistent capacity events ⟨router, before ++ after⟩)
    (hbefore : ∀ other ∈ before, wanted other) (hafter : ∀ other ∈ after, given other) :
    ∃ more last, Run ⟨router, before ++ after⟩ more last ∧ ∀ other ∈ last.threads, wanted other := by
  induction after generalizing events router before with
  | nil =>
    refine ⟨[], _, .nil, ?_⟩
    rw [List.append_nil]
    exact hbefore
  | cons thread after ih =>
    obtain ⟨hthread, hafter⟩ := List.forall_mem_cons.mp hafter
    obtain ⟨router', thread', ⟨more, hrun⟩, hwanted⟩ :=
      hlead events router before after thread hcons hbefore hthread hafter
    have hthreads : before ++ thread' :: after = before ++ [thread'] ++ after := List.append_cons ..
    rw [hthreads] at hrun
    have hled : ∀ other ∈ before ++ [thread'], wanted other :=
      List.forall_mem_append.mpr ⟨hbefore, List.forall_mem_singleton.mpr hwanted⟩
    obtain ⟨later, last, hlater, hall⟩ := ih router' _ (hcons.along hrun) hled hafter
    exact ⟨more ++ later, last, hrun.trans hlater, hall⟩

/-- **From wherever a run has led, some order of turns lets all threads do what they have to do.** -/
theorem Consistent.completes (h : Consistent capacity events machine) :
    ∃ more last, Run machine more last ∧ ∀ thread ∈ last.threads, thread.tasks = [] := by
  -- first all threads come to the start of a task, and then each of them does its tasks
  obtain ⟨more, middle, hmore, hready⟩ := lead_each machine.router [] (fun _ => True)
    (fun thread => thread.stage = .ready)
    (fun _ _ _ _ _ hcons _ _ _ => Reaches.exists_ready hcons ⟨[], .nil⟩) h nofun
    (fun _ _ => trivial)
  have hlead : ∀ (events : List Event) (router : MultiStore φ κ) (before after : List Thread)
      (thread : Thread), Consistent capacity events ⟨router, before ++ thread :: after⟩ →
      (∀ other ∈ before, other.stage = .ready ∧ other.tasks = []) → thread.stage = .ready →
      (∀ other ∈ after, other.stage = .ready) →
      ∃ router' thread', Reaches ⟨router, before ++ thread :: after⟩ before after router' thread' ∧
        thread'.stage = .ready ∧ thread'.tasks = [] := by
    rintro events router before after ⟨tasks, stage, outcomes⟩ hcons hbefore rfl hafter
    have hothers : ∀ other ∈ before ++ after, other.stage = .ready :=
      List.forall_mem_append.mpr ⟨fun other hother => (hbefore other hother).1, hafter⟩
    exact ⟨_, _, Reaches.program hcons hothers ⟨[], .nil⟩, rfl, rfl⟩
  obtain ⟨later, last, hlater, hdone⟩ := lead_each middle.router [] (fun thread => thread.stage = .ready)
    (fun thread => thread.stage = .ready ∧ thread.tasks = []) hlead (h.along hmore) nofun hready
  exact ⟨more ++ later, last, hmore.trans hlater, fun thread hthread => (hdone thread hthread).2⟩

end FramedStore.MultiStore.Machine
