import FramedStore.Proofs.Router.History

/-!
# What holds between turns

Whatever the order of the turns of threads on one router, what each of them relies on holds between two
turns (`Consistent`), since no two have to hand back the same child. So no order of turns comes to a
point where all threads wait (`Consistent.progress`).
-/

namespace FramedStore.MultiStore.Machine

open Effect

variable {φ κ : Type} [ChildFactory φ κ]

/-- What holds after the events so far. -/
structure Consistent (capacity : Nat) (events : List Event) (machine : Machine φ κ) : Prop where
  ordered : Ordered (owners events) machine.router
  capacity_eq : machine.router.capacity = capacity
  recorded : Recorded events machine.router
  sound : ∀ {number : Nat} {thread : Thread}, machine.threads[number]? = some thread →
    thread.Sound (owners events) machine.router
  owed_nodup : ∀ {number : Nat} {thread : Thread}, machine.threads[number]? = some thread →
    thread.stage.owed.Nodup
  /-- No child has to be handed back by two threads. -/
  owed_apart : ∀ {number number' : Nat} {thread thread' : Thread},
    machine.threads[number]? = some thread → machine.threads[number']? = some thread' →
    number ≠ number' →
    ∀ entry ∈ thread.stage.owed, entry ∉ thread'.stage.owed
  /-- Each child that is being handed back is so by a thread. -/
  releasing_owed : ∀ entry ∈ machine.router.releasing, ∃ (number : Nat) (thread : Thread),
    machine.threads[number]? = some thread ∧ thread.stage.Releases entry

variable {capacity : Nat} {events : List Event} {event : Event} {machine next : Machine φ κ}
  {factory : φ} {programs : List (List Task)}

omit [ChildFactory φ κ] in
/-- The thread with a number after another one has been put in place of a thread. -/
theorem thread_cases {threads : List Thread} {number other : Nat} {thread later : Thread}
    (h : (threads.set number thread)[other]? = some later) :
    other = number ∧ later = thread ∨ other ≠ number ∧ threads[other]? = some later := by
  by_cases heq : other = number
  · subst heq
    have hlt := (List.getElem?_eq_some_iff.mp h).1
    rw [List.length_set] at hlt
    rw [List.getElem?_set_self hlt] at h
    exact .inl ⟨rfl, (Option.some.inj h).symm⟩
  · rw [List.getElem?_set_ne (Ne.symm heq)] at h
    exact .inr ⟨heq, h⟩

/-- A step is a turn of one thread, and the others stay. -/
theorem Step.turned (h : Step machine event next) (hcons : Consistent capacity events machine) :
    ∃ number thread thread', machine.threads[number]? = some thread ∧
      Turned machine.router thread event next.router thread' ∧
      next.threads = machine.threads.set number thread' := by
  obtain ⟨number, hturn⟩ := h
  unfold turn at hturn
  cases hthread : machine.threads[number]? with
  | none =>
    rw [hthread] at hturn
    cases hturn
  | some thread =>
    simp only [hthread] at hturn
    split at hturn
    · next thread' router' heq =>
      cases hturn
      exact ⟨number, thread, thread', hthread,
        turn_cases hcons.ordered (hcons.sound hthread) heq, rfl⟩
    · cases hturn

namespace Consistent

omit [ChildFactory φ κ] in
theorem start (hpos : 0 < capacity) :
    Consistent capacity []
      (Machine.start ({ factory, capacity, capacity_pos := hpos } : MultiStore φ κ) programs) := by
  have hready : ∀ {number : Nat} {thread : Thread},
      (programs.map fun tasks => ({ tasks } : Thread))[number]? = some thread →
      thread.stage = .ready := by
    intro number thread hthread
    rw [List.getElem?_map] at hthread
    obtain ⟨tasks, -, rfl⟩ := Option.map_eq_some_iff.mp hthread
    rfl
  refine ⟨.start factory capacity hpos, rfl, ⟨?_, ?_⟩, ?_, ?_, ?_, ?_⟩
  · simp [owners]
  · simp [owners]
  · intro number thread hthread
    have hstage := hready hthread
    constructor <;> simp [hstage, Stage.owed, Stage.next?, Stage.given?]
  · intro number thread hthread
    rw [hready hthread]
    exact List.nodup_nil
  · intro number number' thread thread' hthread hthread' hne
    rw [hready hthread]
    exact fun entry hentry => absurd hentry List.not_mem_nil
  · exact fun entry hentry => absurd hentry List.not_mem_nil

/-- **A turn keeps what holds between turns.** -/
theorem step (h : Consistent capacity events machine) (hstep : Step machine event next) :
    Consistent capacity (events ++ [event]) next := by
  obtain ⟨number, thread, thread', hthread, hturned, hthreads⟩ := hstep.turned h
  have hsound := h.sound hthread
  have hcases : ∀ {other later}, next.threads[other]? = some later →
      other = number ∧ later = thread' ∨ other ≠ number ∧ machine.threads[other]? = some later :=
    fun hlater => thread_cases (hthreads ▸ hlater)
  -- the children that the thread takes from the open ones are not owed by another thread
  have hapart : ∀ {other later}, other ≠ number → machine.threads[other]? = some later →
      ∀ entry ∈ later.stage.owed, entry ∉ thread'.stage.owed := by
    intro other later hne hlater entry howed howed'
    rcases hturned.mem_owed howed' h.ordered with hold | ⟨hopened, -⟩
    · exact h.owed_apart hlater hthread hne entry howed hold
    · have hreleasing := ((h.sound hlater).owed entry.1 entry.2 howed).1
      exact h.ordered.not_mem_opened_of_releasing hreleasing entry.1 hopened
  refine ⟨?_, ?_, h.recorded.turned hturned h.ordered hsound, ?_, ?_, ?_, ?_⟩
  · rw [owners_snoc]
    exact hturned.ordered h.ordered hsound
  · rw [hturned.capacity_eq, h.capacity_eq]
  · intro other later hlater
    rw [owners_snoc]
    rcases hcases hlater with ⟨rfl, rfl⟩ | ⟨hne, hlater⟩
    · exact hturned.sound h.ordered hsound (h.owed_nodup hthread)
    · exact hturned.sound_other h.ordered hsound (h.sound hlater)
        (h.owed_apart hlater hthread hne)
  · intro other later hlater
    rcases hcases hlater with ⟨rfl, rfl⟩ | ⟨-, hlater⟩
    · exact hturned.nodup_owed h.ordered (h.owed_nodup hthread)
    · exact h.owed_nodup hlater
  · intro other other' later later' hlater hlater' hne
    rcases hcases hlater with ⟨rfl, rfl⟩ | ⟨hother, hlater⟩ <;>
      rcases hcases hlater' with ⟨rfl, rfl⟩ | ⟨hother', hlater'⟩
    · exact absurd rfl hne
    · exact fun entry hentry hentry' => hapart hother' hlater' entry hentry' hentry
    · exact hapart hother hlater
    · exact h.owed_apart hlater hlater' hne
  · intro entry hentry
    rcases hturned.mem_releasing_cases h.ordered hentry with hreleases | ⟨hold, hnot⟩
    · refine ⟨number, thread', ?_, hreleases⟩
      rw [hthreads]
      exact List.getElem?_set_self (List.getElem?_eq_some_iff.mp hthread).1
    · obtain ⟨other, later, hlater, hreleases⟩ := h.releasing_owed entry hold
      have hne : other ≠ number := by
        rintro rfl
        rw [hthread] at hlater
        obtain rfl := Option.some.inj hlater
        exact hnot hreleases
      refine ⟨other, later, ?_, hreleases⟩
      rw [hthreads, List.getElem?_set_ne (Ne.symm hne)]
      exact hlater

theorem along {more : List Event} {last : Machine φ κ} (h : Consistent capacity events machine)
    (hrun : Run machine more last) : Consistent capacity (events ++ more) last := by
  induction hrun with
  | nil => rwa [List.append_nil]
  | snoc _ hstep ih =>
    rw [← List.append_assoc]
    exact ih.step hstep

theorem run (hpos : 0 < capacity)
    (hrun : Run (Machine.start { factory, capacity, capacity_pos := hpos } programs) events machine) :
    Consistent capacity events machine :=
  along (.start hpos) hrun

end Consistent

theorem Run.trans {first last : Machine φ κ} {more : List Event} (h : Run first events machine)
    (hmore : Run machine more last) : Run first (events ++ more) last := by
  induction hmore with
  | nil => rwa [List.append_nil]
  | snoc _ hstep ih =>
    rw [← List.append_assoc]
    exact ih.snoc hstep

theorem Run.follow {first last : Machine φ κ} {numbers : List Nat} {more : List Event}
    (h : Run first events machine) (hfollow : machine.follow numbers = some (more, last)) :
    Run first (events ++ more) last := by
  induction numbers generalizing events machine more with
  | nil =>
    cases hfollow
    rwa [List.append_nil]
  | cons number numbers ih =>
    obtain ⟨⟨event, next⟩, hturn, hrest⟩ := Option.bind_eq_some_iff.mp hfollow
    obtain ⟨⟨later, final⟩, hlater, hdone⟩ := Option.bind_eq_some_iff.mp hrest
    cases hdone
    have hrun := ih (.snoc h ⟨number, hturn⟩) hlater
    rwa [List.append_assoc] at hrun

theorem Run.split {first : Machine φ κ} {before after : List Event} (h : Run first events machine)
    (hsplit : events = before ++ event :: after) :
    ∃ middle next, Run first before middle ∧ Step middle event next := by
  induction h generalizing after with
  | nil => exact absurd hsplit.symm (List.append_ne_nil_of_right_ne_nil before (List.cons_ne_nil _ _))
  | @snoc events last machine next hrun hstep ih =>
    rcases List.eq_nil_or_concat' after with rfl | ⟨after, final, rfl⟩
    · obtain ⟨rfl, hlast⟩ := List.append_inj' hsplit rfl
      obtain rfl := List.singleton_inj.mp hlast
      exact ⟨machine, next, hrun, hstep⟩
    · rw [← List.cons_append, ← List.append_assoc] at hsplit
      exact ih (List.append_inj' hsplit rfl).1

/-! ### No order of turns ends in waiting -/

theorem exists_turn {owners : List String} {router : MultiStore φ κ} {thread : Thread}
    (hordered : Ordered owners router) (hsound : thread.Sound owners router)
    (hbusy : thread.stage ≠ .ready ∨ thread.tasks ≠ []) :
    ∃ event thread' router', thread.turn router = .ok (some (event, thread')) router' := by
  obtain ⟨tasks, stage, outcomes⟩ := thread
  cases stage with
  | ready =>
    rcases tasks with _ | ⟨call | _, tasks⟩
    · simp at hbusy
    · have hattempt := attempt_apply router (find (φ := φ) call.super)
      rcases hfind : find call.super router with ⟨_ | _ | _, router'⟩ | ⟨e, router'⟩
      all_goals
        rw [hfind] at hattempt
        exact ⟨_, _, _, (bind_ok hattempt).trans rfl⟩
    · exact ⟨_, _, _, (bind_ok hordered.evictAll.1).trans rfl⟩
  | handing super id rest =>
    have hattempt := attempt_apply router (handBack (φ := φ) super id)
    rcases hback : handBack super id router with ⟨_, router'⟩ | ⟨e, router'⟩
    all_goals
      rw [hback] at hattempt
      exact ⟨_, _, _, (bind_ok hattempt).trans rfl⟩
  | forgetting super id rest =>
    exact ⟨_, _, _, (bind_ok (forget_apply router super id)).trans rfl⟩
  | holding id =>
    obtain ⟨call, tasks, rfl, -⟩ := hsound.next id rfl
    have hattempt := attempt_apply router (runOn (φ := φ) id call.onChild)
    rcases hrun : runOn (φ := φ) id call.onChild router with ⟨_ | answer, router'⟩ | ⟨e, router'⟩
    all_goals
      rw [hrun] at hattempt
      exact ⟨_, _, _, (bind_ok hattempt).trans rfl⟩

theorem step_of_turn {number : Nat} {thread thread' : Thread} {router' : MultiStore φ κ}
    (hthread : machine.threads[number]? = some thread)
    (hturn : thread.turn machine.router = .ok (some (event, thread')) router') :
    Step machine event ⟨router', machine.threads.set number thread'⟩ := by
  refine ⟨number, ?_⟩
  unfold turn
  simp only [hthread, hturn]

/-- **As long as a thread is not done, some thread can take a turn in which it does not wait.** -/
theorem Consistent.progress (h : Consistent capacity events machine) {thread : Thread}
    (hmem : thread ∈ machine.threads) (hbusy : thread.stage ≠ .ready ∨ thread.tasks ≠ []) :
    ∃ event next, Step machine event next ∧ ∀ super, event ≠ .waited super := by
  obtain ⟨number, hthread⟩ := List.mem_iff_getElem?.mp hmem
  obtain ⟨event, thread', router', hturn⟩ := exists_turn h.ordered (h.sound hthread) hbusy
  have hturned := turn_cases h.ordered (h.sound hthread) hturn
  by_cases hwaits : ∃ super, event = .waited super
  · obtain ⟨super, rfl⟩ := hwaits
    cases hturned with
    | waited _ hreleasing =>
      -- the thread that has to end the release is in the middle of it
      obtain ⟨id, hid⟩ := mem_supers.mp hreleasing
      obtain ⟨other, later, hlater, hreleases⟩ := h.releasing_owed (super, id) hid
      have hstage : later.stage ≠ .ready := by
        intro hready
        rw [hready] at hreleases
        exact Stage.not_releases_ready hreleases
      obtain ⟨event, later', router', hturn'⟩ :=
        exists_turn h.ordered (h.sound hlater) (.inl hstage)
      refine ⟨event, _, step_of_turn hlater hturn', ?_⟩
      rintro super rfl
      cases turn_cases h.ordered (h.sound hlater) hturn' with
      | waited hready => exact hstage hready
  · exact ⟨event, _, step_of_turn hthread hturn, fun super heq => hwaits ⟨super, heq⟩⟩

end FramedStore.MultiStore.Machine
