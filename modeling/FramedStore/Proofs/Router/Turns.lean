import FramedStore.Proofs.Router.Order
import FramedStore.Router.Threads

/-!
# What a turn does

A turn is one of nine things (`Turned`, `turn_cases`). In each of them the order of the children is kept
(`Turned.ordered`), and so is what the threads rely on (`Thread.Sound`): that the children which a
thread has to hand back have not been handed back, and that a thread uses a child of its super-tag.
-/

namespace FramedStore.MultiStore

open Effect

/-! ### What a thread relies on -/

/-- The children that a thread has to hand back. -/
def Stage.owed : Stage → List (String × ChildId)
  | handing super id rest => (super, id) :: rest.pending
  | forgetting _ _ rest => rest.pending
  | ready | holding _ => []

/-- The child that a thread is about to use for its call. -/
def Stage.next? : Stage → Option ChildId
  | handing _ _ rest | forgetting _ _ rest => rest.next
  | holding id => some id
  | ready => none

/-- The child that a thread has just handed back. -/
def Stage.given? : Stage → Option (String × ChildId)
  | forgetting super id _ => some (super, id)
  | ready | handing _ _ _ | holding _ => none

/-- A thread has to end the release of a child. -/
def Stage.Releases (stage : Stage) (entry : String × ChildId) : Prop :=
  entry ∈ stage.owed ∨ stage.given? = some entry

theorem Stage.not_releases_ready {entry : String × ChildId} : ¬ Stage.ready.Releases entry := by
  rintro (howed | hgiven)
  · exact List.not_mem_nil howed
  · cases hgiven

theorem Stage.not_releases_holding {entry : String × ChildId} {id : ChildId} :
    ¬ (Stage.holding id).Releases entry := by
  rintro (howed | hgiven)
  · exact List.not_mem_nil howed
  · cases hgiven

@[simp] theorem Rest.pending_note (rest : Rest) (outcome : Except Error Unit) :
    (rest.note outcome).pending = rest.pending := by
  cases outcome <;> rfl

@[simp] theorem Rest.next_note (rest : Rest) (outcome : Except Error Unit) :
    (rest.note outcome).next = rest.next := by
  cases outcome <;> rfl

namespace Thread

variable {φ κ : Type}

/-- What a thread relies on: the children that it owes are still out, and the one that it is about to
use is one of its super-tag. -/
structure Sound (owners : List String) (router : MultiStore φ κ) (thread : Thread) : Prop where
  owed : ∀ super id, (super, id) ∈ thread.stage.owed →
    (super, id) ∈ router.releasing ∧ (router.held? id).isSome
  next : ∀ id, thread.stage.next? = some id → ∃ call tasks, thread.tasks = .call call :: tasks ∧
    owners[id]? = some call.super
  given : ∀ super id, thread.stage.given? = some (super, id) →
    owners[id]? = some super ∧ router.held? id = none

theorem Sound.owner {owners : List String} {router : MultiStore φ κ} {thread : Thread}
    {id : ChildId} {call : RouterCall} {tasks : List Task} (h : thread.Sound owners router)
    (hnext : thread.stage.next? = some id) (htasks : thread.tasks = .call call :: tasks) :
    owners[id]? = some call.super := by
  obtain ⟨call', tasks', htasks', howner⟩ := h.next id hnext
  obtain ⟨rfl, rfl⟩ : call' = call ∧ tasks' = tasks := by
    rw [htasks] at htasks'
    cases htasks'
    exact ⟨rfl, rfl⟩
  exact howner

variable (thread : Thread) (rest : Rest)

@[simp] theorem owed_goOn : (thread.goOn rest).stage.owed = rest.pending := by
  obtain ⟨_ | ⟨⟨super, id⟩, pending⟩, _ | next, failure⟩ := rest <;> rfl

@[simp] theorem next?_goOn : (thread.goOn rest).stage.next? = rest.next := by
  obtain ⟨_ | ⟨⟨super, id⟩, pending⟩, _ | next, failure⟩ := rest <;> rfl

@[simp] theorem given?_goOn : (thread.goOn rest).stage.given? = none := by
  obtain ⟨_ | ⟨⟨super, id⟩, pending⟩, _ | next, failure⟩ := rest <;> rfl

/-- A thread that has a child to use afterwards is still in its task. -/
theorem goOn_of_next {id : ChildId} (h : rest.next = some id) :
    ∃ stage, thread.goOn rest = { thread with stage } := by
  obtain ⟨_ | ⟨⟨super, id⟩, pending⟩, _ | next, failure⟩ := rest
  · cases h
  · exact ⟨_, rfl⟩
  · exact ⟨_, rfl⟩
  · exact ⟨_, rfl⟩

theorem tasks_goOn {id : ChildId} (h : rest.next = some id) :
    (thread.goOn rest).tasks = thread.tasks := by
  obtain ⟨stage, hstage⟩ := goOn_of_next thread rest h
  rw [hstage]

end Thread

/-! ### What a turn comes to -/

variable {φ κ : Type} [ChildFactory φ κ]

/-- What a turn of a thread does to it and to the router. -/
inductive Turned (router : MultiStore φ κ) (thread : Thread) :
    Event → MultiStore φ κ → Thread → Prop
  | found {call : RouterCall} {tasks : List Task} {id : ChildId} :
    thread.stage = .ready → thread.tasks = .call call :: tasks →
    (call.super, id) ∈ router.opened →
    Turned router thread (.found call.super id)
      { router with opened := toFront (call.super, id) router.opened }
      { thread with stage := .holding id }
  | waited {super : String} :
    thread.stage = .ready → super ∈ supers router.releasing →
    Turned router thread (.waited super) router thread
  | refused {super : String} {e : Error} {factory : φ} :
    thread.stage = .ready →
    super ∉ supers router.listed →
    (ChildFactory.openChild super : Effect φ κ) router.factory = .error e factory →
    Turned router thread (.refused super e) { router with factory } (thread.finish (.error e))
  | opened {call : RouterCall} {tasks : List Task} {storage : κ} {factory : φ} :
    thread.stage = .ready → thread.tasks = .call call :: tasks →
    call.super ∉ supers router.listed →
    ChildFactory.openChild call.super router.factory = .ok storage factory →
    Turned router thread (.opened call.super router.children.length)
      ({ router with factory }.enter call.super storage)
      (thread.goOn ⟨router.victim?.toList, some router.children.length, none⟩)
  | evicted {tasks : List Task} :
    thread.stage = .ready → thread.tasks = .closeAll :: tasks →
    Turned router thread (.evicted router.opened.reverse)
      { router with opened := [], releasing := router.listed }
      (thread.goOn ⟨router.opened.reverse, none, none⟩)
  | handedBack {super : String} {id : ChildId} {rest : Rest} {storage : κ} {lent : Lent φ κ}
      {outcome : Except Error Unit} :
    thread.stage = .handing super id rest → router.held? id = some storage →
    (ChildFactory.release super : Effect (Lent φ κ) Unit).attempt ⟨router.factory, storage⟩ =
      .ok outcome lent →
    Turned router thread (.handedBack super id outcome)
      (router.afterLend id { storage := lent.child, released := true } lent.factory)
      { thread with stage := .forgetting super id (rest.note outcome) }
  | forgot {super : String} {id : ChildId} {rest : Rest} :
    thread.stage = .forgetting super id rest →
    Turned router thread (.forgot super id)
      { router with releasing := router.releasing.filter (· ≠ (super, id)) } (thread.goOn rest)
  | missed {call : RouterCall} {id : ChildId} :
    thread.stage = .holding id →
    Turned router thread (.missed call id) router { thread with stage := .ready }
  | ran {call : RouterCall} {tasks : List Task} {id : ChildId} {storage : κ} {lent : Lent φ κ}
      {outcome : Except Error TagStore.Answer} :
    thread.stage = .holding id → thread.tasks = .call call :: tasks →
    router.held? id = some storage →
    call.onChild.attempt ⟨router.factory, storage⟩ = .ok outcome lent →
    Turned router thread (.ran call id outcome)
      (router.afterLend id { storage := lent.child } lent.factory) (thread.finish outcome)

/-- **A turn is one of nine things.** -/
theorem turn_cases {owners : List String} {router router' : MultiStore φ κ} {thread thread' : Thread}
    {event : Event} (hordered : Ordered owners router) (hsound : thread.Sound owners router)
    (h : thread.turn router = .ok (some (event, thread')) router') :
    Turned router thread event router' thread' := by
  obtain ⟨tasks, stage, outcomes⟩ := thread
  cases stage with
  | ready =>
    cases tasks with
    | nil => cases h
    | cons task tasks =>
      cases task with
      | call call =>
        rcases find_cases router call.super with ⟨id, hid, hfind⟩ | ⟨-, hwait, hfind⟩ |
          ⟨hnot, ⟨e, factory, hopen, hfind⟩ | ⟨storage, factory, hopen, hfind⟩⟩
        all_goals
          have hattempt := attempt_apply router (find (φ := φ) call.super)
          rw [hfind] at hattempt
          replace h := (bind_ok hattempt).symm.trans h
          cases h
        · exact .found rfl rfl hid
        · exact .waited rfl hwait
        · exact .refused rfl hnot hopen
        · exact .opened rfl rfl hnot hopen
      | closeAll =>
        replace h := (bind_ok hordered.evictAll.1).symm.trans h
        cases h
        exact .evicted rfl rfl
  | handing super id rest =>
    obtain ⟨hid, hheld⟩ := hsound.owed super id List.mem_cons_self
    obtain ⟨storage, hstorage⟩ := Option.isSome_iff_exists.mp hheld
    have hattempt := attempt_apply router (handBack (φ := φ) super id)
    rw [handBack_some router hstorage] at hattempt
    rcases hrelease : (ChildFactory.release super : Effect (Lent φ κ) Unit)
      ⟨router.factory, storage⟩ with ⟨_, lent⟩ | ⟨e, lent⟩
    all_goals
      have houtcome := attempt_apply ⟨router.factory, storage⟩
        (ChildFactory.release super : Effect (Lent φ κ) Unit)
      rw [hrelease] at hattempt houtcome
      replace h := (bind_ok hattempt).symm.trans h
      cases h
      exact .handedBack rfl hstorage houtcome
  | forgetting super id rest =>
    replace h := (bind_ok (forget_apply router super id)).symm.trans h
    cases h
    exact .forgot rfl
  | holding id =>
    cases tasks with
    | nil => cases h
    | cons task tasks =>
      cases task with
      | closeAll => cases h
      | call call =>
        have hattempt := attempt_apply router (runOn (φ := φ) id call.onChild)
        rcases hheld : router.held? id with _ | storage
        · rw [runOn_none router _ hheld] at hattempt
          replace h := (bind_ok hattempt).symm.trans h
          cases h
          exact .missed rfl
        · rw [runOn_some router _ hheld] at hattempt
          rcases hrun : (call.onChild : Effect (Lent φ κ) TagStore.Answer)
            ⟨router.factory, storage⟩ with ⟨answer, lent⟩ | ⟨e, lent⟩
          all_goals
            have houtcome := attempt_apply ⟨router.factory, storage⟩
              (call.onChild : Effect (Lent φ κ) TagStore.Answer)
            rw [hrun] at hattempt houtcome
            replace h := (bind_ok hattempt).symm.trans h
            cases h
            exact .ran rfl rfl hheld houtcome

/-! ### What a turn keeps -/

/-- The super-tag of a child that was opened. -/
def Event.owner? : Event → Option String
  | .opened super _ => some super
  | _ => none

namespace Turned

variable {owners : List String} {router router' : MultiStore φ κ} {thread thread' : Thread}
  {event : Event} {super : String} {id : ChildId}

theorem ordered (h : Turned router thread event router' thread') (hordered : Ordered owners router)
    (hsound : thread.Sound owners router) : Ordered (owners ++ event.owner?.toList) router' := by
  cases h with
  | found _ _ hid => simpa [Event.owner?] using hordered.hit hid
  | waited => simpa [Event.owner?] using hordered
  | refused => simpa [Event.owner?] using hordered.withFactory _
  | @opened call tasks storage factory _ _ hnot _ =>
    exact (hordered.withFactory factory).enter hnot storage
  | evicted => simpa [Event.owner?] using hordered.evictAll.2
  | @handedBack super id rest _ _ _ hstage =>
    have howed : (super, id) ∈ thread.stage.owed := by
      rw [hstage]
      exact List.mem_cons_self
    have hnot := hordered.not_mem_opened_of_releasing (hsound.owed super id howed).1
    simpa [Event.owner?] using hordered.handBack hnot _ _
  | @forgot super id rest hstage =>
    have hgone := (hsound.given super id (congrArg Stage.given? hstage)).2
    simpa [Event.owner?] using hordered.forget hgone
  | missed => simpa [Event.owner?] using hordered
  | ran _ _ hheld _ =>
    have hsome := Option.isSome_of_eq_some hheld
    simpa [Event.owner?] using hordered.runOn hsome _ _

theorem capacity_eq (h : Turned router thread event router' thread') :
    router'.capacity = router.capacity := by
  cases h with
  | opened => exact enter_capacity _ _ _
  | found | waited | refused | evicted | handedBack | forgot | missed | ran => rfl

/-- A turn opens a child or hands one back, or leaves it to the factory or the router. -/
theorem held_iff (h : Turned router thread event router' thread') (id : ChildId) :
    (router'.held? id).isSome ↔
      ((∃ super, event = .opened super id) ∨ (router.held? id).isSome) ∧
        ∀ super outcome, event ≠ .handedBack super id outcome := by
  cases h with
  | found => simp [held?]
  | waited => simp
  | refused => simp [held?]
  | @opened call tasks storage factory =>
    by_cases hid : id = router.children.length
    · subst hid
      have hself := held?_enter_self { router with factory } call.super storage
      simp only [hself]
      simp
    · have hne := held?_enter_ne { router with factory } call.super storage hid
      rw [hne]
      simp [Ne.symm hid, held?]
  | evicted => simp [held?]
  | @handedBack super given rest storage lent outcome _ hheld =>
    have hlt := lt_length_of_held? (Option.isSome_of_eq_some hheld)
    by_cases hid : id = given
    · subst hid
      rw [held?_afterLend_self hlt]
      simp
    · rw [held?_afterLend_ne hid]
      simp [Ne.symm hid]
  | forgot => simp [held?]
  | missed => simp
  | @ran call tasks used storage lent outcome _ _ hheld =>
    have hsome := Option.isSome_of_eq_some hheld
    by_cases hid : id = used
    · subst hid
      rw [held?_afterLend_self (lt_length_of_held? hsome)]
      simp [hsome]
    · rw [held?_afterLend_ne hid]
      simp

theorem mem_owed_of_handedBack {outcome : Except Error Unit}
    (h : Turned router thread (.handedBack super id outcome) router' thread') :
    (super, id) ∈ thread.stage.owed := by
  cases h with
  | handedBack hstage =>
    rw [hstage]
    exact List.mem_cons_self

theorem opened_fresh (h : Turned router thread (.opened super id) router' thread') :
    id = router.children.length := by
  cases h
  rfl

/-- A child that is not the one handed back stays among those that are being handed back. -/
theorem mem_releasing (h : Turned router thread event router' thread')
    (hordered : Ordered owners router) (hsound : thread.Sound owners router)
    (hid : (super, id) ∈ router.releasing) (hheld : (router.held? id).isSome)
    (hnot : ∀ outcome, event ≠ .handedBack super id outcome) :
    (super, id) ∈ router'.releasing ∧ (router'.held? id).isSome := by
  constructor
  · cases h with
    | found | waited | refused | missed | handedBack | ran => exact hid
    | @opened call tasks storage factory =>
      obtain ⟨kept, -, -, -, hreleasing⟩ :=
        (hordered.withFactory factory).enter_lists call.super storage
      rw [hreleasing]
      exact List.mem_append_right _ hid
    | evicted => exact List.mem_append_right _ hid
    | @forgot other given rest hstage =>
      refine List.mem_filter.mpr ⟨hid, ?_⟩
      rw [decide_eq_true_iff]
      intro heq
      obtain ⟨rfl, rfl⟩ := Prod.mk.inj heq
      rw [(hsound.given super id (congrArg Stage.given? hstage)).2] at hheld
      cases hheld
  · rw [h.held_iff]
    refine ⟨.inr hheld, ?_⟩
    rintro other outcome rfl
    have howed := hsound.owed other id h.mem_owed_of_handedBack
    have howner := hordered.releasing_owned super id hid
    rw [hordered.releasing_owned other id howed.1] at howner
    obtain rfl := Option.some.inj howner
    exact hnot outcome rfl

/-- A child that has been handed back stays so. -/
theorem held?_eq_none (h : Turned router thread event router' thread')
    (hordered : Ordered owners router) (howner : owners[id]? = some super)
    (hheld : router.held? id = none) :
    (owners ++ event.owner?.toList)[id]? = some super ∧ router'.held? id = none := by
  have hlt := (List.getElem?_eq_some_iff.mp howner).1
  refine ⟨(List.getElem?_append_left hlt).trans howner, ?_⟩
  rw [← Option.not_isSome_iff_eq_none, h.held_iff, hheld]
  rintro ⟨⟨other, rfl⟩ | hsome, -⟩
  · have hfresh := h.opened_fresh
    rw [hordered.owners_length, hfresh] at hlt
    exact Nat.lt_irrefl _ hlt
  · cases hsome

/-- What other threads rely on is kept. -/
theorem sound_other (h : Turned router thread event router' thread')
    (hordered : Ordered owners router) (hsound : thread.Sound owners router) {other : Thread}
    (hother : other.Sound owners router) (hapart : ∀ entry ∈ other.stage.owed, entry ∉ thread.stage.owed) :
    other.Sound (owners ++ event.owner?.toList) router' where
  owed := by
    intro super id hid
    obtain ⟨hmem, hheld⟩ := hother.owed super id hid
    refine h.mem_releasing hordered hsound hmem hheld ?_
    rintro outcome rfl
    exact hapart _ hid h.mem_owed_of_handedBack
  next := by
    intro id hnext
    obtain ⟨call, tasks, htasks, howner⟩ := hother.next id hnext
    refine ⟨call, tasks, htasks, ?_⟩
    exact (List.getElem?_append_left (List.getElem?_eq_some_iff.mp howner).1).trans howner
  given := by
    intro super id hgiven
    obtain ⟨howner, hheld⟩ := hother.given super id hgiven
    exact h.held?_eq_none hordered howner hheld

/-- What a thread owes after its turn, it owed before, or it has taken from the open children. -/
theorem mem_owed (h : Turned router thread event router' thread') {entry : String × ChildId}
    (hentry : entry ∈ thread'.stage.owed) (hordered : Ordered owners router) :
    entry ∈ thread.stage.owed ∨ entry ∈ router.opened ∧ entry ∈ router'.releasing ∧
      ∀ super id outcome, event ≠ .handedBack super id outcome := by
  cases h with
  | found | missed | refused | ran => cases hentry
  | waited => exact .inl hentry
  | @opened call tasks storage factory =>
    rw [Thread.owed_goOn] at hentry
    obtain ⟨kept, hsplit, -, -, hreleasing⟩ :=
      (hordered.withFactory factory).enter_lists call.super storage
    refine .inr ⟨?_, ?_, nofun⟩
    · rw [hsplit]
      exact List.mem_append_right _ hentry
    · rw [hreleasing]
      exact List.mem_append_left _ hentry
  | evicted =>
    rw [Thread.owed_goOn, List.mem_reverse] at hentry
    exact .inr ⟨hentry, List.mem_append_left _ hentry, nofun⟩
  | handedBack hstage =>
    left
    rw [Stage.owed, Rest.pending_note] at hentry
    rw [hstage]
    exact List.mem_cons_of_mem _ hentry
  | forgot hstage =>
    left
    rw [Thread.owed_goOn] at hentry
    rw [hstage]
    exact hentry

/-- Each child that is being handed back is so by the thread, or was so before by another one. -/
theorem mem_releasing_cases (h : Turned router thread event router' thread')
    (hordered : Ordered owners router) {entry : String × ChildId}
    (hentry : entry ∈ router'.releasing) :
    thread'.stage.Releases entry ∨ entry ∈ router.releasing ∧ ¬ thread.stage.Releases entry := by
  cases h with
  | waited =>
    by_cases hreleases : thread.stage.Releases entry
    · exact .inl hreleases
    · exact .inr ⟨hentry, hreleases⟩
  | found hstage | refused hstage =>
    exact .inr ⟨hentry, hstage ▸ Stage.not_releases_ready⟩
  | missed hstage | ran hstage =>
    exact .inr ⟨hentry, hstage ▸ Stage.not_releases_holding⟩
  | @opened call tasks storage factory hstage =>
    obtain ⟨kept, -, -, -, hreleasing⟩ :=
      (hordered.withFactory factory).enter_lists call.super storage
    rw [hreleasing, List.mem_append] at hentry
    rcases hentry with hvictim | hentry
    · exact .inl (.inl ((Thread.owed_goOn _ _).symm ▸ hvictim))
    · exact .inr ⟨hentry, hstage ▸ Stage.not_releases_ready⟩
  | evicted hstage =>
    rcases List.mem_append.mp hentry with hopened | hentry
    · exact .inl (.inl ((Thread.owed_goOn _ _).symm ▸ List.mem_reverse.mpr hopened))
    · exact .inr ⟨hentry, hstage ▸ Stage.not_releases_ready⟩
  | @handedBack super id rest _ _ outcome hstage =>
    by_cases hreleases : thread.stage.Releases entry
    · left
      rw [hstage] at hreleases
      rcases hreleases with howed | hgiven
      · rcases List.mem_cons.mp howed with rfl | howed
        · exact .inr rfl
        · refine .inl ?_
          rw [Stage.owed, Rest.pending_note]
          exact howed
      · cases hgiven
    · exact .inr ⟨hentry, hreleases⟩
  | @forgot super id rest hstage =>
    obtain ⟨hmem, hne⟩ := List.mem_filter.mp hentry
    rw [decide_eq_true_iff] at hne
    by_cases hreleases : thread.stage.Releases entry
    · left
      rw [hstage] at hreleases
      rcases hreleases with howed | hgiven
      · exact .inl ((Thread.owed_goOn _ _).symm ▸ howed)
      · exact absurd (Option.some.inj hgiven).symm hne
    · exact .inr ⟨hmem, hreleases⟩

theorem nodup_owed (h : Turned router thread event router' thread')
    (hordered : Ordered owners router) (hnodup : thread.stage.owed.Nodup) : thread'.stage.owed.Nodup := by
  cases h with
  | found | missed | refused | ran => exact List.nodup_nil
  | waited => exact hnodup
  | opened =>
    rw [Thread.owed_goOn]
    cases router.victim? with
    | none => exact List.nodup_nil
    | some victim => exact List.nodup_singleton victim
  | evicted =>
    rw [Thread.owed_goOn, List.nodup_reverse]
    exact hordered.opened_nodup.of_map
  | handedBack hstage =>
    rw [hstage] at hnodup
    rw [Stage.owed, Rest.pending_note]
    exact (List.nodup_cons.mp hnodup).2
  | forgot hstage =>
    rw [hstage] at hnodup
    rw [Thread.owed_goOn]
    exact hnodup

/-- **What a thread relies on after its turn.** -/
theorem sound (h : Turned router thread event router' thread') (hordered : Ordered owners router)
    (hsound : thread.Sound owners router) (hnodup : thread.stage.owed.Nodup) :
    thread'.Sound (owners ++ event.owner?.toList) router' := by
  have hlonger : ∀ {id : ChildId} {super : String}, owners[id]? = some super →
      (owners ++ event.owner?.toList)[id]? = some super := by
    intro id super howner
    exact (List.getElem?_append_left (List.getElem?_eq_some_iff.mp howner).1).trans howner
  constructor
  · intro super id hid
    rcases h.mem_owed hid hordered with howed | ⟨hopened, hmem, hnot⟩
    · obtain ⟨hmem, hheld⟩ := hsound.owed super id howed
      refine h.mem_releasing hordered hsound hmem hheld ?_
      rintro outcome rfl
      cases h with
      | handedBack hstage =>
        rw [Stage.owed, Rest.pending_note] at hid
        rw [hstage] at hnodup
        exact (List.nodup_cons.mp hnodup).1 hid
    · refine ⟨hmem, ?_⟩
      rw [h.held_iff]
      exact ⟨.inr (hordered.opened_held super id hopened).2, fun other => hnot other id⟩
  · intro id hnext
    -- the call is the one before the turn, and its child has the owner that it had
    have hkept : thread.stage.next? = some id → thread'.tasks = thread.tasks →
        ∃ call tasks, thread'.tasks = .call call :: tasks ∧
          (owners ++ event.owner?.toList)[id]? = some call.super := by
      intro hnext' htasks
      obtain ⟨call, tasks, hcall, howner⟩ := hsound.next id hnext'
      exact ⟨call, tasks, htasks.trans hcall, hlonger howner⟩
    cases h with
    | @found call tasks used _ htasks hused =>
      obtain rfl : used = id := Option.some.inj hnext
      exact ⟨call, tasks, htasks, hlonger (hordered.opened_held _ _ hused).1⟩
    | waited => exact hkept hnext rfl
    | refused | missed | ran => cases hnext
    | @opened call tasks storage factory _ htasks =>
      rw [Thread.next?_goOn] at hnext
      obtain rfl : router.children.length = id := Option.some.inj hnext
      refine ⟨call, tasks, (Thread.tasks_goOn _ _ rfl).trans htasks, ?_⟩
      rw [← hordered.owners_length]
      exact List.getElem?_concat_length
    | evicted =>
      rw [Thread.next?_goOn] at hnext
      cases hnext
    | handedBack hstage =>
      rw [Stage.next?, Rest.next_note] at hnext
      exact hkept ((congrArg Stage.next? hstage).trans hnext) rfl
    | forgot hstage =>
      rw [Thread.next?_goOn] at hnext
      exact hkept ((congrArg Stage.next? hstage).trans hnext) (Thread.tasks_goOn _ _ hnext)
  · intro super id hgiven
    cases h with
    | found | refused | missed | ran => cases hgiven
    | waited => simpa [Event.owner?] using hsound.given super id hgiven
    | opened | evicted | forgot =>
      rw [Thread.given?_goOn] at hgiven
      cases hgiven
    | @handedBack other given rest storage lent outcome hstage hheld =>
      obtain ⟨rfl, rfl⟩ := Prod.mk.inj (Option.some.inj hgiven)
      have howed : (other, given) ∈ thread.stage.owed := by
        rw [hstage]
        exact List.mem_cons_self
      refine ⟨hlonger (hordered.releasing_owned _ _ (hsound.owed _ _ howed).1), ?_⟩
      exact held?_afterLend_self (lt_length_of_held? (Option.isSome_of_eq_some hheld))

end Turned

end FramedStore.MultiStore
