import FramedStore.Proofs.Router.Order
import FramedStore.Router.Call

/-!
# A router between two calls

Between two calls of a single user no child is being handed back (`Settled`). So a call gets a child of
its super-tag in the first round (`Gets`) and is one effect on that child, unless the factory does not
open it (`Accesses`); and to close all children is to release them one after the other (`Releases`).
This holds for every factory, whatever it refuses.
-/

namespace FramedStore

open Effect

/-- A repetition whose answers are mapped. -/
theorem Effect.iterate_map {σ β γ δ : Type} (g : γ → δ) {step : β → Effect σ (Round β γ)}
    {step' : β → Effect σ (Round β δ)}
    (hagain : ∀ b s b' t, step b s = .ok (.again b') t → step' b s = .ok (.again b') t)
    (hdone : ∀ b s c t, step b s = .ok (.done c) t → step' b s = .ok (.done (g c)) t)
    (herror : ∀ b s e t, step b s = .error e t → step' b s = .error e t) (rounds : Nat) (b : β)
    (s : σ) :
    iterate step' rounds b s = (do return g (← iterate step rounds b) : Effect σ δ) s := by
  induction rounds generalizing b s with
  | zero => rfl
  | succ rounds ih =>
    rw [bind_apply]
    rcases hround : step b s with ⟨b' | c, t⟩ | ⟨e, t⟩
    · rw [iterate_again hround, iterate_again (hagain b s b' t hround), ih, bind_apply]
    · rw [iterate_done hround, iterate_done (hdone b s c t hround)]
      rfl
    · rw [iterate_error hround, iterate_error (herror b s e t hround)]

namespace MultiStore

open TagStore (Answer)

/-! ### A call is one access -/

section Access

variable {φ κ α β : Type}

theorem runOn_map (g : α → β) (id : ChildId) (effect : Effect (Lent φ κ) α)
    (router : MultiStore φ κ) :
    runOn id (do return g (← effect)) router =
      (do return (← runOn id effect).map g : Effect (MultiStore φ κ) (Option β)) router := by
  rw [bind_apply]
  rcases hheld : router.held? id with _ | storage
  · rw [runOn_none router _ hheld, runOn_none router _ hheld]
    rfl
  · rw [runOn_some router _ hheld, runOn_some router _ hheld, bind_apply]
    cases effect ⟨router.factory, storage⟩ <;> rfl

/-- What stands behind the search for the child in a round. -/
def useRound (id : ChildId) (effect : Effect (Lent φ κ) α) :
    Effect (MultiStore φ κ) (Round Unit α) := do
  match ← runOn id effect with
  | none => return .again ()
  | some answer => return .done answer

theorem useRound_map (g : α → β) (id : ChildId) (effect : Effect (Lent φ κ) α)
    (router : MultiStore φ κ) :
    useRound id (do return g (← effect)) router = match useRound id effect router with
      | .ok (.again ()) router => .ok (.again ()) router
      | .ok (.done a) router => .ok (.done (g a)) router
      | .error e router => .error e router := by
  unfold useRound
  rw [bind_apply, bind_apply, runOn_map, bind_apply]
  rcases runOn id effect router with ⟨_ | a, router'⟩ | ⟨e, router'⟩ <;> rfl

variable [ChildFactory φ κ]

theorem accessRound_map (g : α → β) (super : String) (effect : Effect (Lent φ κ) α)
    (router : MultiStore φ κ) :
    accessRound super (do return g (← effect)) () router =
      match accessRound super effect () router with
      | .ok (.again ()) router => .ok (.again ()) router
      | .ok (.done a) router => .ok (.done (g a)) router
      | .error e router => .error e router := by
  unfold accessRound
  rw [bind_apply, bind_apply]
  rcases find super router with ⟨found, router'⟩ | ⟨e, router'⟩
  · rcases found with id | _ | ⟨id, _ | ⟨evicted, old⟩⟩
    · exact useRound_map g id effect router'
    · rfl
    · exact useRound_map g id effect router'
    · dsimp only
      rw [bind_apply, bind_apply]
      rcases (release evicted old).attempt router' with ⟨outcome, router''⟩ | ⟨e, router''⟩
      · exact useRound_map g id effect router''
      · rfl
  · rfl

theorem access_map (g : α → β) (super : String) (effect : Effect (Lent φ κ) α)
    (router : MultiStore φ κ) :
    access super (do return g (← effect)) router =
      (do return g (← access super effect) : Effect (MultiStore φ κ) β) router := by
  refine iterate_map g ?_ ?_ ?_ _ () router
  all_goals
    intro _ s _ t hround
    rw [accessRound_map, hround]

/-- **A call is one access to the child of its super-tag.** -/
theorem perform_eq_access (call : RouterCall) (router : MultiStore φ κ) :
    perform call router = access call.super call.onChild router := by
  cases call with
  | put super sub value => exact (access_map Answer.flag super (TagStore.put .byte sub value) router).symm
  | push super sub value =>
    exact (access_map (fun _ => Answer.done) super (TagStore.push .byte sub value) router).symm
  | get super sub => exact (access_map Answer.value super (TagStore.get? .byte sub) router).symm
  | erase super sub => exact (access_map Answer.value super (TagStore.erase .byte sub) router).symm
  | contains super sub => exact (access_map Answer.flag super (TagStore.contains .byte sub) router).symm
  | subTags super => exact (access_map Answer.tags super (TagStore.tags .byte) router).symm
  | clearSuper super =>
    have heffect : (do return Answer.count (← clearChild) : Effect (Lent φ κ) Answer) =
        RouterCall.onChild (.clearSuper super) := by
      simp only [clearChild, RouterCall.onChild, bind_assoc, pure_bind]
    refine (access_map Answer.count super clearChild router).symm.trans ?_
    rw [heffect]
    rfl

end Access

/-! ### Releases -/

section Releases

variable {φ κ : Type} [ChildFactory φ κ] {owners : List String} {router router' : MultiStore φ κ}
  {super : String} {id : ChildId} {storage : κ} {outcome : Except Error Unit} {lent : Lent φ κ}
  {pending : List (String × ChildId)} {failure : Option Error}

/-- A router after the release of a child that was lent to the factory. -/
def afterRelease (router : MultiStore φ κ) (super : String) (id : ChildId) (lent : Lent φ κ) :
    MultiStore φ κ :=
  { router.afterLend id { storage := lent.child, released := true } lent.factory with
    releasing := router.releasing.filter (· ≠ (super, id)) }

theorem release_held (hheld : router.held? id = some storage) :
    (ChildFactory.release super).attempt ⟨router.factory, storage⟩ = .ok outcome lent →
    (release super id).attempt router = .ok outcome (router.afterRelease super id lent) := by
  intro hrelease
  have hattempt := attempt_apply router (handBack (φ := φ) super id)
  rw [handBack_some router hheld] at hattempt
  rw [attempt_apply] at hrelease
  rcases hresult : (ChildFactory.release super : Effect (Lent φ κ) Unit) ⟨router.factory, storage⟩
    with ⟨_, lent'⟩ | ⟨e, lent'⟩
  all_goals
    rw [hresult] at hattempt hrelease
    cases hrelease
    exact release_of_handBack hattempt

omit [ChildFactory φ κ] in
theorem held?_afterRelease_ne {other : ChildId} (h : other ≠ id) :
    (router.afterRelease super id lent).held? other = router.held? other := by
  change (router.afterLend id _ lent.factory).held? other = _
  exact held?_afterLend_ne h

omit [ChildFactory φ κ] in
theorem Ordered.afterRelease (h : Ordered owners router) (hid : (super, id) ∈ router.releasing)
    (hheld : (router.held? id).isSome) (lent : Lent φ κ) :
    Ordered owners (router.afterRelease super id lent) := by
  have hgone : (router.afterLend id { storage := lent.child, released := true }
      lent.factory).held? id = none := held?_afterLend_self (lt_length_of_held? hheld)
  exact (h.handBack (h.not_mem_opened_of_releasing hid) lent.child lent.factory).forget hgone

/-- The error of a release, or else the first one of those that follow it. -/
def firstError : Except Error Unit → Option Error → Option Error
  | .ok (), later => later
  | .error e, _ => some e

/-- Children are released one after the other, whatever the factory makes of it, and the first error
is kept. -/
inductive Releases : List (String × ChildId) → MultiStore φ κ → Option Error → MultiStore φ κ → Prop
  | nil (router : MultiStore φ κ) : Releases [] router none router
  | cons {super : String} {id : ChildId} {storage : κ} {outcome : Except Error Unit}
    {lent : Lent φ κ} {pending : List (String × ChildId)} {router last : MultiStore φ κ}
    {later : Option Error} (hid : (super, id) ∈ router.releasing)
    (hheld : router.held? id = some storage)
    (hrelease : (ChildFactory.release super).attempt ⟨router.factory, storage⟩ = .ok outcome lent)
    (hrest : Releases pending (router.afterRelease super id lent) later last) :
    Releases ((super, id) :: pending) router (firstError outcome later) last

namespace Releases

theorem ordered (h : Releases pending router failure router') (hordered : Ordered owners router) :
    Ordered owners router' := by
  induction h with
  | nil => exact hordered
  | cons hid hheld _ _ ih =>
    exact ih (hordered.afterRelease hid (Option.isSome_of_eq_some hheld) _)

/-- No other list is changed than that of the children that are being handed back. -/
theorem lists_eq (h : Releases pending router failure router') :
    router'.opened = router.opened ∧ router'.capacity = router.capacity ∧
      router'.releasing = router.releasing.filter (· ∉ pending) := by
  induction h with
  | nil => simp
  | @cons super id _ _ _ pending router _ _ _ _ _ _ ih =>
    obtain ⟨hopened, hcapacity, hreleasing⟩ := ih
    refine ⟨hopened, hcapacity, hreleasing.trans ?_⟩
    rw [afterRelease, List.filter_filter]
    refine List.filter_congr fun entry _ => ?_
    simp [not_or, Bool.and_comm]

end Releases

/-- All children of a list can be released, if they are being handed back. -/
theorem exists_releases (h : Ordered owners router) (hnodup : (supers pending).Nodup)
    (hpending : ∀ super id, (super, id) ∈ pending →
      (super, id) ∈ router.releasing ∧ (router.held? id).isSome) :
    ∃ failure router', releaseEach pending router = .ok failure router' ∧
      Releases pending router failure router' := by
  induction pending generalizing router with
  | nil => exact ⟨none, router, rfl, .nil router⟩
  | cons entry pending ih =>
    obtain ⟨super, id⟩ := entry
    rw [supers, List.map_cons, List.nodup_cons] at hnodup
    obtain ⟨hid, hsome⟩ := hpending super id List.mem_cons_self
    obtain ⟨storage, hheld⟩ := Option.isSome_iff_exists.mp hsome
    obtain ⟨outcome, lent, hrelease⟩ := exists_attempt (⟨router.factory, storage⟩ : Lent φ κ)
      (ChildFactory.release super)
    have hpending' : ∀ other old, (other, old) ∈ pending →
        (other, old) ∈ (router.afterRelease super id lent).releasing ∧
          ((router.afterRelease super id lent).held? old).isSome := by
      intro other old hold
      obtain ⟨hmem, hsome'⟩ := hpending other old (List.mem_cons_of_mem _ hold)
      have hother : other ≠ super := by
        rintro rfl
        exact hnodup.1 (List.mem_map.mpr ⟨(other, old), hold, rfl⟩)
      have hne : old ≠ id := by
        rintro rfl
        have howner := h.releasing_owned other old hmem
        rw [h.releasing_owned super old hid] at howner
        exact hother (Option.some.inj howner).symm
      rw [held?_afterRelease_ne hne]
      refine ⟨List.mem_filter.mpr ⟨hmem, ?_⟩, hsome'⟩
      rw [decide_eq_true_iff]
      exact fun heq => hother (congrArg Prod.fst heq)
    obtain ⟨failure, router', heach, hreleases⟩ :=
      ih (h.afterRelease hid hsome lent) hnodup.2 hpending'
    refine ⟨_, router', ?_, .cons hid hheld hrelease hreleases⟩
    rw [releaseEach_cons (release_held hheld hrelease) heach]
    cases outcome <;> rfl

end Releases

/-! ### Between two calls -/

section Settled

variable {φ κ : Type} {owners owners' : List String} {router mid router' : MultiStore φ κ}
  {super : String} {id : ChildId} {factory : φ}

/-- No child is being handed back. -/
structure Settled (owners : List String) (router : MultiStore φ κ) : Prop where
  ordered : Ordered owners router
  releasing : router.releasing = []

theorem Settled.start (factory : φ) (capacity : Nat) (hpos : 0 < capacity) :
    Settled [] ({ factory, capacity, capacity_pos := hpos } : MultiStore φ κ) :=
  ⟨.start factory capacity hpos, rfl⟩

theorem Settled.listed_eq (h : Settled owners router) : router.listed = router.opened := by
  rw [listed, h.releasing, List.append_nil]

variable [ChildFactory φ κ]

/-- To close all children is to release them, the one used longest ago first. -/
theorem closeAll_releases (h : Settled owners router) :
    ∃ failure router',
      Releases router.opened.reverse { router with opened := [], releasing := router.opened } failure
        router' ∧
      closeAll.attempt router = .ok (match failure with | none => .ok () | some e => .error e)
        router' ∧
      Settled owners router' ∧ router'.opened = [] := by
  obtain ⟨hevict, hordered⟩ := h.ordered.evictAll
  rw [h.listed_eq] at hevict hordered
  have hnodup : (supers router.opened.reverse).Nodup := by
    rw [supers, List.map_reverse, List.nodup_reverse]
    exact h.ordered.opened_nodup
  have hpending : ∀ super id, (super, id) ∈ router.opened.reverse →
      (super, id) ∈ router.opened ∧ (router.held? id).isSome := by
    intro super id hid
    rw [List.mem_reverse] at hid
    exact ⟨hid, h.ordered.held_of_opened super id hid⟩
  obtain ⟨failure, router', heach, hreleases⟩ := exists_releases hordered hnodup hpending
  obtain ⟨hopened, -, hreleasing⟩ := hreleases.lists_eq
  refine ⟨failure, router', hreleases, ?_, ⟨hreleases.ordered hordered, ?_⟩, hopened⟩
  · have hclose : closeAll router = _ := (bind_ok hevict).trans (bind_ok heach)
    rw [attempt_apply, hclose]
    cases failure <;> rfl
  · rw [hreleasing, List.filter_eq_nil_iff]
    intro entry hentry
    simpa using hentry

theorem performTask_closeAll {outcome : Except Error Unit}
    (h : closeAll.attempt router = .ok outcome router') :
    (performTask .closeAll).attempt router = .ok (outcome.map fun _ => .done) router' := by
  rw [attempt_apply] at h ⊢
  rcases hclose : (closeAll : Effect (MultiStore φ κ) Unit) router with ⟨_, last⟩ | ⟨e, last⟩
  · rw [hclose] at h
    cases h
    have htask : performTask .closeAll router = .ok Answer.done router' := bind_ok hclose
    rw [htask]
    rfl
  · rw [hclose] at h
    cases h
    have htask : performTask .closeAll router = .error e router' := bind_error hclose
    rw [htask]
    rfl

/-- A child of a super-tag that a router gets for a call, and the router that then has it, with the
owners of its children. -/
inductive Gets (owners : List String) (router : MultiStore φ κ) (super : String) :
    List String → ChildId → MultiStore φ κ → Prop
  | found {id : ChildId} (hid : (super, id) ∈ router.opened) :
    Gets owners router super owners id
      { router with opened := toFront (super, id) router.opened }
  | opened {storage : κ} {factory : φ} (hnot : super ∉ supers router.opened)
    (hopen : ChildFactory.openChild super router.factory = .ok storage factory)
    (hvictim : router.victim? = none) :
    Gets owners router super (owners ++ [super]) router.children.length
      ({ router with factory }.enter super storage)
  /-- Another child is released for it, whatever the factory makes of that. -/
  | displaced {storage found : κ} {factory : φ} {evicted : String} {old : ChildId}
    {outcome : Except Error Unit} {lent : Lent φ κ} (hnot : super ∉ supers router.opened)
    (hopen : ChildFactory.openChild super router.factory = .ok storage factory)
    (hvictim : router.victim? = some (evicted, old)) (hheld : router.held? old = some found)
    (hrelease : (ChildFactory.release evicted).attempt ⟨factory, found⟩ = .ok outcome lent) :
    Gets owners router super (owners ++ [super]) router.children.length
      (({ router with factory }.enter super storage).afterRelease evicted old lent)

omit [ChildFactory φ κ] in
/-- A child can be entered into a router that has settled. -/
theorem Settled.enter (h : Settled owners router) (hnot : super ∉ supers router.opened) (factory : φ)
    (storage : κ) : Ordered (owners ++ [super]) ({ router with factory }.enter super storage) ∧
      ({ router with factory }.enter super storage).releasing = router.victim?.toList := by
  have hlisted : super ∉ supers ({ router with factory } : MultiStore φ κ).listed := by
    change super ∉ supers router.listed
    rwa [h.listed_eq]
  obtain ⟨kept, -, -, -, hreleasing⟩ := (h.ordered.withFactory factory).enter_lists super storage
  refine ⟨(h.ordered.withFactory factory).enter hlisted storage, hreleasing.trans ?_⟩
  change router.victim?.toList ++ router.releasing = _
  rw [h.releasing, List.append_nil]

omit [ChildFactory φ κ] in
/-- The victim is held when the child that displaces it has been opened. -/
theorem held?_enter_old {old : ChildId} (hheld : (router.held? old).isSome) (factory : φ)
    (super : String) (storage : κ) :
    ({ router with factory }.enter super storage).held? old = router.held? old :=
  held?_enter_ne { router with factory } super storage (Nat.ne_of_lt (lt_length_of_held? hheld))

/-- The victim is released from a router that has the child that displaces it. -/
theorem release_enter {storage found : κ} {evicted : String} {old : ChildId}
    {outcome : Except Error Unit} {lent : Lent φ κ} (hheld : router.held? old = some found)
    (hrelease : (ChildFactory.release evicted).attempt ⟨factory, found⟩ = .ok outcome lent)
    (super : String) :
    ({ router with factory }.enter super storage).held? old = some found ∧
      (ChildFactory.release evicted).attempt
        ⟨({ router with factory }.enter super storage).factory, found⟩ = .ok outcome lent := by
  rw [held?_enter_old (Option.isSome_of_eq_some hheld), enter_factory]
  exact ⟨hheld, hrelease⟩

/-- A router settles with the child that it got. -/
theorem Gets.settled (hgets : Gets owners router super owners' id mid) (h : Settled owners router) :
    Settled owners' mid ∧ owners'[id]? = some super ∧ (mid.held? id).isSome := by
  have hnew : (owners ++ [super])[router.children.length]? = some super := by
    rw [← h.ordered.owners_length, List.getElem?_concat_length]
  cases hgets with
  | found hid =>
    obtain ⟨howner, hheld⟩ := h.ordered.opened_held super id hid
    exact ⟨⟨h.ordered.hit hid, h.releasing⟩, howner, hheld⟩
  | @opened storage factory hnot hopen hvictim =>
    obtain ⟨hordered, hreleasing⟩ := h.enter hnot factory storage
    rw [hvictim] at hreleasing
    refine ⟨⟨hordered, hreleasing⟩, hnew, ?_⟩
    exact Option.isSome_of_eq_some (held?_enter_self { router with factory } super storage)
  | @displaced storage found factory evicted old outcome lent hnot hopen hvictim hheld hrelease =>
    obtain ⟨hordered, hreleasing⟩ := h.enter hnot factory storage
    rw [hvictim] at hreleasing
    have hsome := Option.isSome_of_eq_some hheld
    have hne : router.children.length ≠ old := Nat.ne_of_gt (lt_length_of_held? hsome)
    have hmem : (evicted, old) ∈ ({ router with factory }.enter super storage).releasing := by
      rw [hreleasing]
      exact List.mem_singleton_self _
    refine ⟨⟨hordered.afterRelease hmem ?_ lent, ?_⟩, hnew, ?_⟩
    · rwa [held?_enter_old hsome]
    · rw [afterRelease, hreleasing]
      simp
    · rw [held?_afterRelease_ne hne]
      exact Option.isSome_of_eq_some (held?_enter_self { router with factory } super storage)

/-- **The first round of an access gets a child, or the factory refuses to open one.** -/
theorem round_cases (h : Settled owners router) (super : String) :
    (∃ owners' id mid, Gets owners router super owners' id mid ∧ ∀ {α : Type} (effect : Effect (Lent φ κ) α),
      accessRound super effect () router = useRound id effect mid) ∨
    ∃ e factory, super ∉ supers router.opened ∧
      (ChildFactory.openChild super : Effect φ κ) router.factory = .error e factory ∧
      ∀ {α : Type} (effect : Effect (Lent φ κ) α),
        accessRound super effect () router = .error e { router with factory } := by
  rcases find_cases router super with ⟨id, hid, hfind⟩ | ⟨-, hwait, -⟩ |
    ⟨hnot, ⟨e, factory, hopen, hfind⟩ | ⟨storage, factory, hopen, hfind⟩⟩
  · exact .inl ⟨owners, id, _, .found hid, fun _ => bind_ok hfind⟩
  · rw [h.releasing] at hwait
    cases hwait
  · rw [h.listed_eq] at hnot
    exact .inr ⟨e, factory, hnot, hopen, fun _ => bind_error hfind⟩
  · rw [h.listed_eq] at hnot
    left
    cases hvictim : router.victim? with
    | none =>
      rw [hvictim] at hfind
      exact ⟨_, _, _, .opened hnot hopen hvictim, fun _ => bind_ok hfind⟩
    | some victim =>
      obtain ⟨evicted, old⟩ := victim
      rw [hvictim] at hfind
      have hsome := h.ordered.held_of_opened evicted old (mem_of_victim? hvictim)
      obtain ⟨found, hheld⟩ := Option.isSome_iff_exists.mp hsome
      obtain ⟨outcome, lent, hrelease⟩ := exists_attempt (⟨factory, found⟩ : Lent φ κ)
        (ChildFactory.release evicted)
      obtain ⟨hheld', hrelease'⟩ := release_enter hheld hrelease super
      have hreleased := release_held hheld' hrelease'
      exact ⟨_, _, _, .displaced hnot hopen hvictim hheld hrelease,
        fun _ => (bind_ok hfind).trans (bind_ok hreleased)⟩

/-- What an access to a super-tag comes to. -/
inductive Accesses {α : Type} (owners : List String) (router : MultiStore φ κ) (super : String)
    (effect : Effect (Lent φ κ) α) : List String → Except Error α → MultiStore φ κ → Prop
  /-- A child is there, and the effect on it decides. -/
  | used {owners' : List String} {id : ChildId} {mid : MultiStore φ κ} {storage : κ}
    {outcome : Except Error α} {lent : Lent φ κ} (hgets : Gets owners router super owners' id mid)
    (hheld : mid.held? id = some storage)
    (hrun : effect.attempt ⟨mid.factory, storage⟩ = .ok outcome lent) :
    Accesses owners router super effect owners' outcome
      (mid.afterLend id { storage := lent.child } lent.factory)
  /-- The factory does not open a child. -/
  | refused {e : Error} {factory : φ} (hnot : super ∉ supers router.opened)
    (hopen : (ChildFactory.openChild super : Effect φ κ) router.factory = .error e factory) :
    Accesses owners router super effect owners (.error e) { router with factory }

/-- **An access is one effect on a child**, unless the factory does not open it. -/
theorem access_accesses {α : Type} (h : Settled owners router) (super : String)
    (effect : Effect (Lent φ κ) α) :
    ∃ owners' outcome router', (access super effect).attempt router = .ok outcome router' ∧
      Accesses owners router super effect owners' outcome router' := by
  have haccess := attempt_apply router (access super effect)
  rcases round_cases h super with ⟨owners', id, mid, hgets, hround⟩ |
    ⟨e, factory, hnot, hopen, hround⟩
  · obtain ⟨-, -, hsome⟩ := hgets.settled h
    obtain ⟨storage, hheld⟩ := Option.isSome_iff_exists.mp hsome
    obtain ⟨outcome, lent, hrun⟩ := exists_attempt (⟨mid.factory, storage⟩ : Lent φ κ) effect
    refine ⟨owners', outcome, _, ?_, .used hgets hheld hrun⟩
    have huse := runOn_some mid effect hheld
    rw [attempt_apply] at hrun
    rcases hresult : effect ⟨mid.factory, storage⟩ with ⟨a, lent'⟩ | ⟨e, lent'⟩
    all_goals
      rw [hresult] at huse hrun
      cases hrun
    · have hdone : access super effect router = .ok a _ :=
        iterate_done ((hround effect).trans (bind_ok huse))
      rw [haccess, hdone]
    · have hfailed : access super effect router = .error e _ :=
        iterate_error ((hround effect).trans (bind_error huse))
      rw [haccess, hfailed]
  · have hfailed : access super effect router = .error e _ := iterate_error (hround effect)
    rw [hfailed] at haccess
    exact ⟨owners, _, _, haccess, .refused hnot hopen⟩

/-- A call is one effect on the child of its super-tag, unless the factory does not open it. -/
theorem perform_accesses (h : Settled owners router) (call : RouterCall) :
    ∃ owners' outcome router', (perform call).attempt router = .ok outcome router' ∧
      Accesses owners router call.super (call.onChild : Effect (Lent φ κ) Answer) owners' outcome
        router' := by
  have haccess := access_accesses h call.super (call.onChild : Effect (Lent φ κ) Answer)
  rwa [attempt_apply, ← perform_eq_access, ← attempt_apply] at haccess

/-- A router has settled again when a call is over. -/
theorem Accesses.settled {α : Type} {effect : Effect (Lent φ κ) α} {outcome : Except Error α}
    (h : Accesses owners router super effect owners' outcome router')
    (hsettled : Settled owners router) : Settled owners' router' := by
  cases h with
  | @used _ id mid storage _ lent hgets hheld hrun =>
    obtain ⟨hmid, -, hsome⟩ := hgets.settled hsettled
    exact ⟨hmid.ordered.runOn hsome lent.child lent.factory, hmid.releasing⟩
  | @refused e factory hnot hopen =>
    exact ⟨hsettled.ordered.withFactory factory, hsettled.releasing⟩

end Settled

end MultiStore

end FramedStore
