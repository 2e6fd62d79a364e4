import FramedStore.Proofs.Router.Recency
import FramedStore.Proofs.Router.Replay
import FramedStore.Proofs.Router.Sequential

/-!
# What a factory's failures do to a router

A factory may fail to open a child and may fail to take one back, in any pattern. A call whose child is
not opened has this failure as its outcome and changes nothing; a call that displaces a child has the
outcome that it has on the content of its super-tag, whatever comes of the release; and to close all
children is to release each of them once, whatever fails on the way (`withstands_failures`).
-/

namespace FramedStore

open Effect
open TagStore (Answer)

/-- The failure of a step, if it failed. -/
def Effect.Step.failure? {κ σ α : Type} (made : Step κ σ α) : Option Error :=
  match made.outcome with
  | .ok _ => none
  | .error e => some e

namespace MultiStore

open FaithfulFactory

/-! ### Contents -/

section Contents

variable {φ κ : Type} [ChildFactory φ κ] [FaithfulFactory φ κ] {owners owners' : List String}
  {router mid : MultiStore φ κ} {call : RouterCall} {id : ChildId} {storage : κ} {lent : Lent φ κ}
  {outcome : Except Error Answer}

/-- What is looked up as the content of a super-tag is its content. -/
theorem Ordered.keeps_contentOf (h : Ordered owners router) (super : String) :
    Keeps owners router super (router.contentOf super) where
  held := by
    intro id storage howner hheld
    have hmem := h.mem_of_held howner (Option.isSome_of_eq_some hheld)
    rw [contentOf, lookup_of_mem h.listed_nodup hmem, Option.bind_some, hheld]
  away := by
    intro haway
    have hnone : (router.listed.lookup super).bind router.held? = none := by
      rw [Option.bind_eq_none_iff]
      intro id hid
      exact haway id (h.listed_owned super id (mem_of_lookup hid))
    rw [contentOf, hnone]

/-- **A call on a child that was opened for it has the outcome that it has on the content of its
super-tag**, and no content changes but this one and that of the child it displaced. -/
theorem Gets.contentOf_used (hgets : Gets owners router call.super owners' id mid)
    (h : Settled owners router) (hnot : call.super ∉ supers router.opened)
    (hheld : mid.held? id = some storage)
    (hrun : call.onChild.attempt (⟨mid.factory, storage⟩ : Lent φ κ) = .ok outcome lent) :
    outcome = (call.onContent ⟨router.contentOf call.super⟩).1 ∧
      ∀ other, (∀ old, router.victim? ≠ some (other, old)) →
        (mid.afterLend id { storage := lent.child } lent.factory).contentOf other =
          if other = call.super then (call.onContent ⟨router.contentOf call.super⟩).2.content
          else router.contentOf other := by
  obtain ⟨hmid, howner, hsome⟩ := hgets.settled h
  have hkeeps : ∀ other, (∀ old, router.victim? ≠ some (other, old)) →
      Keeps owners' mid other (router.contentOf other) := fun other hother =>
    hgets.keeps h (fun old hold => absurd hold (hother old)) (h.ordered.keeps_contentOf other)
  have hself := hkeeps call.super fun old hold =>
    hnot (mem_supers.mpr ⟨old, mem_of_victim? hold⟩)
  obtain ⟨hcontent, hparked⟩ := onChild_faithful hrun
  rw [hself.held id storage howner hheld] at hcontent
  have hordered := hmid.ordered.runOn hsome lent.child lent.factory
  rw [hcontent]
  refine ⟨rfl, fun other hother => ?_⟩
  split
  · next heq =>
    subst heq
    exact (Keeps.afterLend_self hmid.ordered howner hsome).contentOf_eq hordered
  · next hne =>
    have hkept : Keeps owners' (mid.afterLend id { storage := lent.child } lent.factory) other _ :=
      (hkeeps other hother).afterLend_other howner hne (congrFun hparked other)
    exact hkept.contentOf_eq hordered

end Contents

/-! ### A call whose child is not open -/

section Calls

variable {φ κ : Type} [ChildFactory φ κ] {owners owners' : List String}
  {router router' : MultiStore φ κ} {call : RouterCall} {storage : κ} {factory : φ}
  {outcome : Except Error Answer}

omit [ChildFactory φ κ] in
theorem isOpen_eq_false {super : String} :
    router.isOpen super = false ↔ super ∉ supers router.opened := by
  rw [isOpen, Option.isSome_eq_false_iff, Option.isNone_iff_eq_none, lookup_eq_none]

/-- A child that was not open is put in front, if need be in place of the last one. -/
theorem Gets.supers_of_closed {super : String} {id : ChildId} {mid : MultiStore φ κ}
    (hgets : Gets owners router super owners' id mid) (h : Settled owners router)
    (hnot : super ∉ supers router.opened) :
    supers mid.opened = (super :: supers router.opened).take router.capacity := by
  rw [hgets.supers_eq h, touch, filter_ne_of_not_mem hnot]

/-- In a full router the last one is not open any more. -/
theorem Gets.supers_of_full {super evicted : String} {id old : ChildId} {mid : MultiStore φ κ}
    (hgets : Gets owners router super owners' id mid) (h : Settled owners router)
    (hnot : super ∉ supers router.opened) (hfull : router.openCount = router.capacity)
    (hlast : router.opened.getLast? = some (evicted, old)) :
    supers mid.opened = super :: (supers router.opened).dropLast ∧ evicted ∉ supers mid.opened := by
  obtain ⟨front, hfront⟩ := List.getLast?_eq_some_iff.mp hlast
  have hsupers : supers router.opened = supers front ++ [evicted] := by
    rw [hfront, supers, List.map_append]
    rfl
  have hlength : router.capacity = (supers front).length + 1 := by
    rw [← hfull, openCount, hfront, List.length_append, supers, List.length_map]
    rfl
  have hopened : supers mid.opened = super :: supers front := by
    rw [hgets.supers_of_closed h hnot, hsupers, hlength, List.take_succ_cons, List.take_left]
  rw [hopened, hsupers, List.dropLast_concat]
  refine ⟨rfl, ?_⟩
  have hnodup := h.ordered.opened_nodup
  rw [hsupers] at hnodup hnot
  rw [List.mem_cons, not_or]
  constructor
  · rintro rfl
    exact hnot (List.mem_append_right _ (List.mem_singleton_self _))
  · exact fun hmem => (List.nodup_append.mp hnodup).2.2 evicted hmem evicted
      (List.mem_singleton_self _) rfl

/-- If the factory does not open the child, nothing else is done. -/
theorem Accesses.of_not_opened {e : Error}
    (h : Accesses owners router call.super (call.onChild : Effect (Lent φ κ) Answer) owners' outcome
      router') (hnot : call.super ∉ supers router.opened)
    (hopen : (ChildFactory.openChild call.super : Effect φ κ) router.factory = .error e factory) :
    outcome = .error e ∧ router' = { router with factory } := by
  cases h with
  | used hgets =>
    cases hgets with
    | found hid => exact absurd (mem_supers.mpr ⟨_, hid⟩) hnot
    | opened _ hopened | displaced _ hopened =>
      rw [hopen] at hopened
      cases hopened
  | refused _ hrefused =>
    rw [hopen] at hrefused
    cases hrefused
    exact ⟨rfl, rfl⟩

/-- If the factory opens the child, the call is made on it, and before that the child that it displaces
is handed back. -/
theorem Accesses.of_opened
    (h : Accesses owners router call.super (call.onChild : Effect (Lent φ κ) Answer) owners' outcome
      router') (hnot : call.super ∉ supers router.opened)
    (hopen : ChildFactory.openChild call.super router.factory = .ok storage factory) :
    ∃ id mid after, Gets owners router call.super owners' id mid ∧ mid.held? id = some storage ∧
      call.onChild.attempt (⟨mid.factory, storage⟩ : Lent φ κ) = .ok outcome after ∧
      router' = mid.afterLend id { storage := after.child } after.factory ∧
      ∀ evicted old, router.victim? = some (evicted, old) → ∃ found released lent,
        router.held? old = some found ∧
        (ChildFactory.release evicted).attempt ⟨factory, found⟩ = .ok released lent ∧
        mid.factory = lent.factory := by
  cases h with
  | refused _ hrefused =>
    rw [hopen] at hrefused
    cases hrefused
  | @used _ id mid storage' _ after hgets hheld hrun =>
    have hgot := hgets
    cases hgets with
    | found hid => exact absurd (mem_supers.mpr ⟨_, hid⟩) hnot
    | opened _ hopened hnone =>
      rw [hopen] at hopened
      cases hopened
      rw [held?_enter_self { router with factory } call.super storage] at hheld
      cases hheld
      refine ⟨_, _, after, hgot, held?_enter_self _ _ _, hrun, rfl, ?_⟩
      rw [hnone]
      rintro _ _ ⟨⟩
    | @displaced _ found _ evicted old released lent _ hopened hvictim hfound hrelease =>
      rw [hopen] at hopened
      cases hopened
      have hne : router.children.length ≠ old :=
        Nat.ne_of_gt (lt_length_of_held? (Option.isSome_of_eq_some hfound))
      have hself : (({ router with factory }.enter call.super storage).afterRelease evicted old
          lent).held? router.children.length = some storage :=
        (held?_afterRelease_ne hne).trans (held?_enter_self { router with factory } _ _)
      rw [hself] at hheld
      cases hheld
      refine ⟨_, _, after, hgot, hself, hrun, rfl, ?_⟩
      rw [hvictim]
      rintro _ _ ⟨⟩
      exact ⟨found, released, lent, hfound, hrelease, rfl⟩

end Calls

/-! ### Closing -/

section Closing

variable {φ κ : Type} [ChildFactory φ κ] {owners : List String} {router router' : MultiStore φ κ}
  {super : String} {storage : κ} {factory : φ} {outcome : Except Error Unit} {lent : Lent φ κ}

/-- Hands a child to the factory. -/
def takeBack (child : String × κ) : Effect φ Unit :=
  .within (fun factory => (⟨factory, child.2⟩ : Lent φ κ)) (fun lent _ => lent.factory)
    (ChildFactory.release child.1)

theorem step_takeBack
    (h : (ChildFactory.release super).attempt ⟨factory, storage⟩ = .ok outcome lent) :
    step takeBack (super, storage) factory = ⟨(super, storage), factory, outcome, lent.factory⟩ := by
  refine step_of_attempt ?_
  rw [attempt_apply] at h ⊢
  rw [takeBack, within_apply]
  rcases hrelease : (ChildFactory.release super : Effect (Lent φ κ) Unit) ⟨factory, storage⟩
    with ⟨_, after⟩ | ⟨e, after⟩
  all_goals
    rw [hrelease] at h
    cases h
    rfl

/-- The children of a list that have not been handed back. -/
def heldOf (router : MultiStore φ κ) (entries : List (String × ChildId)) : List (String × κ) :=
  entries.filterMap fun entry => (router.held? entry.2).map (entry.1, ·)

/-- The open children, the one used longest ago first. -/
def openChildren (router : MultiStore φ κ) : List (String × κ) := router.heldOf router.opened.reverse

omit [ChildFactory φ κ] in
theorem heldOf_afterRelease {id : ChildId} {pending : List (String × ChildId)}
    (hid : id ∉ pending.map (·.2)) :
    (router.afterRelease super id lent).heldOf pending = router.heldOf pending := by
  refine List.filterMap_congr fun entry hentry => ?_
  have hne : entry.2 ≠ id := by
    rintro rfl
    exact hid (List.mem_map_of_mem hentry)
  rw [held?_afterRelease_ne hne]

/-- **Each child is handed to the factory once**, in the order of the list, and the first failure is
kept. -/
theorem Releases.taken {pending : List (String × ChildId)} {failure : Option Error}
    (h : Releases pending router failure router') (hnodup : (pending.map (·.2)).Nodup) :
    failure = (trace takeBack (router.heldOf pending) router.factory).findSome? Step.failure? ∧
      router'.factory = ending takeBack (router.heldOf pending) router.factory := by
  induction h with
  | nil => exact ⟨rfl, rfl⟩
  | @cons super id storage outcome lent pending router last later _ hheld hrelease _ ih =>
    rw [List.map_cons, List.nodup_cons] at hnodup
    obtain ⟨hfailure, hfactory⟩ := ih hnodup.2
    have hcons : router.heldOf ((super, id) :: pending) = (super, storage) :: router.heldOf pending :=
      List.filterMap_cons_some (by rw [hheld]; rfl)
    rw [heldOf_afterRelease hnodup.1] at hfailure hfactory
    rw [hcons, trace, ending, step_takeBack hrelease, List.findSome?_cons, hfailure]
    refine ⟨?_, hfactory⟩
    cases outcome <;> rfl

omit [ChildFactory φ κ] in
theorem Ordered.ids_nodup (h : Ordered owners router) : (router.opened.reverse.map (·.2)).Nodup := by
  rw [List.map_reverse, List.nodup_reverse]
  refine List.Nodup.of_map (fun id => owners[id]?) ?_
  have howners : (router.opened.map (·.2)).map (fun id => owners[id]?) =
      (supers router.opened).map some := by
    rw [supers, List.map_map, List.map_map]
    refine List.map_congr_left fun entry hentry => ?_
    exact (h.opened_held entry.1 entry.2 hentry).1
  rw [howners]
  exact h.opened_nodup.map (Option.some_injective _)

omit [ChildFactory φ κ] in
/-- Every open child is there to be handed back. -/
theorem Ordered.supers_openChildren (h : Ordered owners router) :
    router.openChildren.map (·.1) = (supers router.opened).reverse := by
  rw [openChildren, heldOf, List.map_filterMap, supers, ← List.map_reverse, ← List.filterMap_eq_map]
  refine List.filterMap_congr fun entry hentry => ?_
  have hsome := (h.opened_held entry.1 entry.2 (List.mem_reverse.mp hentry)).2
  obtain ⟨storage, hheld⟩ := Option.isSome_iff_exists.mp hsome
  rw [hheld]
  rfl

end Closing

/-! ### Runs -/

section Runs

variable {φ κ : Type} [ChildFactory φ κ]

/-- What comes of a call that displaces the child of another super-tag. -/
structure MakesRoom (router : MultiStore φ κ) (call : RouterCall) (evicted : String)
    (outcome : Except Error Answer) (router' : MultiStore φ κ) : Prop where
  opened : supers router'.opened = call.super :: (supers router.opened).dropLast
  closed : router'.isOpen evicted = false
  releasing : router'.releasing = []
  outcome : ∀ [FaithfulFactory φ κ], outcome = (call.onContent ⟨router.contentOf call.super⟩).1
  contents : ∀ [FaithfulFactory φ κ] (other : String), other ≠ evicted →
    router'.contentOf other =
      if other = call.super then (call.onContent ⟨router.contentOf call.super⟩).2.content
      else router.contentOf other

/-- What failures of the factory can do to a router whose super-tags were used in the order `recent`,
the last one first. -/
structure Withstands (recent : List String) (router : MultiStore φ κ) : Prop where
  /-- If the factory does not open the child, the call fails with its error, and nothing but the
  factory has changed. -/
  refused : ∀ (call : RouterCall) (e : Error) (factory : φ), router.isOpen call.super = false →
    (ChildFactory.openChild call.super : Effect φ κ) router.factory = .error e factory →
    perform call router = .error e { router with factory } ∧
      ∀ [FaithfulFactory φ κ] (super : String),
        contentOf { router with factory } super = router.contentOf super
  /-- If the factory opens the child, it is open after the call, also if it had been displaced. -/
  opened : ∀ (call : RouterCall) (storage : κ) (factory : φ), router.isOpen call.super = false →
    ChildFactory.openChild call.super router.factory = .ok storage factory →
    ∃ outcome router', (perform call).attempt router = .ok outcome router' ∧
      supers router'.opened = (call.super :: supers router.opened).take router.capacity ∧
      ∀ [FaithfulFactory φ κ], outcome = (call.onContent ⟨router.contentOf call.super⟩).1
  /-- The child used longest ago is handed to the factory to make room for it, and whatever `released`
  is, the call is made and has the same outcome. -/
  displaced : ∀ (call : RouterCall) (storage : κ) (factory : φ) (evicted : String) (old : ChildId),
    router.isOpen call.super = false →
    ChildFactory.openChild call.super router.factory = .ok storage factory →
    router.openCount = router.capacity → router.opened.getLast? = some (evicted, old) →
    ∃ found released lent outcome after router', router.held? old = some found ∧
      (ChildFactory.release evicted).attempt ⟨factory, found⟩ = .ok released lent ∧
      call.onChild.attempt (⟨lent.factory, storage⟩ : Lent φ κ) = .ok outcome after ∧
      (perform call).attempt router = .ok outcome router' ∧
      MakesRoom router call evicted outcome router'
  openChildren : router.openChildren.map (·.1) = recent.reverse
  /-- All children are handed to the factory, one after the other and each once, and the first failure
  is the outcome. -/
  closed : ∃ router',
    closeAll.attempt router = .ok
      (match (trace takeBack router.openChildren router.factory).findSome? Step.failure? with
        | none => .ok ()
        | some e => .error e) router' ∧
    router'.factory = ending takeBack router.openChildren router.factory ∧
    router'.opened = [] ∧ router'.releasing = []

variable {owners : List String} {router : MultiStore φ κ} {recent : List String}

theorem Settled.withstands (h : Settled owners router) (hrecent : supers router.opened = recent) :
    Withstands recent router where
  refused := by
    intro call e factory hclosed hopen
    have hnot := isOpen_eq_false.mp hclosed
    obtain ⟨owners', outcome, router', hperform, haccesses⟩ := perform_accesses h call
    obtain ⟨rfl, rfl⟩ := haccesses.of_not_opened hnot hopen
    refine ⟨error_of_attempt hperform, fun super => ?_⟩
    have hsame := openChild_error call.super router.factory factory e hopen
    have hkept := (h.ordered.keeps_contentOf super).withFactory (congrFun hsame super)
    exact hkept.contentOf_eq (h.ordered.withFactory factory)
  opened := by
    intro call storage factory hclosed hopen
    have hnot := isOpen_eq_false.mp hclosed
    obtain ⟨owners', outcome, router', hperform, haccesses⟩ := perform_accesses h call
    obtain ⟨id, mid, after, hgets, hheld, hrun, rfl, -⟩ := haccesses.of_opened hnot hopen
    refine ⟨outcome, _, hperform, ?_, (hgets.contentOf_used h hnot hheld hrun).1⟩
    exact hgets.supers_of_closed h hnot
  displaced := by
    intro call storage factory evicted old hclosed hopen hfull hlast
    have hnot := isOpen_eq_false.mp hclosed
    have hvictim : router.victim? = some (evicted, old) :=
      (if_neg (Nat.not_lt.mpr (Nat.le_of_eq hfull.symm))).trans hlast
    obtain ⟨owners', outcome, router', hperform, haccesses⟩ := perform_accesses h call
    have hsettled := haccesses.settled h
    obtain ⟨id, mid, after, hgets, hheld, hrun, rfl, hreleased⟩ := haccesses.of_opened hnot hopen
    obtain ⟨found, released, lent, hfound, hrelease, hfactory⟩ := hreleased evicted old hvictim
    refine ⟨found, released, lent, outcome, after, _, hfound, hrelease, hfactory ▸ hrun, hperform, ?_⟩
    obtain ⟨hopened, hgone⟩ := hgets.supers_of_full h hnot hfull hlast
    refine ⟨hopened, isOpen_eq_false.mpr hgone, hsettled.releasing,
      (hgets.contentOf_used h hnot hheld hrun).1, fun other hother =>
      (hgets.contentOf_used h hnot hheld hrun).2 other fun old' hold' => hother ?_⟩
    rw [hvictim] at hold'
    exact congrArg Prod.fst (Option.some.inj hold').symm
  openChildren := by
    rw [h.ordered.supers_openChildren, hrecent]
  closed := by
    obtain ⟨failure, router', hreleases, hclose, hsettled, hopened⟩ := closeAll_releases h
    obtain ⟨rfl, hfactory⟩ := hreleases.taken h.ordered.ids_nodup
    exact ⟨router', hclose, hfactory, hopened, hsettled.releasing⟩

/-- **What a factory fails to do stays with the call or the child it is about**, in every run of a
single user. -/
theorem withstands_failures (factory : φ) (capacity : Nat) (hpos : 0 < capacity) (uses : List Use) :
    ∃ router, create factory capacity = .ok router ∧
      Withstands ((accessed (trace Use.perform uses router)).eraseDups.take capacity)
        (ending Use.perform uses router) := by
  refine ⟨_, dif_pos hpos, ?_⟩
  have hfollows := follows_run factory hpos uses
  obtain ⟨owners, hsettled⟩ := hfollows.settled
  exact hsettled.withstands hfollows.opened

/-- A router with two open children, of which one cannot be released, and a third one that cannot be
opened: the failures of a call, of an eviction and of closing. -/
theorem withstands_failures_refused :
    let factory : RestrictedParked := { parked := {}, sealed := ["c"], stuck := ["a"] }
    let uses : List Use := [.task (.call (.put "a" "k" [1])), .task (.call (.put "b" "k" [2]))]
    0 < 2 ∧ ∃ router, create factory 2 = .ok router ∧
      let reached := ending Use.perform uses router
      Withstands ["b", "a"] reached ∧
      perform (.get "c" "k") reached = .error (.io (.other "injected open c")) reached ∧
      (∃ outcome router', (perform (.push "d" "k" [4])).attempt reached = .ok outcome router' ∧
        MakesRoom reached (.push "d" "k" [4]) "a" outcome router') ∧
      ∃ router', closeAll.attempt reached =
          .ok (.error (.io (.other "injected release a"))) router' ∧
        router'.opened = [] ∧ router'.releasing = [] := by
  intro factory uses
  obtain ⟨router, hrouter, hwithstands⟩ := withstands_failures factory 2 (by decide) uses
  have hrecent : (accessed (trace Use.perform uses router)).eraseDups.take 2 = ["b", "a"] := by
    cases hrouter
    decide +kernel
  rw [hrecent] at hwithstands
  -- the state that was reached is only computed where a question about it is decided
  have hclosed : ∀ super ∈ ["c", "d"], (ending Use.perform uses router).isOpen super = false := by
    cases hrouter
    decide +kernel
  have hopens : (ending Use.perform uses router).factory.sealed = ["c"] := by
    cases hrouter
    decide +kernel
  refine ⟨by decide, router, hrouter, hwithstands, ?_, ?_, ?_⟩
  · exact (hwithstands.refused (.get "c" "k") _ _ (hclosed "c" (by decide))
      (RestrictedParked.openChild_sealed (by rw [hopens]; decide))).1
  · have hfull : (ending Use.perform uses router).openCount =
        (ending Use.perform uses router).capacity := by
      cases hrouter
      decide +kernel
    have hlast : (ending Use.perform uses router).opened.getLast? = some ("a", 0) := by
      cases hrouter
      decide +kernel
    obtain ⟨_, _, _, outcome, _, router', -, -, -, hcall, hroom⟩ := hwithstands.displaced
      (.push "d" "k" [4]) _ _ "a" 0 (hclosed "d" (by decide))
      (RestrictedParked.openChild_apply (by rw [hopens]; decide)) hfull hlast
    exact ⟨outcome, router', hcall, hroom⟩
  · obtain ⟨router', hclose, -, hopened, hreleasing⟩ := hwithstands.closed
    have hfailure : (trace takeBack (ending Use.perform uses router).openChildren
        (ending Use.perform uses router).factory).findSome? Step.failure? =
        some (.io (.other "injected release a")) := by
      cases hrouter
      decide +kernel
    rw [hfailure] at hclose
    exact ⟨router', hclose, hopened, hreleasing⟩

end Runs

end MultiStore

end FramedStore
