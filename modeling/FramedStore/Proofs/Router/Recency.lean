import FramedStore.Proofs.Distinct
import FramedStore.Proofs.Effect.Run
import FramedStore.Proofs.Router.Settled
import Mathlib.Data.List.Induction

/-!
# The open children by their last use

Which children of a router are open is known from the accesses alone: they are those of the super-tags
that were accessed last, as many as there is room for, and no other use and no failure of the factory
changes that (`opened_by_recency`).
-/

namespace FramedStore.MultiStore

open Effect
open TagStore (Answer)

variable {φ κ : Type} [ChildFactory φ κ]

/-! ### Uses and accesses -/

/-- A use of a router by a single user: a task, or a question. -/
inductive Use
  | task (task : Task)
  | isOpen (super : String)
  | openCount
  deriving Repr, DecidableEq

/-- Makes a use. -/
def Use.perform : Use → Effect (MultiStore φ κ) Answer
  | .task made => performTask made
  | .isOpen super => do return .flag ((← get).isOpen super)
  | .openCount => do return .count (← get).openCount

/-- Whether a call finds the child of a super-tag open, or the factory opens it. -/
def hasChild (router : MultiStore φ κ) (super : String) : Bool :=
  router.isOpen super || match (ChildFactory.openChild super : Effect φ κ) router.factory with
    | .ok _ _ => true
    | .error _ _ => false

/-- The accesses after a use, the last one first. A call accesses its super-tag if it has a child,
whatever comes of the call in the child. -/
def Use.note (history : List String) (made : Step Use (MultiStore φ κ) Answer) : List String :=
  match made.call with
  | .task (.call call) =>
    if made.before.hasChild call.super then call.super :: history else history
  | .task .closeAll => []
  | .isOpen _ | .openCount => history

/-- The super-tags that have been accessed since all children were closed, the last access first. -/
def accessed (steps : List (Step Use (MultiStore φ κ) Answer)) : List String :=
  steps.foldl Use.note []

/-! ### Accesses among the last ones -/

/-- The open super-tags after an access. -/
def touch (capacity : Nat) (super : String) (recent : List String) : List String :=
  (super :: recent.filter (· ≠ super)).take capacity

/-- To keep the last ones is enough to know the last ones after another access. -/
theorem touch_recent {capacity : Nat} (hpos : 0 < capacity) (super : String)
    (history : List String) :
    touch capacity super (history.eraseDups.take capacity) =
      (super :: history).eraseDups.take capacity := by
  obtain ⟨count, rfl⟩ := Nat.exists_eq_add_one.mpr hpos
  have hcons : (super :: history).eraseDups = super :: history.eraseDups.filter (· ≠ super) := by
    rw [List.eraseDups_cons, eraseDups_filter]
    congr 1
    refine List.filter_congr fun other _ => ?_
    by_cases heq : other = super <;> simp [heq]
  rw [touch, hcons, List.take_succ_cons, List.take_succ_cons,
    take_filter_take super (nodup_eraseDups history)]

/-! ### The lists of a router -/

section Router

variable {owners owners' : List String} {router mid router' : MultiStore φ κ} {super : String}
  {id : ChildId}

omit [ChildFactory φ κ] in
theorem supers_toFront (super : String) (id : ChildId) (entries : List (String × ChildId)) :
    supers (toFront (super, id) entries) = super :: (supers entries).filter (· ≠ super) := by
  unfold supers toFront
  rw [List.map_cons, List.filter_map]
  rfl

omit [ChildFactory φ κ] in
/-- The child that is entered into a full router takes the place of the last one. -/
theorem supers_enter (h : Ordered owners router) (hnot : super ∉ supers router.opened) (storage : κ) :
    supers (router.enter super storage).opened =
      touch router.capacity super (supers router.opened) := by
  obtain ⟨kept, hsplit, hroom, hopened, -⟩ := h.enter_lists super storage
  obtain ⟨count, hcapacity⟩ := Nat.exists_eq_add_one.mpr router.capacity_pos
  have hkept : router.opened.take count = kept := by
    cases hvictim : router.victim? with
    | none =>
      have hall : router.opened = kept := by
        rw [hsplit, hvictim]
        exact List.append_nil kept
      rw [hall, List.take_of_length_le (by omega)]
    | some victim =>
      have hfull : ¬ router.opened.length < router.capacity := by
        intro hlt
        rw [victim?, if_pos hlt] at hvictim
        cases hvictim
      rw [hvictim] at hsplit
      have hlength := congrArg List.length hsplit
      rw [List.length_append] at hlength
      change _ = kept.length + 1 at hlength
      rw [hsplit, List.take_left' (by omega)]
  rw [hopened, touch, filter_ne_of_not_mem hnot, hcapacity, List.take_succ_cons]
  refine congrArg (super :: ·) ?_
  rw [← hkept]
  exact List.map_take

/-- To get a child is to access its super-tag. -/
theorem Gets.supers_eq (hgets : Gets owners router super owners' id mid)
    (h : Settled owners router) :
    supers mid.opened = touch router.capacity super (supers router.opened) := by
  cases hgets with
  | found hid =>
    have hperm := (toFront_perm h.ordered.opened_nodup hid).length_eq
    have hroom : router.opened.length ≤ router.capacity := h.ordered.openCount_le
    change supers (toFront (super, id) router.opened) = _
    rw [touch, ← supers_toFront super id, List.take_of_length_le]
    rw [supers, List.length_map]
    omega
  | @opened storage factory hnot => exact supers_enter (h.ordered.withFactory factory) hnot storage
  | @displaced storage _ factory _ _ _ _ hnot =>
    exact supers_enter (h.ordered.withFactory factory) hnot storage

theorem Gets.capacity_eq (hgets : Gets owners router super owners' id mid) :
    mid.capacity = router.capacity := by
  cases hgets with
  | found => rfl
  | opened => exact enter_capacity _ _ _
  | displaced => exact enter_capacity _ _ _

/-- A call gets a child just if it has one. -/
theorem Gets.hasChild_eq (hgets : Gets owners router super owners' id mid) :
    router.hasChild super = true := by
  unfold hasChild isOpen
  cases hgets with
  | found hid =>
    have hopen : router.opened.lookup super ≠ none := by
      rw [Ne, lookup_eq_none, not_not]
      exact mem_supers.mpr ⟨id, hid⟩
    rw [Option.isSome_iff_ne_none.mpr hopen, Bool.true_or]
  | opened hnot hopen => rw [hopen, Bool.or_true]
  | displaced hnot hopen => rw [hopen, Bool.or_true]

end Router

/-! ### Runs -/

/-- What is known of the open children from the accesses, the last one first. -/
structure ByRecency (capacity : Nat) (history : List String) (router : MultiStore φ κ) : Prop where
  /-- They are those of the super-tags accessed last, in this order. -/
  opened : supers router.opened = history.eraseDups.take capacity
  openCount : router.openCount = min capacity history.eraseDups.length
  isOpen : ∀ super, router.isOpen super = true ↔ super ∈ history.eraseDups.take capacity
  releasing : router.releasing = []

section Runs

variable {capacity : Nat} {owners : List String} {router : MultiStore φ κ} {history : List String}

/-- What holds between two uses. -/
structure Follows (capacity : Nat) (history : List String) (router : MultiStore φ κ) : Prop where
  settled : ∃ owners, Settled owners router
  capacity_eq : router.capacity = capacity
  opened : supers router.opened = history.eraseDups.take capacity

theorem Follows.call (h : Follows capacity history router) (call : RouterCall) :
    Follows capacity (Use.note history (step Use.perform (.task (.call call)) router))
      (step Use.perform (.task (.call call)) router).after := by
  obtain ⟨owners, hsettled⟩ := h.settled
  obtain ⟨owners', outcome, router', hperform, haccesses⟩ := perform_accesses hsettled call
  have hcall : (Use.perform (.task (.call call))).attempt router = .ok outcome router' := hperform
  rw [step_of_attempt hcall]
  have hsettled' := haccesses.settled hsettled
  cases haccesses with
  | @used _ id mid storage _ lent hgets =>
    have hnote : Use.note history ⟨.task (.call call), router, outcome,
        mid.afterLend id { storage := lent.child } lent.factory⟩ = call.super :: history :=
      if_pos hgets.hasChild_eq
    have hopened : supers mid.opened = touch router.capacity call.super (supers router.opened) :=
      hgets.supers_eq hsettled
    rw [hnote]
    refine ⟨⟨_, hsettled'⟩, hgets.capacity_eq.trans h.capacity_eq, hopened.trans ?_⟩
    have hpos : 0 < capacity := h.capacity_eq ▸ router.capacity_pos
    rw [h.capacity_eq, h.opened, touch_recent hpos]
  | @refused e factory hnot hopen =>
    have hnone : router.hasChild call.super = false := by
      unfold hasChild isOpen
      rw [lookup_eq_none.mpr hnot, hopen]
      rfl
    have hnote : Use.note history ⟨.task (.call call), router, .error e,
        { router with factory }⟩ = history := if_neg (by simp [hnone])
    rw [hnote]
    exact ⟨⟨_, hsettled'⟩, h.capacity_eq, h.opened⟩

theorem Follows.closeAll (h : Follows capacity history router) :
    Follows capacity (Use.note history (step Use.perform (.task .closeAll) router))
      (step Use.perform (.task .closeAll) router).after := by
  obtain ⟨owners, hsettled⟩ := h.settled
  obtain ⟨failure, router', hreleases, hclose, hsettled', hopened⟩ := closeAll_releases hsettled
  have hcapacity : router'.capacity = router.capacity := hreleases.lists_eq.2.1
  have htask : (Use.perform (.task .closeAll)).attempt router = .ok _ router' :=
    performTask_closeAll hclose
  rw [step_of_attempt htask]
  refine ⟨⟨owners, hsettled'⟩, hcapacity.trans h.capacity_eq, ?_⟩
  rw [hopened]
  exact List.take_nil.symm

/-- **What a use does to the open children is what it does to the accesses.** -/
theorem Follows.step (h : Follows capacity history router) (made : Use) :
    Follows capacity (Use.note history (step Use.perform made router))
      (step Use.perform made router).after := by
  cases made with
  | task task =>
    cases task with
    | call call => exact h.call call
    | closeAll => exact h.closeAll
  | isOpen | openCount => exact h

omit [ChildFactory φ κ] in
theorem Follows.byRecency (h : Follows capacity history router) :
    ByRecency capacity history router where
  opened := h.opened
  openCount := by
    have hlength := congrArg List.length h.opened
    rw [supers, List.length_map, List.length_take] at hlength
    exact hlength
  isOpen := by
    intro super
    rw [← h.opened, isOpen, Option.isSome_iff_ne_none, Ne, lookup_eq_none, not_not]
  releasing := by
    obtain ⟨owners, hsettled⟩ := h.settled
    exact hsettled.releasing

/-- What holds after each run of a new router. -/
theorem follows_run (factory : φ) (hpos : 0 < capacity) (uses : List Use) :
    let router : MultiStore φ κ := { factory, capacity, capacity_pos := hpos }
    Follows capacity (accessed (trace Use.perform uses router)) (ending Use.perform uses router) := by
  intro router
  induction uses using List.reverseRecOn with
  | nil => exact ⟨⟨[], .start factory capacity hpos⟩, rfl, List.take_nil.symm⟩
  | append_singleton uses made ih =>
    rw [accessed, trace_concat, List.foldl_concat, ending_concat]
    exact ih.step made

/-- **The open children are those that were used last.** Whatever the factory refuses, after each run
of a single user the open children are those of the super-tags that were accessed last. -/
theorem opened_by_recency (factory : φ) (capacity : Nat) (hpos : 0 < capacity) (uses : List Use) :
    ∃ router, create factory capacity = .ok router ∧
      ByRecency capacity (accessed (trace Use.perform uses router))
        (ending Use.perform uses router) :=
  ⟨_, dif_pos hpos, (follows_run factory hpos uses).byRecency⟩

/-- A run in which the factory refuses to open one child and to take another one back, with questions
in between. -/
theorem opened_by_recency_refused :
    let factory : RestrictedParked := { parked := {}, sealed := ["c"], stuck := ["a"] }
    let uses : List Use :=
      [.task (.call (.put "x" "k" [1])), .task .closeAll, .task (.call (.put "a" "k" [1])),
        .task (.call (.put "b" "k" [2])), .isOpen "a", .task (.call (.get "a" "k")),
        .task (.call (.get "c" "k")), .task (.call (.subTags "d")), .openCount,
        .task (.call (.get "a" "k"))]
    0 < 2 ∧ ∃ router, create factory 2 = .ok router ∧
      accessed (trace Use.perform uses router) = ["a", "d", "a", "b", "a"] ∧
      ByRecency 2 ["a", "d", "a", "b", "a"] (ending Use.perform uses router) := by
  intro factory uses
  obtain ⟨router, hrouter, hrecent⟩ := opened_by_recency factory 2 (by decide) uses
  have haccessed : accessed (trace Use.perform uses router) = ["a", "d", "a", "b", "a"] := by
    cases hrouter
    decide +kernel
  rw [haccessed] at hrecent
  exact ⟨by decide, router, hrouter, haccessed, hrecent⟩

end Runs

end FramedStore.MultiStore
