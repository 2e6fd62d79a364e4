import FramedStore.Proofs.Router.Contents
import FramedStore.Proofs.Router.Settled
import Mathlib.Logic.Function.Basic

/-!
# Calls one after the other

What calls of a single user do to the contents of a router's super-tags, where the factory is faithful:
a call changes no content but that of its own super-tag (`Accesses.keeps`), whichever child it
displaces, and closing all children changes no content. With children in memory nothing of this fails
(`access_parked`, `closeAll_parked`).
-/

namespace FramedStore.MultiStore

open Effect FaithfulFactory

/-! ### Contents -/

section Contents

variable {φ κ : Type} [ChildFactory φ κ] [FaithfulFactory φ κ] {owners owners' : List String}
  {router mid router' : MultiStore φ κ} {super other : String} {id : ChildId} {storage : κ}
  {bytes : Bytes} {lent : Lent φ κ}

omit [FaithfulFactory φ κ] in
variable (φ) in
/-- The factory takes the child of a super-tag back without failing. -/
def TakesBack (super : String) : Prop :=
  ∀ (lent lent' : Lent φ κ) (e : Error), ChildFactory.release super lent ≠ .error e lent'

/-- A release keeps the content of each super-tag, but for that of a child that the factory does not
take back. -/
theorem Keeps.afterRelease {outcome : Except Error Unit} (h : Keeps owners router other bytes)
    (hordered : Ordered owners router) (howner : owners[id]? = some super)
    (hheld : router.held? id = some storage) (hback : other = super → TakesBack φ super) :
    (ChildFactory.release super).attempt ⟨router.factory, storage⟩ = .ok outcome lent →
    Keeps owners (router.afterRelease super id lent) other bytes := by
  intro hrelease
  have hothers : ∀ other, other ≠ super → parked lent.factory other = parked router.factory other := by
    rw [attempt_apply] at hrelease
    rcases hresult : (ChildFactory.release super : Effect (Lent φ κ) Unit) ⟨router.factory, storage⟩
      with ⟨_, lent'⟩ | ⟨e, lent'⟩
    all_goals
      rw [hresult] at hrelease
      cases hrelease
    · exact (release_ok super _ _ hresult).2
    · exact release_error super _ _ e hresult
  refine Keeps.relist ?_ router.opened _
  by_cases hother : other = super
  · subst hother
    rw [attempt_apply] at hrelease
    rcases hresult : (ChildFactory.release other : Effect (Lent φ κ) Unit) ⟨router.factory, storage⟩
      with ⟨_, lent'⟩ | ⟨e, lent'⟩
    · rw [hresult] at hrelease
      cases hrelease
      exact h.handBack_self hordered howner hheld (release_ok other _ _ hresult).1
    · exact absurd hresult (hback rfl _ _ _)
  · exact h.afterLend_other howner hother (hothers other hother)

/-- Releases keep the content of a super-tag whose child the factory takes back. -/
theorem Releases.keeps {pending : List (String × ChildId)} {failure : Option Error}
    (h : Releases pending router failure router') (hordered : Ordered owners router)
    (hback : other ∈ supers pending → TakesBack φ other) (hkeeps : Keeps owners router other bytes) :
    Keeps owners router' other bytes := by
  induction h with
  | nil => exact hkeeps
  | @cons super id storage outcome lent pending router last later hid hheld hrelease _ ih =>
    refine ih (hordered.afterRelease hid (Option.isSome_of_eq_some hheld) lent)
      (fun hmem => hback (List.mem_cons_of_mem _ hmem)) ?_
    exact hkeeps.afterRelease hordered (hordered.releasing_owned super id hid) hheld
      (fun heq => heq ▸ hback (heq ▸ List.mem_cons_self)) hrelease

/-- To get a child keeps the content of a super-tag, unless its child is displaced and the factory
does not take it back. -/
theorem Gets.keeps (hgets : Gets owners router super owners' id mid) (h : Settled owners router)
    (hback : ∀ old, router.victim? = some (other, old) → TakesBack φ other)
    (hkeeps : Keeps owners router other bytes) : Keeps owners' mid other bytes := by
  cases hgets with
  | found => exact hkeeps.relist _ _
  | opened hnot hopen => exact hkeeps.enter h.ordered (h.listed_eq ▸ hnot) hopen
  | @displaced storage found factory evicted old outcome lent hnot hopen hvictim hheld hrelease =>
    obtain ⟨hordered, hreleasing⟩ := h.enter hnot factory storage
    rw [hvictim] at hreleasing
    have hmem : (evicted, old) ∈ ({ router with factory }.enter super storage).releasing := by
      rw [hreleasing]
      exact List.mem_singleton_self _
    obtain ⟨hheld', hrelease'⟩ := release_enter hheld hrelease super
    have hentered := hkeeps.enter h.ordered (h.listed_eq ▸ hnot) hopen
    exact hentered.afterRelease hordered (hordered.releasing_owned evicted old hmem) hheld'
      (fun heq => heq ▸ hback old (heq ▸ hvictim)) hrelease'

/-- **A call is an effect on the content of its super-tag**, unless the factory does not open a child
for it, and keeps the content of each other one. -/
theorem Accesses.keeps {α : Type} {effect : Effect (Lent φ κ) α} {effect' : Effect Memory α}
    {outcome : Except Error α} {kept : String → Bytes}
    (halike : ∀ contents, Alike (fun (lent : Lent φ κ) (memory : Memory) =>
      content φ lent.child = memory.content ∧ parked lent.factory = contents) effect effect')
    (h : Accesses owners router super effect owners' outcome router') (hsettled : Settled owners router)
    (hback : ∀ victim old, router.victim? = some (victim, old) → TakesBack φ victim)
    (hkeeps : ∀ other, Keeps owners router other (kept other)) :
    (∃ bytes, effect'.attempt ⟨kept super⟩ = .ok outcome ⟨bytes⟩ ∧
        ∀ other, Keeps owners' router' other (Function.update kept super bytes other)) ∨
      (∃ e factory, (ChildFactory.openChild super : Effect φ κ) router.factory = .error e factory ∧
        outcome = .error e) ∧ ∀ other, Keeps owners' router' other (kept other) := by
  cases h with
  | @used _ id mid storage outcome lent hgets hheld hrun =>
    left
    obtain ⟨hmid, howner, hsome⟩ := hgets.settled hsettled
    have hkept : ∀ other, Keeps owners' mid other (kept other) :=
      fun other => hgets.keeps hsettled (hback other) (hkeeps other)
    obtain ⟨⟨bytes⟩, hrun', hcontent, hparked⟩ := (halike (parked mid.factory)).attempt
      (t := ⟨kept super⟩) ⟨(hkept super).held id storage howner hheld, rfl⟩ hrun
    refine ⟨bytes, hrun', fun other => ?_⟩
    by_cases hother : other = super
    · subst hother
      have hself : content _ lent.child = bytes := hcontent
      rw [Function.update_self, ← hself]
      exact Keeps.afterLend_self hmid.ordered howner hsome
    · rw [Function.update_of_ne hother]
      exact (hkept other).afterLend_other howner hother (congrFun hparked other)
  | @refused e factory hnot hopen =>
    have hsame := openChild_error super router.factory factory e hopen
    exact .inr ⟨⟨e, factory, hopen, rfl⟩,
      fun other => (hkeeps other).withFactory (congrFun hsame other)⟩

end Contents

/-! ### Children in memory -/

variable {owners : List String} {router : MultiStore Parked Memory} {super : String}
  {kept : String → Bytes}

/-- No child is being handed back, and every super-tag has its content. -/
structure Quiet (owners : List String) (router : MultiStore Parked Memory)
    (kept : String → Bytes) : Prop where
  ordered : Ordered owners router
  releasing : router.releasing = []
  keeps : ∀ super, Keeps owners router super (kept super)

theorem Quiet.settled (h : Quiet owners router kept) : Settled owners router :=
  ⟨h.ordered, h.releasing⟩

theorem Quiet.start {capacity : Nat} (hpos : 0 < capacity) :
    Quiet [] { factory := {}, capacity, capacity_pos := hpos } fun _ => [] :=
  ⟨.start ({} : Parked) capacity hpos, rfl, fun super => .start ({} : Parked) capacity hpos super⟩

theorem takesBack_parked (super : String) : TakesBack Parked super := by
  rintro ⟨factory, memory⟩ lent' e hrelease
  cases hrelease

theorem Releases.failure_parked {pending : List (String × ChildId)} {failure : Option Error}
    {router' : MultiStore Parked Memory} (h : Releases pending router failure router') :
    failure = none := by
  induction h with
  | nil => rfl
  | cons _ _ hrelease _ ih =>
    cases hrelease
    exact ih

theorem closeAll_parked (h : Quiet owners router kept) :
    ∃ router', closeAll router = .ok () router' ∧ Quiet owners router' kept := by
  obtain ⟨failure, router', hreleases, hclose, hsettled, -⟩ := closeAll_releases h.settled
  obtain rfl := hreleases.failure_parked
  have hordered : Ordered owners { router with opened := [], releasing := router.opened } :=
    h.settled.listed_eq ▸ h.ordered.evictAll.2
  refine ⟨router', ok_of_attempt hclose, hsettled.ordered, hsettled.releasing, fun super => ?_⟩
  exact hreleases.keeps hordered (fun _ => takesBack_parked super) ((h.keeps super).relist _ _)

/-- **An effect that succeeds on the content of a super-tag, wherever that content is.** -/
theorem access_parked {α : Type} {effect : Effect (Lent Parked Memory) α} {effect' : Effect Memory α}
    {a : α} {bytes : Bytes}
    (halike : ∀ contents, Alike (fun (lent : Lent Parked Memory) (memory : Memory) =>
      lent.child.content = memory.content ∧ lent.factory.contentOf = contents) effect effect')
    (hresult : effect' ⟨kept super⟩ = .ok a ⟨bytes⟩) (h : Quiet owners router kept) :
    ∃ owners' router', access super effect router = .ok a router' ∧
      Quiet owners' router' (Function.update kept super bytes) := by
  obtain ⟨owners', outcome, router', haccess, haccesses⟩ := access_accesses h.settled super effect
  have hsettled := haccesses.settled h.settled
  rcases haccesses.keeps halike h.settled (fun victim _ _ => takesBack_parked victim) h.keeps with
    ⟨after, hrun, hkeeps⟩ | ⟨⟨e, factory, hopen, -⟩, -⟩
  · rw [attempt_apply, hresult] at hrun
    cases hrun
    exact ⟨owners', router', ok_of_attempt haccess, hsettled.ordered, hsettled.releasing, hkeeps⟩
  · cases hopen

end FramedStore.MultiStore
