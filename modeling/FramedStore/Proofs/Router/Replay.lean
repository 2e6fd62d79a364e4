import FramedStore.Proofs.Router.Contents
import FramedStore.Proofs.Router.Namespaces
import FramedStore.Proofs.Router.Turns

/-!
# Calls made one after the other

With a faithful factory a turn changes the content of a super-tag only by making a call on it, and the
call has the outcome that it has on a memory of that content (`Turned.keeps`, `Turned.outcome`). So the
content after a run is what the calls of the run make of it one after the other (`replay`).
-/

namespace FramedStore

open Effect
open TagStore (Answer)

/-- What comes of a call on the content of its super-tag, and the content after it. -/
def RouterCall.onContent (call : RouterCall) (memory : Memory) : Except Error Answer × Memory :=
  match call.onChild memory with
  | .ok answer memory => (.ok answer, memory)
  | .error e memory => (.error e, memory)

theorem RouterCall.onContent_of_attempt {call : RouterCall} {memory after : Memory}
    {outcome : Except Error Answer} (h : call.onChild.attempt memory = .ok outcome after) :
    call.onContent memory = (outcome, after) := by
  rw [attempt_apply] at h
  unfold onContent
  cases hrun : call.onChild memory with
  | ok answer after' =>
    rw [hrun] at h
    cases h
    rfl
  | error e after' =>
    rw [hrun] at h
    cases h
    rfl

namespace MultiStore

open FaithfulFactory

/-- The content of a super-tag after an event. -/
def Event.replay (super : String) (memory : Memory) : Event → Memory
  | .ran call _ _ => if call.super = super then (call.onContent memory).2 else memory
  | _ => memory

/-- The content of a super-tag after events. -/
def replay (super : String) (events : List Event) (memory : Memory) : Memory :=
  events.foldl (Event.replay super) memory

/-- Each child of a super-tag that was to be handed back was so without an error. -/
def Unharmed (super : String) (events : List Event) : Prop :=
  ∀ id e, .handedBack super id (.error e) ∉ events

variable {φ κ : Type} [ChildFactory φ κ] [FaithfulFactory φ κ]

/-- The content of a super-tag: that of its child which has not been handed back, or the parked one. -/
def contentOf (router : MultiStore φ κ) (super : String) : Bytes :=
  match (router.listed.lookup super).bind router.held? with
  | some storage => content φ storage
  | none => parked router.factory super

variable {owners : List String} {router router' : MultiStore φ κ} {thread thread' : Thread}
  {event : Event} {super : String} {bytes : Bytes} {call : RouterCall} {id : ChildId}

theorem Keeps.contentOf_eq (h : Keeps owners router super bytes) (hordered : Ordered owners router) :
    router.contentOf super = bytes := by
  unfold contentOf
  cases hlisted : router.listed.lookup super with
  | none =>
    have hnot := lookup_eq_none.mp hlisted
    exact h.away fun id howner => hordered.held?_of_not_mem hnot howner
  | some id =>
    have howner := hordered.listed_owned super id (mem_of_lookup hlisted)
    rw [Option.bind_some]
    cases hheld : router.held? id with
    | some storage => exact h.held id storage howner hheld
    | none =>
      -- an unlisted child would be the listed one
      refine h.away fun other hother => ?_
      rw [← Option.not_isSome_iff_eq_none]
      intro hsome
      have hother := hordered.mem_of_held hother hsome
      obtain rfl := eq_of_mem_supers hordered.listed_nodup hother (mem_of_lookup hlisted)
      rw [hheld] at hsome
      cases hsome

/-- A call on a child has the outcome that it has on a memory of the same content. -/
theorem onChild_faithful {lent lent' : Lent φ κ} {outcome : Except Error Answer}
    (h : call.onChild.attempt lent = .ok outcome lent') :
    call.onContent ⟨content φ lent.child⟩ = (outcome, ⟨content φ lent'.child⟩) ∧
      parked lent'.factory = parked lent.factory := by
  obtain ⟨⟨bytes⟩, hsame, hcontent, hparked⟩ :=
    (call.alike_onChild (alike_storage (φ := φ) (parked lent.factory))).attempt
      (t := ⟨content φ lent.child⟩) ⟨rfl, rfl⟩ h
  obtain rfl : content φ lent'.child = bytes := hcontent
  exact ⟨RouterCall.onContent_of_attempt hsame, hparked⟩

namespace Turned

/-- **A turn changes contents by its call alone.** -/
theorem keeps (hturned : Turned router thread event router' thread')
    (hordered : Ordered owners router) (hsound : thread.Sound owners router)
    (hkeeps : Keeps owners router super bytes) (hunharmed : Unharmed super [event]) :
    Keeps (owners ++ event.owner?.toList) router' super (event.replay super ⟨bytes⟩).content := by
  have hsame : event.owner? = none → owners ++ event.owner?.toList = owners := by
    intro hnone
    rw [hnone]
    exact List.append_nil owners
  cases hturned with
  | found =>
    rw [hsame rfl]
    exact hkeeps.relist _ _
  | waited | missed =>
    rw [hsame rfl]
    exact hkeeps
  | refused _ _ hopen =>
    rw [hsame rfl]
    exact hkeeps.withFactory (congrFun (openChild_error _ _ _ _ hopen) super)
  | opened _ _ hnot hopen => exact hkeeps.enter hordered hnot hopen
  | evicted | forgot =>
    rw [hsame rfl]
    exact hkeeps.relist _ _
  | @handedBack other id rest storage lent outcome hstage hheld hrelease =>
    have howed : (other, id) ∈ thread.stage.owed := by
      rw [hstage]
      exact List.mem_cons_self
    have howner := hordered.releasing_owned other id (hsound.owed other id howed).1
    rw [hsame rfl]
    rw [attempt_apply] at hrelease
    rcases hresult : (ChildFactory.release other : Effect (Lent φ κ) Unit)
      ⟨router.factory, storage⟩ with ⟨_, after⟩ | ⟨e, after⟩ <;>
      rw [hresult] at hrelease <;> cases hrelease
    · obtain ⟨hself, hothers⟩ := release_ok other _ _ hresult
      by_cases hsuper : super = other
      · subst hsuper
        exact hkeeps.handBack_self hordered howner hheld hself
      · exact hkeeps.afterLend_other howner hsuper (hothers super hsuper)
    · have hsuper : super ≠ other := by
        rintro rfl
        exact hunharmed id e List.mem_cons_self
      exact hkeeps.afterLend_other howner hsuper (release_error other _ _ e hresult super hsuper)
  | @ran call tasks id storage lent outcome hstage htasks hheld hcall =>
    have howner := hsound.owner (congrArg Stage.next? hstage) htasks
    obtain ⟨hcontent, hparked⟩ := onChild_faithful hcall
    rw [hsame rfl, Event.replay]
    split
    · next hsuper =>
      subst hsuper
      rw [← hkeeps.held id storage howner hheld, hcontent]
      exact Keeps.afterLend_self hordered howner (Option.isSome_of_eq_some hheld)
    · next hsuper =>
      exact hkeeps.afterLend_other howner (Ne.symm hsuper) (congrFun hparked super)

/-- A call has the outcome that it has on the content of its super-tag. -/
theorem outcome {outcome : Except Error Answer}
    (hturned : Turned router thread (.ran call id outcome) router' thread')
    (hsound : thread.Sound owners router) (hkeeps : Keeps owners router call.super bytes) :
    outcome = (call.onContent ⟨bytes⟩).1 := by
  cases hturned with
  | ran hstage htasks hheld hcall =>
    have howner := hsound.owner (congrArg Stage.next? hstage) htasks
    rw [← hkeeps.held _ _ howner hheld, (onChild_faithful hcall).1]

end Turned

end MultiStore

end FramedStore
