import FramedStore.Proofs.Router.Turns

/-!
# What has happened on a router

The events of the turns so far tell which children there are, for which super-tags they were opened,
and which of them have been handed back (`Recorded`). So what happens in a turn can be judged by what
happened before it (`Turned.allowed`): a child is opened only where all earlier ones of its super-tag
have been handed back, and no call is made on a child that has been handed back.
-/

namespace FramedStore.MultiStore

/-- The super-tags of the children in the order of opening. -/
def owners (events : List Event) : List String := events.filterMap Event.owner?

/-- A child has been opened and not been handed back. -/
def Out (events : List Event) (super : String) (id : ChildId) : Prop :=
  .opened super id ∈ events ∧ ∀ outcome, .handedBack super id outcome ∉ events

/-- What may happen after some events: a child is opened only where none of the super-tag is out, and
a call is made on one that is out. -/
def Allowed (events : List Event) : Event → Prop
  | .opened super _ | .refused super _ => ∀ id, ¬ Out events super id
  | .ran call id _ => Out events call.super id
  | _ => True

variable {φ κ : Type} [ChildFactory φ κ]

/-- The events so far tell which children there are, and which of them have been handed back. -/
structure Recorded (events : List Event) (router : MultiStore φ κ) : Prop where
  opened_iff : ∀ super id, .opened super id ∈ events ↔ (owners events)[id]? = some super
  handedBack_iff : ∀ super id, (∃ outcome, .handedBack super id outcome ∈ events) ↔
    (owners events)[id]? = some super ∧ router.held? id = none

variable {events : List Event} {event : Event} {router router' : MultiStore φ κ}
  {thread thread' : Thread} {super : String} {id : ChildId}

theorem owners_snoc (events : List Event) (event : Event) :
    owners (events ++ [event]) = owners events ++ event.owner?.toList := by
  rw [owners, owners, List.filterMap_append]
  rfl

omit [ChildFactory φ κ] in
theorem Recorded.out_iff (h : Recorded events router) :
    Out events super id ↔ (owners events)[id]? = some super ∧ (router.held? id).isSome := by
  have hback := h.handedBack_iff super id
  unfold Out
  rw [h.opened_iff, ← not_exists, hback, Option.isSome_iff_ne_none]
  tauto

/-- A turn gives an owner to the child that it opens. -/
theorem owner_iff (hturned : Turned router thread event router' thread')
    (hordered : Ordered (owners events) router) :
    (owners (events ++ [event]))[id]? = some super ↔
      (owners events)[id]? = some super ∨ event = .opened super id := by
  rw [owners_snoc]
  cases event with
  | opened opener fresh =>
    have hfresh := hturned.opened_fresh
    rw [Event.owner?, Option.toList_some, owner_concat, hordered.owners_length, ← hfresh]
    refine or_congr_right ?_
    constructor
    · rintro ⟨rfl, rfl⟩
      rfl
    · rintro heq
      cases heq
      exact ⟨rfl, rfl⟩
  | _ => simp [Event.owner?]

/-- **The events tell of the children also after a turn.** -/
theorem Recorded.turned (h : Recorded events router)
    (hturned : Turned router thread event router' thread')
    (hordered : Ordered (owners events) router) (hsound : thread.Sound (owners events) router) :
    Recorded (events ++ [event]) router' := by
  constructor
  · intro super id
    rw [owner_iff hturned hordered, List.mem_append, h.opened_iff, List.mem_singleton]
    exact or_congr_right eq_comm
  · intro super id
    constructor
    · rintro ⟨outcome, hback⟩
      rw [List.mem_append, List.mem_singleton] at hback
      rcases hback with hback | rfl
      · obtain ⟨howner, hheld⟩ := (h.handedBack_iff super id).mp ⟨outcome, hback⟩
        rw [owners_snoc]
        exact hturned.held?_eq_none hordered howner hheld
      · have howed := hsound.owed super id hturned.mem_owed_of_handedBack
        rw [owner_iff hturned hordered, ← Option.not_isSome_iff_eq_none, hturned.held_iff]
        refine ⟨.inl (hordered.releasing_owned super id howed.1), ?_⟩
        rintro ⟨-, hnot⟩
        exact hnot super outcome rfl
    · rintro ⟨howner, hheld⟩
      rw [owner_iff hturned hordered] at howner
      rw [← Option.not_isSome_iff_eq_none, hturned.held_iff] at hheld
      rcases howner with howner | rfl
      · rcases hold : router.held? id with _ | storage
        · obtain ⟨outcome, hback⟩ := (h.handedBack_iff super id).mpr ⟨howner, hold⟩
          exact ⟨outcome, List.mem_append_left _ hback⟩
        · rw [hold] at hheld
          have hback : ∃ other outcome, event = .handedBack other id outcome := by
            by_contra hnot
            refine hheld ⟨.inr rfl, fun other outcome heq => hnot ⟨other, outcome, heq⟩⟩
          obtain ⟨other, outcome, rfl⟩ := hback
          have howed := hsound.owed other id hturned.mem_owed_of_handedBack
          have howner' := hordered.releasing_owned other id howed.1
          rw [howner] at howner'
          obtain rfl := Option.some.inj howner'
          exact ⟨outcome, List.mem_append_right _ List.mem_cons_self⟩
      · exact absurd ⟨.inl ⟨super, rfl⟩, nofun⟩ hheld

/-- **What happens in a turn is allowed.** -/
theorem Turned.allowed (hturned : Turned router thread event router' thread')
    (h : Recorded events router) (hordered : Ordered (owners events) router)
    (hsound : thread.Sound (owners events) router) : Allowed events event := by
  have hnone : ∀ super, super ∉ supers router.listed → ∀ id, ¬ Out events super id := by
    intro super hnot id hout
    obtain ⟨howner, hheld⟩ := h.out_iff.mp hout
    rw [hordered.held?_of_not_mem hnot howner] at hheld
    cases hheld
  cases hturned with
  | found | waited | evicted | handedBack | forgot | missed => trivial
  | refused _ hnot => exact hnone _ hnot
  | opened _ _ hnot => exact hnone _ hnot
  | ran hstage htasks hheld =>
    have howner := hsound.owner (congrArg Stage.next? hstage) htasks
    exact h.out_iff.mpr ⟨howner, Option.isSome_of_eq_some hheld⟩

end FramedStore.MultiStore
