import FramedStore.Proofs.Router.Machine
import FramedStore.Proofs.Router.Replay

/-!
# Threads between each other's sections

However the turns of threads on one router interleave, not too many children are open, a child is
opened only where all earlier ones of its super-tag have been handed back, and no call is made on a
child that has been handed back (`Safe`). With a faithful factory the content of each super-tag is what
its calls make of it one after the other, in the order in which they were made (`Serial`).
-/

namespace FramedStore.MultiStore.Machine

deriving instance DecidableEq for Event

variable {φ κ : Type} [ChildFactory φ κ]

/-! ### Results -/

/-- What no order of turns breaks. -/
structure Safe (capacity : Nat) (events : List Event) (machine : Machine φ κ) : Prop where
  openCount_le : machine.router.openCount ≤ capacity
  apart : ∀ super, machine.router.isOpen super → machine.router.releasing.lookup super = none
  out_unique : ∀ super id id', Out events super id → Out events super id' → id = id'
  /-- The router has the children that are out, and no others. -/
  held_iff : ∀ id, (machine.router.held? id).isSome ↔ ∃ super, Out events super id
  allowed : ∀ before event after, events = before ++ event :: after → Allowed before event

/-- Contents and outcomes are those of calls made one after the other. -/
structure Serial [FaithfulFactory φ κ] (factory : φ) (events : List Event) (machine : Machine φ κ) :
    Prop where
  content : ∀ super, Unharmed super events → machine.router.contentOf super =
    (replay super events ⟨FaithfulFactory.parked factory super⟩).content
  outcome : ∀ before call id outcome after, events = before ++ .ran call id outcome :: after →
    Unharmed call.super before → outcome = (call.onContent
      (replay call.super before ⟨FaithfulFactory.parked factory call.super⟩)).1

variable {capacity : Nat} {events : List Event} {event : Event} {machine next : Machine φ κ}
  {factory : φ} {programs : List (List Task)}

/-! ### Contents after a run -/

section Contents

open FaithfulFactory

variable [FaithfulFactory φ κ]

theorem keeps_step {super : String} {bytes : Bytes} (hcons : Consistent capacity events machine)
    (hstep : Step machine event next)
    (hkeeps : Keeps (owners events) machine.router super bytes) (hunharmed : Unharmed super [event]) :
    Keeps (owners (events ++ [event])) next.router super (event.replay super ⟨bytes⟩).content := by
  obtain ⟨number, thread, thread', hthread, hturned, -⟩ := hstep.turned hcons
  rw [owners_snoc]
  exact hturned.keeps hcons.ordered (hcons.sound hthread) hkeeps hunharmed

/-- **A run makes the calls on a super-tag one after the other.** -/
theorem keeps_run (hpos : 0 < capacity)
    (hrun : Run (Machine.start { factory, capacity, capacity_pos := hpos } programs) events machine)
    {super : String} (hunharmed : Unharmed super events) :
    Keeps (owners events) machine.router super
      (replay super events ⟨parked factory super⟩).content := by
  induction hrun with
  | nil => exact .start factory capacity hpos super
  | @snoc events event machine next hrun hstep ih =>
    have hbefore : Unharmed super events :=
      fun id e hmem => hunharmed id e (List.mem_append_left _ hmem)
    have hlast : Unharmed super [event] :=
      fun id e hmem => hunharmed id e (List.mem_append_right _ hmem)
    unfold replay
    rw [List.foldl_concat]
    exact keeps_step (.run hpos hrun) hstep (ih hbefore) hlast

end Contents

/-! ### Every order of turns -/

omit [ChildFactory φ κ] in
theorem Consistent.safe (h : Consistent capacity events machine)
    (hallowed : ∀ before event after, events = before ++ event :: after → Allowed before event) :
    Safe capacity events machine where
  openCount_le := h.capacity_eq ▸ h.ordered.openCount_le
  apart := by
    intro super hopen
    obtain ⟨id, hid⟩ := Option.isSome_iff_exists.mp hopen
    exact lookup_eq_none.mpr (h.ordered.apart (mem_supers.mpr ⟨id, mem_of_lookup hid⟩))
  out_unique := by
    intro super id id' hout hout'
    obtain ⟨howner, hheld⟩ := h.recorded.out_iff.mp hout
    obtain ⟨howner', hheld'⟩ := h.recorded.out_iff.mp hout'
    exact h.ordered.held_unique howner howner' hheld hheld'
  held_iff := by
    intro id
    constructor
    · intro hheld
      have hlt : id < (owners events).length := h.ordered.owners_length ▸ lt_length_of_held? hheld
      exact ⟨(owners events)[id], h.recorded.out_iff.mpr ⟨List.getElem?_eq_getElem hlt, hheld⟩⟩
    · rintro ⟨super, hout⟩
      exact (h.recorded.out_iff.mp hout).2
  allowed := hallowed

/-- **Every order of turns is safe, and with a faithful factory it is one of calls made one after the
other.** -/
theorem run_safe (factory : φ) (capacity : Nat) (hpos : 0 < capacity) (programs : List (List Task)) :
    ∃ router, create factory capacity = .ok router ∧
      ∀ events machine, Run (start router programs) events machine →
        Safe capacity events machine ∧ ∀ [FaithfulFactory φ κ], Serial factory events machine := by
  refine ⟨_, dif_pos hpos, fun events machine hrun => ⟨?_, ?_⟩⟩
  · refine (Consistent.run hpos hrun).safe fun before event after hsplit => ?_
    obtain ⟨middle, next, hbefore, hstep⟩ := hrun.split hsplit
    have hcons := Consistent.run hpos hbefore
    obtain ⟨number, thread, thread', hthread, hturned, -⟩ := hstep.turned hcons
    exact hturned.allowed hcons.recorded hcons.ordered (hcons.sound hthread)
  · intro _
    constructor
    · intro super hunharmed
      exact (keeps_run hpos hrun hunharmed).contentOf_eq (Consistent.run hpos hrun).ordered
    · intro before call id outcome after hsplit hunharmed
      obtain ⟨middle, next, hbefore, hstep⟩ := hrun.split hsplit
      have hcons := Consistent.run hpos hbefore
      obtain ⟨number, thread, thread', hthread, hturned, -⟩ := hstep.turned hcons
      exact hturned.outcome (hcons.sound hthread) (keeps_run hpos hbefore hunharmed)

/-- A run in which a call meets a child that has been handed back, and waits for its release, and in
which the factory refuses to open one child and to take another one back. -/
theorem run_safe_displaced :
    let factory : RestrictedParked := { parked := {}, sealed := ["c"], stuck := ["b"] }
    let programs : List (List Task) :=
      [[.call (.put "a" "x" [1]), .call (.get "a" "x")], [.call (.put "b" "y" [2]), .closeAll],
        [.call (.get "c" "z")]]
    let events : List Event :=
      [.opened "a" 0, .ran (.put "a" "x" [1]) 0 (.ok (.flag false)), .found "a" 0, .opened "b" 1,
        .handedBack "a" 0 (.ok ()), .missed (.get "a" "x") 0, .waited "a", .forgot "a" 0,
        .opened "a" 2, .ran (.put "b" "y" [2]) 1 (.ok (.flag false)),
        .handedBack "b" 1 (.error (.io (.other "injected release b"))), .forgot "b" 1,
        .refused "c" (.io (.other "injected open c")), .evicted [("a", 2)],
        .ran (.get "a" "x") 2 (.ok (.value (some [1]))), .handedBack "a" 2 (.ok ()), .forgot "a" 2]
    0 < 1 ∧ ∃ router, create factory 1 = .ok router ∧ ∃ machine,
      Run (start router programs) events machine ∧ Safe 1 events machine ∧
        Serial factory events machine := by
  intro factory programs events
  obtain ⟨router, hrouter, hsafe⟩ := run_safe factory 1 (by decide) programs
  have hstart : router = { factory, capacity := 1, capacity_pos := by decide } := by
    cases hrouter
    rfl
  have hfollow : ((start router programs).follow
      [0, 0, 0, 1, 1, 0, 0, 1, 0, 1, 0, 0, 2, 1, 0, 1, 1]).map (·.1) = some events := by
    rw [hstart]
    decide +kernel
  obtain ⟨⟨made, machine⟩, hmachine, rfl⟩ := Option.map_eq_some_iff.mp hfollow
  have hrun : Run (start router programs) events machine := Run.nil.follow hmachine
  obtain ⟨hsafe, hserial⟩ := hsafe events machine hrun
  exact ⟨by decide, router, hrouter, machine, hrun, hsafe, hserial⟩

end FramedStore.MultiStore.Machine
