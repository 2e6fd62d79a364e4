import FramedStore.Router.Call

/-!
# Threads on one router

Several threads share a router, and each has its own tasks. In a turn a thread does one section of the
router's work, so that the turns of other threads can stand between any two of its sections. A thread
that finds the child of its call being handed back looks again in a later turn.
-/

namespace FramedStore.MultiStore

open TagStore (Answer)

/-- What happens in a turn. -/
inductive Event
  /-- The open child of a super-tag was found. -/
  | found (super : String) (id : ChildId)
  /-- The child of a super-tag was still being handed back. -/
  | waited (super : String)
  /-- The factory opened a child, which may have displaced another one. -/
  | opened (super : String) (id : ChildId)
  /-- The factory did not open a child. -/
  | refused (super : String) (e : Error)
  /-- All open children started to be handed back. -/
  | evicted (children : List (String × ChildId))
  /-- A child was handed back to the factory. -/
  | handedBack (super : String) (id : ChildId) (outcome : Except Error Unit)
  /-- The release of a child ended. -/
  | forgot (super : String) (id : ChildId)
  /-- A call was made on a child. -/
  | ran (call : RouterCall) (id : ChildId) (outcome : Except Error Answer)
  /-- A call met a child that had been handed back. -/
  | missed (call : RouterCall) (id : ChildId)

/-- What a thread has to do after the release that it is in. -/
structure Rest where
  /-- The children that it has to release after this one. -/
  pending : List (String × ChildId)
  /-- The child of its call; if there is none, its task is done with the releases. -/
  next : Option ChildId
  /-- The first error of the releases. -/
  failure : Option Error

/-- Keeps the first error of the releases. -/
def Rest.note (rest : Rest) : Except Error Unit → Rest
  | .ok () => rest
  | .error e => { rest with failure := rest.failure.or (some e) }

/-- Where a thread stands in its first task. -/
inductive Stage
  /-- At its start, or at the start of another try. -/
  | ready
  /-- It has to hand a child back. -/
  | handing (super : String) (id : ChildId) (rest : Rest)
  /-- It has handed a child back. -/
  | forgetting (super : String) (id : ChildId) (rest : Rest)
  /-- It has the child of its call. -/
  | holding (id : ChildId)

/-- A user of a router among others. -/
structure Thread where
  /-- What it still has to do. -/
  tasks : List Task
  stage : Stage := .ready
  /-- What came of the tasks that it has done. -/
  outcomes : List (Except Error Answer) := []

namespace Thread

/-- Its first task is done. -/
def finish (thread : Thread) (outcome : Except Error Answer) : Thread where
  tasks := thread.tasks.tail
  outcomes := thread.outcomes ++ [outcome]

/-- Goes on with the next release, or behind the last one. -/
def goOn (thread : Thread) (rest : Rest) : Thread :=
  match rest.pending, rest.next with
  | (super, id) :: pending, _ => { thread with stage := .handing super id { rest with pending } }
  | [], some id => { thread with stage := .holding id }
  | [], none => thread.finish (match rest.failure with
    | none => .ok .done
    | some e => .error e)

variable {φ κ : Type} [ChildFactory φ κ]

/-- One turn; `none` if there is nothing to do. -/
def turn (thread : Thread) : Effect (MultiStore φ κ) (Option (Event × Thread)) :=
  match thread.stage, thread.tasks with
  | .ready, .call call :: _ => do
    match ← (find call.super).attempt with
    | .ok (.present id) => return some (.found call.super id, { thread with stage := .holding id })
    | .ok .pending => return some (.waited call.super, thread)
    | .ok (.opened id evicted) =>
      return some (.opened call.super id, thread.goOn ⟨evicted.toList, some id, none⟩)
    | .error e => return some (.refused call.super e, thread.finish (.error e))
  | .ready, .closeAll :: _ => do
    let evicted ← evictAll
    return some (.evicted evicted, thread.goOn ⟨evicted, none, none⟩)
  | .handing super id rest, _ => do
    let outcome ← (handBack super id).attempt
    return some (.handedBack super id outcome,
      { thread with stage := .forgetting super id (rest.note outcome) })
  | .forgetting super id rest, _ => do
    forget super id
    return some (.forgot super id, thread.goOn rest)
  | .holding id, .call call :: _ => do
    match ← (runOn id call.onChild).attempt with
    | .ok none => return some (.missed call id, { thread with stage := .ready })
    | .ok (some answer) => return some (.ran call id (.ok answer), thread.finish (.ok answer))
    | .error e => return some (.ran call id (.error e), thread.finish (.error e))
  | _, _ => return none

end Thread

/-- A router and the threads that share it. -/
structure Machine (φ κ : Type) where
  router : MultiStore φ κ
  threads : List Thread

namespace Machine

variable {φ κ : Type} [ChildFactory φ κ]

/-- A router without children, and threads that have done nothing. -/
def start (router : MultiStore φ κ) (programs : List (List Task)) : Machine φ κ where
  router
  threads := programs.map fun tasks => { tasks }

/-- A turn of the thread with a given number; `none` if it has nothing to do. -/
def turn (machine : Machine φ κ) (number : Nat) : Option (Event × Machine φ κ) :=
  match machine.threads[number]? with
  | none => none
  | some thread => match thread.turn machine.router with
    | .ok (some (event, thread)) router =>
      some (event, ⟨router, machine.threads.set number thread⟩)
    | _ => none

/-- A turn of some thread. -/
def Step (machine : Machine φ κ) (event : Event) (next : Machine φ κ) : Prop :=
  ∃ number, machine.turn number = some (event, next)

/-- Turns in any order, with what happened in them. -/
inductive Run (start : Machine φ κ) : List Event → Machine φ κ → Prop
  | nil : Run start [] start
  | snoc {events : List Event} {event : Event} {machine next : Machine φ κ} :
    Run start events machine → Step machine event next → Run start (events ++ [event]) next

/-- The turns of the threads with given numbers, one after the other. -/
def follow (machine : Machine φ κ) : List Nat → Option (List Event × Machine φ κ)
  | [] => some ([], machine)
  | number :: numbers => do
    let (event, next) ← machine.turn number
    let (events, last) ← next.follow numbers
    return (event :: events, last)

end Machine

end FramedStore.MultiStore
