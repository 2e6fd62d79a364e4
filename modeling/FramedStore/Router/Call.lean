import FramedStore.Router.Composite
import FramedStore.Router.MultiStore
import FramedStore.TagStore.Call

/-!
# Router calls as data

The calls that both routers have, with their performance on each.
-/

namespace FramedStore

/-- A use of a router. -/
inductive RouterCall
  | put (super sub : String) (value : Bytes)
  | push (super sub : String) (value : Bytes)
  | get (super sub : String)
  | erase (super sub : String)
  | contains (super sub : String)
  | subTags (super : String)
  | clearSuper (super : String)
  deriving Repr, DecidableEq

/-- The super-tag of a call. -/
def RouterCall.super : RouterCall → String
  | put super _ _ | push super _ _ | get super _ | erase super _ | contains super _
  | subTags super | clearSuper super => super

/-- What a call does in the child of its super-tag. -/
def RouterCall.onChild {σ : Type} [Storage σ] : RouterCall → Effect σ TagStore.Answer
  | .put _ sub value => do return .flag (← TagStore.put .byte sub value)
  | .push _ sub value => do
    TagStore.push .byte sub value
    return .done
  | .get _ sub => do return .value (← TagStore.get? .byte sub)
  | .erase _ sub => do return .value (← TagStore.erase .byte sub)
  | .contains _ sub => do return .flag (← TagStore.contains .byte sub)
  | .subTags _ => do return .tags (← TagStore.tags .byte)
  | .clearSuper _ => do
    let removed ← TagStore.size .byte
    TagStore.clear
    return .count removed

/-- Makes a call on the namespaces of one tag store. -/
def Composite.perform {σ : Type} [Storage σ] (framing : Framing) :
    RouterCall → Effect σ TagStore.Answer
  | .put super sub value => do return .flag (← put framing super sub value)
  | .push super sub value => do
    push framing super sub value
    return .done
  | .get super sub => do return .value (← get? framing super sub)
  | .erase super sub => do return .value (← erase framing super sub)
  | .contains super sub => do return .flag (← contains framing super sub)
  | .subTags super => do return .tags (← subTags framing super)
  | .clearSuper super => do return .count (← clearSuper framing super)

/-- Makes a call on the child of its super-tag. -/
def MultiStore.perform {φ κ : Type} [ChildFactory φ κ] :
    RouterCall → Effect (MultiStore φ κ) TagStore.Answer
  | .put super sub value => do return .flag (← put super sub value)
  | .push super sub value => do
    push super sub value
    return .done
  | .get super sub => do return .value (← get? super sub)
  | .erase super sub => do return .value (← erase super sub)
  | .contains super sub => do return .flag (← contains super sub)
  | .subTags super => do return .tags (← subTags super)
  | .clearSuper super => do return .count (← clearSuper super)

/-- What a user of a router with a child for each super-tag does with it. -/
inductive MultiStore.Task
  | call (call : RouterCall)
  | closeAll
  deriving Repr, DecidableEq

/-- Does a task. -/
def MultiStore.performTask {φ κ : Type} [ChildFactory φ κ] :
    Task → Effect (MultiStore φ κ) TagStore.Answer
  | .call call => perform call
  | .closeAll => do
    closeAll
    return .done

end FramedStore
