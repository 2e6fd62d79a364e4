import FramedStore.TagStore.Basic

/-!
# Tag store calls as data

A `Call` names one use of a tag store with its arguments and an `Answer` is what it gives.
-/

namespace FramedStore.TagStore

/-- A use of a tag store. -/
inductive Call
  | put (tag : String) (value : Bytes)
  | push (tag : String) (value : Bytes)
  | get (tag : String)
  | erase (tag : String)
  | contains (tag : String)
  | size
  | isEmpty
  | tags
  | entries
  | clear
  deriving Repr, DecidableEq

/-- What a call on a tag store or router gives. -/
inductive Answer
  | done
  | flag (b : Bool)
  | value (bytes : Option Bytes)
  | count (n : Nat)
  | tags (list : List String)
  | entries (list : List Entry)
  deriving Repr, DecidableEq

variable {σ : Type} [Storage σ]

/-- Makes a call. -/
def perform (framing : Framing) : Call → Effect σ Answer
  | .put tag value => do return .flag (← put framing tag value)
  | .push tag value => do
    push framing tag value
    return .done
  | .get tag => do return .value (← get? framing tag)
  | .erase tag => do return .value (← erase framing tag)
  | .contains tag => do return .flag (← contains framing tag)
  | .size => do return .count (← size framing)
  | .isEmpty => do return .flag (← isEmpty framing)
  | .tags => do return .tags (← tags framing)
  | .entries => do return .entries (← entries framing)
  | .clear => do
    clear
    return .done

end FramedStore.TagStore
