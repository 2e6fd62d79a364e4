import FramedStore.Storage.Basic

/-!
# Storage calls as data

A `Call` names one use of a storage with its arguments and an `Answer` is what it gives, so that
runs of calls can be lists.
-/

namespace FramedStore.Storage

/-- A use of a storage. -/
inductive Call
  | size
  | slice (start stop : Nat)
  | getAll
  | setAll (content : Bytes)
  | append (added : Bytes)
  | set (start : Nat) (patch : Bytes)
  | delete (start stop : Nat)
  | insert (position : Nat) (added : Bytes)
  | clear
  | sync
  | close
  deriving Repr, DecidableEq

/-- What a storage call gives. -/
inductive Answer
  | done
  | size (count : Nat)
  | bytes (content : Bytes)
  deriving Repr, DecidableEq

variable {σ : Type} [Storage σ]

/-- A call without result. -/
def andDone (call : Effect σ Unit) : Effect σ Answer := do
  call
  return .done

/-- Makes a call. -/
def perform : Call → Effect σ Answer
  | .size => do return .size (← Storage.size)
  | .slice start stop => do return .bytes (← Storage.slice start stop)
  | .getAll => do return .bytes (← Storage.getAll)
  | .setAll content => andDone (Storage.setAll content)
  | .append added => andDone (Storage.append added)
  | .set start patch => andDone (Storage.set start patch)
  | .delete start stop => andDone (Storage.delete start stop)
  | .insert position added => andDone (Storage.insert position added)
  | .clear => andDone Storage.clear
  | .sync => andDone Storage.sync
  | .close => andDone Storage.close

end FramedStore.Storage
