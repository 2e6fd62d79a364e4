import FramedStore.Storage.Memory

/-!
# Storage with the required calls only

`Restricted` defines the required calls and takes the definitions that come with `Storage` for all
others. It can be told to refuse calls, and to refuse slices above a length.
-/

namespace FramedStore

/-- The required calls of a storage. -/
inductive StorageCall
  | size | slice | setAll | append | set | delete
  deriving Repr, DecidableEq

/-- The name of a call in messages. -/
def StorageCall.name : StorageCall → String
  | size => "size"
  | slice => "slice"
  | setAll => "set_all"
  | append => "append"
  | set => "set"
  | delete => "delete"

/-- The call of a name. -/
def StorageCall.named? (name : String) : Option StorageCall :=
  [size, slice, setAll, append, set, delete].find? (·.name = name)

/-- A storage in memory that may refuse calls. -/
structure Restricted where
  memory : Memory := {}
  /-- The calls that are refused. -/
  refused : List StorageCall := []
  /-- The length above which slices are refused. -/
  sliceLimit : Option Nat := none
  deriving Repr, DecidableEq, Inhabited

namespace Restricted

/-- Fails if `call` is one of the refused calls. -/
def checkCall (call : StorageCall) : Effect Restricted Unit := do
  if (← get).refused.contains call then
    throw (.io (.other ("injected " ++ call.name)))

/-- Fails if a slice is above the limit. -/
def checkSlice (start stop : Nat) : Effect Restricted Unit := do
  match (← get).sliceLimit with
  | some limit => if limit < stop - start then throw (.io (.other "slice too long"))
  | none => pure ()

/-- Runs an effect on the memory. -/
def onMemory {α : Type} (effect : Effect Memory α) : Effect Restricted α :=
  .within memory (fun memory state => { state with memory }) effect

instance : Storage Restricted where
  size := do
    checkCall .size
    onMemory Storage.size
  slice start stop := do
    checkCall .slice
    checkSlice start stop
    onMemory (Storage.slice start stop)
  setAll bytes := do
    checkCall .setAll
    onMemory (Storage.setAll bytes)
  append bytes := do
    checkCall .append
    onMemory (Storage.append bytes)
  set start bytes := do
    checkCall .set
    onMemory (Storage.set start bytes)
  delete start stop := do
    checkCall .delete
    onMemory (Storage.delete start stop)

end Restricted

end FramedStore
