import FramedStore.TagStore.Basic

/-!
# Walks through a tag store

A walk visits the entries of a tag store one after the other. The entry visited last can be removed,
and the walk goes on with the entry that followed it. After an error there are no more entries. A
`Call` names one use of a walk and an `Answer` is what it gives.
-/

namespace FramedStore

/-- A storage and how far a walk through it has come. -/
structure Walk (σ : Type) where
  storage : σ
  /-- The start of the next pair. -/
  offset : Nat := 0
  /-- The start of the pair visited last, if it can be removed. -/
  current : Option Nat := none
  /-- Whether the walk has ended with an error. -/
  failed : Bool := false

namespace Walk

variable {σ : Type} {α : Type}

/-- Runs an effect on the storage of the walk. -/
def onStorage (effect : Effect σ α) : Effect (Walk σ) α :=
  .within storage (fun storage walk => { walk with storage }) effect

variable [Storage σ] (framing : Framing)

/-- The pair at an offset with its entry. -/
def look? (offset : Nat) : Effect σ (Option (PairBounds × Entry)) := do
  match ← TagStore.pairAt? framing offset with
  | none => return none
  | some pair => return some (pair, ← TagStore.readPair pair)

/-- The next entry; `none` behind the last one and after an error. -/
def next? : Effect (Walk σ) (Option Entry) := do
  let walk ← get
  if walk.failed then return none
  set { walk with current := none }
  match ← (onStorage (look? framing walk.offset)).attempt with
  | .error e =>
    modify ({ · with failed := true })
    throw e
  | .ok none => return none
  | .ok (some (pair, entry)) =>
    modify ({ · with current := some pair.start, offset := pair.stop })
    return some entry

/-- Removes the entry visited last; tells whether there was one to remove. -/
def removeCurrent : Effect (Walk σ) Bool := do
  let walk ← get
  match walk.current with
  | none => return false
  | some start =>
    set { walk with current := none }
    onStorage (Storage.delete start walk.offset)
    modify ({ · with offset := start })
    return true

/-- One round of `sweep`: visits an entry and removes it if its tag is chosen. -/
def sweepRound (chosen : String → Bool) (seen : List (Entry × Option Bool)) :
    Effect (Walk σ) (Effect.Round (List (Entry × Option Bool)) (List (Entry × Option Bool))) := do
  match ← next? framing with
  | none => return .done seen.reverse
  | some entry =>
    if chosen entry.1 then return .again ((entry, some (← removeCurrent)) :: seen)
    else return .again ((entry, none) :: seen)

/-- Visits all entries and removes those whose tag is chosen; gives the entries, and what
`removeCurrent` told of the chosen ones. -/
def sweep (chosen : String → Bool) : Effect (Walk σ) (List (Entry × Option Bool)) :=
  Effect.scan (sweepRound framing chosen) []

/-- Runs an effect on a walk that starts at the front of a storage. -/
def run (effect : Effect (Walk σ) α) : Effect σ α := fun storage =>
  match effect { storage } with
  | .ok a walk => .ok a walk.storage
  | .error e walk => .error e walk.storage

/-! ### Calls as data -/

/-- A use of a walk. -/
inductive Call
  | next
  | remove
  | offset
  deriving Repr, DecidableEq

/-- What a call on a walk gives. -/
inductive Answer
  | entry (entry : Option Entry)
  | flag (b : Bool)
  | offset (n : Nat)
  deriving Repr, DecidableEq

/-- Makes a call. -/
def perform : Call → Effect (Walk σ) Answer
  | .next => do return .entry (← next? framing)
  | .remove => do return .flag (← removeCurrent)
  | .offset => do return .offset (← get).offset

end Walk

end FramedStore
