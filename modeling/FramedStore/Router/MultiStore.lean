import FramedStore.Router.Children
import FramedStore.TagStore.Basic

/-!
# One tag store for each super-tag

Each super-tag has a child, a tag store in a storage of its own. At most `capacity` children are
open; when one more is needed, the one whose last use is longest ago is released.

The work is cut into sections, each of which happens at once even when several calls run side by
side: `find` looks a child up or opens it, `runOn` uses it, `handBack` releases it, and `forget`
ends its release. A child that was released between `find` and `runOn` is looked up again.
-/

namespace FramedStore

/-- A child that was opened. -/
structure Child (κ : Type) where
  storage : κ
  /-- Whether it has been handed back since. -/
  released : Bool := false

/-- The number of a child, in the order of opening. -/
abbrev ChildId := Nat

/-- A router with a tag store for each super-tag. -/
structure MultiStore (φ κ : Type) where
  factory : φ
  /-- The most children that are open. -/
  capacity : Nat
  capacity_pos : 0 < capacity
  /-- All children, by number. -/
  children : List (Child κ) := []
  /-- The open children by super-tag, the one used last in front. -/
  opened : List (String × ChildId) := []
  /-- The children that are being handed back. -/
  releasing : List (String × ChildId) := []

/-- What looking for the child of a super-tag comes to. -/
inductive Found
  | present (child : ChildId)
  /-- It is being handed back and cannot be opened yet. -/
  | pending
  /-- It was opened, and another child may have to be released for it. -/
  | opened (child : ChildId) (evicted : Option (String × ChildId))

namespace MultiStore

open Effect (Round scan)

variable {φ κ : Type} {α : Type}

/-- A router without open children. -/
def create (factory : φ) (capacity : Nat) : Except Error (MultiStore φ κ) :=
  if h : 0 < capacity then .ok { factory, capacity, capacity_pos := h }
  else .error (.config "max_open_children must be at least 1")

/-- A router over another factory in place of this one, none of whose children is open. -/
def restart (router : MultiStore φ κ) (factory : φ) : MultiStore φ κ :=
  { factory, capacity := router.capacity, capacity_pos := router.capacity_pos }

/-- The number of open children. -/
def openCount (router : MultiStore φ κ) : Nat := router.opened.length

/-- Whether the child of a super-tag is open. -/
def isOpen (router : MultiStore φ κ) (super : String) : Bool :=
  (router.opened.lookup super).isSome

/-! ### Bookkeeping -/

/-- The entry of a super-tag moved or put to the front. -/
def toFront (entry : String × ChildId) (entries : List (String × ChildId)) :
    List (String × ChildId) :=
  entry :: entries.filter (·.1 ≠ entry.1)

/-- The entry that has to go when one is added to a full list. -/
def victim? (router : MultiStore φ κ) : Option (String × ChildId) :=
  if router.opened.length < router.capacity then none else router.opened.getLast?

/-- Adds an opened child and starts the release of the victim. -/
def enter (router : MultiStore φ κ) (super : String) (storage : κ) : MultiStore φ κ :=
  let entry := (super, router.children.length)
  let children := router.children ++ [{ storage }]
  match router.victim? with
  | none => { router with children, opened := entry :: router.opened }
  | some victim =>
    { router with
      children
      opened := entry :: router.opened.dropLast
      releasing := toFront victim router.releasing }

/-- Replaces a child's state. -/
def setChild (router : MultiStore φ κ) (id : ChildId) (child : Child κ) : MultiStore φ κ :=
  { router with children := router.children.set id child }

/-! ### Sections -/

variable [ChildFactory φ κ]

/-- Runs an effect on a child and the factory. -/
def lend (id : ChildId) (child : Child κ) (effect : Effect (Lent φ κ) α) :
    Effect (MultiStore φ κ) α :=
  .within (fun router => ⟨router.factory, child.storage⟩)
    (fun lent router =>
      { router.setChild id { child with storage := lent.child } with factory := lent.factory })
    effect

/-- Finds the open child of a super-tag, which counts as a use, or opens it. -/
def find (super : String) : Effect (MultiStore φ κ) Found := do
  let router ← get
  match router.opened.lookup super with
  | some id =>
    set { router with opened := toFront (super, id) router.opened }
    return .present id
  | none =>
    if (router.releasing.lookup super).isSome then return .pending
    let storage ← Effect.within factory (fun factory router => { router with factory })
      (ChildFactory.openChild super)
    modify (·.enter super storage)
    return .opened router.children.length router.victim?

/-- Runs an effect on a child; `none` if it has been released. -/
def runOn (id : ChildId) (effect : Effect (Lent φ κ) α) : Effect (MultiStore φ κ) (Option α) := do
  match (← get).children[id]? with
  | none => return none
  | some child => if child.released then return none else some <$> lend id child effect

/-- Hands a child back to the factory. It is released even if the factory fails. -/
def handBack (super : String) (id : ChildId) : Effect (MultiStore φ κ) Unit := do
  match (← get).children[id]? with
  | none => return
  | some child => lend id { child with released := true } (ChildFactory.release super)

/-- Ends the release of a child. -/
def forget (super : String) (id : ChildId) : Effect (MultiStore φ κ) Unit :=
  modify fun router => { router with releasing := router.releasing.filter (· ≠ (super, id)) }

/-- Starts the release of all open children and gives them, the one used longest ago first. -/
def evictAll : Effect (MultiStore φ κ) (List (String × ChildId)) := do
  let router ← get
  let evicted := router.opened.reverse
  let releasing := evicted.foldl (fun list entry => toFront entry list) router.releasing
  set { router with opened := [], releasing }
  return evicted

/-! ### Calls -/

/-- Releases a child. -/
def release (super : String) (id : ChildId) : Effect (MultiStore φ κ) Unit := do
  let outcome ← (handBack super id).attempt
  forget super id
  .ofExcept outcome

/-- One round of `access`: finds the child, releases the one it displaces, and runs the effect. -/
def accessRound (super : String) (effect : Effect (Lent φ κ) α) (_ : Unit) :
    Effect (MultiStore φ κ) (Round Unit α) := do
  let id ← match ← find super with
    | .pending => return .again ()
    | .present id => pure id
    | .opened id none => pure id
    | .opened id (some (evicted, old)) => do
      let _ ← (release evicted old).attempt
      pure id
  match ← runOn id effect with
  | none => return .again ()
  | some answer => return .done answer

/-- Runs an effect on the child of a super-tag. -/
def access (super : String) (effect : Effect (Lent φ κ) α) : Effect (MultiStore φ κ) α :=
  scan (accessRound super effect) ()

/-- Releases children one after the other and gives the first error. -/
def releaseEach : List (String × ChildId) → Effect (MultiStore φ κ) (Option Error)
  | [] => return none
  | (super, id) :: rest => do
    let outcome ← (release super id).attempt
    let later ← releaseEach rest
    match outcome with
    | .error e => return some e
    | .ok () => return later

/-- Releases all open children; fails with the first error, but not before all are released. -/
def closeAll : Effect (MultiStore φ κ) Unit := do
  match ← releaseEach (← evictAll) with
  | none => return
  | some e => throw e

/-! ### Entries -/

/-- Puts an entry at the end in place of those under the same tags. -/
def put (super sub : String) (value : Bytes) : Effect (MultiStore φ κ) Bool :=
  access super (TagStore.put .byte sub value)

/-- Adds an entry at the end. -/
def push (super sub : String) (value : Bytes) : Effect (MultiStore φ κ) Unit :=
  access super (TagStore.push .byte sub value)

/-- The value of the first entry under the two tags. -/
def get? (super sub : String) : Effect (MultiStore φ κ) (Option Bytes) :=
  access super (TagStore.get? .byte sub)

/-- Removes the first entry under the two tags and gives its value. -/
def erase (super sub : String) : Effect (MultiStore φ κ) (Option Bytes) :=
  access super (TagStore.erase .byte sub)

/-- Whether there is an entry under the two tags. -/
def contains (super sub : String) : Effect (MultiStore φ κ) Bool :=
  access super (TagStore.contains .byte sub)

/-- The sub-tags under a super-tag, in order. -/
def subTags (super : String) : Effect (MultiStore φ κ) (List String) :=
  access super (TagStore.tags .byte)

/-- Removes all entries of a child and gives their number. -/
def clearChild : Effect (Lent φ κ) Nat := do
  let removed ← TagStore.size .byte
  TagStore.clear
  return removed

/-- Removes all entries under a super-tag and gives their number. -/
def clearSuper (super : String) : Effect (MultiStore φ κ) Nat :=
  access super clearChild

end MultiStore

end FramedStore
