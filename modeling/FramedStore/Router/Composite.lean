import FramedStore.TagStore.Walk

/-!
# Namespaces inside one tag store

Entries are named by a super-tag and a sub-tag. Their joint tag is the text record of the super-tag
followed by the sub-tag; as a text record ends where it says, no joint tag belongs to two
super-tags.
-/

namespace FramedStore.Composite

/-- The joint tag of a super-tag and a sub-tag. -/
def join (super sub : String) : String := TextRecord.encode super ++ sub

/-- The super-tag and the sub-tag of a joint tag; `none` for the empty tag. -/
def split? (tag : String) : Except Error (Option (String × String)) :=
  match TextRecord.splitFirst? tag with
  | .ok parts => .ok parts
  | .error cause => .error (.malformed 0 cause)

/-- The sub-tag of a joint tag of `super`. -/
def subTag? (super tag : String) : Option String :=
  ((TextRecord.encode super).toList.isPrefixOf? tag.toList).map String.ofList

variable {σ : Type} [Storage σ] (framing : Framing)

/-! ### Entries -/

/-- Puts an entry at the end in place of those under the same tags. -/
def put (super sub : String) (value : Bytes) : Effect σ Bool :=
  TagStore.put framing (join super sub) value

/-- Adds an entry at the end. -/
def push (super sub : String) (value : Bytes) : Effect σ Unit :=
  TagStore.push framing (join super sub) value

/-- The value of the first entry under the two tags. -/
def get? (super sub : String) : Effect σ (Option Bytes) :=
  TagStore.get? framing (join super sub)

/-- Removes the first entry under the two tags and gives its value. -/
def erase (super sub : String) : Effect σ (Option Bytes) :=
  TagStore.erase framing (join super sub)

/-- Whether there is an entry under the two tags. -/
def contains (super sub : String) : Effect σ Bool :=
  TagStore.contains framing (join super sub)

/-! ### Namespaces -/

/-- The sub-tags under a super-tag, in order. -/
def subTags (super : String) : Effect σ (List String) := do
  return (← TagStore.tags framing).filterMap (subTag? super)

/-- Adds the super-tag of a tag to those seen so far. -/
def addSuper (seen : List String) (tag : String) : Except Error (List String) := do
  match ← split? tag with
  | none => return seen
  | some (super, _) => return if seen.contains super then seen else seen ++ [super]

/-- The super-tags in order of their first entry. -/
def superTags : Effect σ (List String) := do
  .ofExcept ((← TagStore.tags framing).foldlM addSuper [])

/-- Removes all entries under a super-tag and gives their number. -/
def clearSuper (super : String) : Effect σ Nat := do
  let seen ← Walk.run (Walk.sweep framing fun tag => (subTag? super tag).isSome)
  return seen.countP (·.2.isSome)

end FramedStore.Composite
