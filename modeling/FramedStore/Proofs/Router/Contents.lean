import FramedStore.Proofs.Router.Faithful
import FramedStore.Proofs.Router.Order

/-!
# The content of a super-tag

With a faithful factory each section keeps the content of every super-tag, whether it is in a child or
parked (`Keeps`), but for an effect on the child of that super-tag.
-/

namespace FramedStore.MultiStore

open FaithfulFactory

variable {φ κ : Type} [ChildFactory φ κ] [FaithfulFactory φ κ]

/-- A super-tag has a content: in its child that has not been handed back, or parked. -/
structure Keeps (owners : List String) (router : MultiStore φ κ) (super : String)
    (bytes : Bytes) : Prop where
  held : ∀ id storage, owners[id]? = some super → router.held? id = some storage →
    content φ storage = bytes
  away : (∀ id, owners[id]? = some super → router.held? id = none) →
    parked router.factory super = bytes

namespace Keeps

variable {owners : List String} {router : MultiStore φ κ} {super other : String} {id : ChildId}
  {bytes : Bytes} {storage : κ} {factory : φ}

theorem start (factory : φ) (capacity : Nat) (hpos : 0 < capacity) (super : String) :
    Keeps [] ({ factory, capacity, capacity_pos := hpos } : MultiStore φ κ) super
      (parked factory super) where
  held := by simp
  away := fun _ => rfl

/-- Nothing happens to contents where the lists of children change. -/
theorem relist (h : Keeps owners router super bytes) (opened releasing : List (String × ChildId)) :
    Keeps owners { router with opened, releasing } super bytes :=
  ⟨h.held, h.away⟩

theorem withFactory (h : Keeps owners router super bytes)
    (hsame : parked factory super = parked router.factory super) :
    Keeps owners { router with factory } super bytes :=
  ⟨h.held, fun haway => hsame.trans (h.away haway)⟩

theorem enter (h : Keeps owners router other bytes) (hordered : Ordered owners router)
    (hnot : super ∉ supers router.listed)
    (hopen : ChildFactory.openChild super router.factory = .ok storage factory) :
    Keeps (owners ++ [super]) ({ router with factory }.enter super storage) other bytes := by
  obtain ⟨hcontent, hothers⟩ := openChild_ok super router.factory factory storage hopen
  have hself := held?_enter_self { router with factory } super storage
  have hnew : (owners ++ [super])[router.children.length]? = some super :=
    owner_concat.mpr (.inr ⟨hordered.owners_length.symm, rfl⟩)
  have hsame : ∀ id, owners[id]? = some other →
      ({ router with factory }.enter super storage).held? id = router.held? id :=
    fun id howner => (hordered.withFactory factory).held?_enter howner super storage
  by_cases hsuper : super = other
  · subst hsuper
    have hnone : ∀ id, owners[id]? = some super → router.held? id = none :=
      fun id howner => hordered.held?_of_not_mem hnot howner
    constructor
    · intro id found howner hheld
      rcases owner_concat.mp howner with howner | ⟨rfl, -⟩
      · rw [hsame id howner, hnone id howner] at hheld
        cases hheld
      · rw [hordered.owners_length, hself] at hheld
        obtain rfl := Option.some.inj hheld
        rw [hcontent]
        exact h.away hnone
    · intro haway
      have hgone := haway _ hnew
      rw [hself] at hgone
      cases hgone
  · constructor
    · intro id found howner hheld
      rcases owner_concat.mp howner with howner | ⟨-, heq⟩
      · exact h.held id found howner (hsame id howner ▸ hheld)
      · exact absurd heq hsuper
    · intro haway
      rw [enter_factory, hothers other (Ne.symm hsuper)]
      refine h.away fun id howner => ?_
      rw [← hsame id howner]
      exact haway id (owner_concat.mpr (.inl howner))

/-- An effect on the child of a super-tag leaves the other super-tags alone. -/
theorem afterLend_other {child : Child κ} (h : Keeps owners router other bytes)
    (howner : owners[id]? = some super) (hother : other ≠ super)
    (hsame : parked factory other = parked router.factory other) :
    Keeps owners (router.afterLend id child factory) other bytes := by
  have hheld : ∀ old, owners[old]? = some other →
      (router.afterLend id child factory).held? old = router.held? old := by
    intro old hold
    refine held?_afterLend_ne ?_
    rintro rfl
    rw [howner] at hold
    exact hother (Option.some.inj hold).symm
  constructor
  · intro old found hold hfound
    exact h.held old found hold (hheld old hold ▸ hfound)
  · intro haway
    refine hsame.trans (h.away fun old hold => ?_)
    rw [← hheld old hold]
    exact haway old hold

/-- An effect on the child of a super-tag is one on its content. -/
theorem afterLend_self (hordered : Ordered owners router) (howner : owners[id]? = some super)
    (hheld : (router.held? id).isSome) :
    Keeps owners (router.afterLend id { storage } factory) super (content φ storage) := by
  have hself : (router.afterLend id { storage } factory).held? id = some storage :=
    held?_afterLend_self (lt_length_of_held? hheld)
  constructor
  · intro old found hold hfound
    by_cases heq : old = id
    · rw [heq, hself] at hfound
      rw [Option.some.inj hfound]
    · rw [held?_afterLend_ne heq] at hfound
      have hsome : (router.held? old).isSome := by
        rw [hfound]
        rfl
      exact absurd (hordered.held_unique hold howner hsome hheld) heq
  · intro haway
    rw [haway id howner] at hself
    cases hself

/-- A child is handed back with the content that it has. -/
theorem handBack_self (h : Keeps owners router super bytes) (hordered : Ordered owners router)
    (howner : owners[id]? = some super) {found : κ} (hheld : router.held? id = some found)
    (hparked : parked factory super = content φ found) :
    Keeps owners (router.afterLend id { storage, released := true } factory) super bytes := by
  have hsome : (router.held? id).isSome := by
    rw [hheld]
    rfl
  have hself : (router.afterLend id { storage, released := true } factory).held? id = none :=
    held?_afterLend_self (lt_length_of_held? hsome)
  constructor
  · intro old storage' hold hstorage
    by_cases heq : old = id
    · rw [heq, hself] at hstorage
      cases hstorage
    · rw [held?_afterLend_ne heq] at hstorage
      have hsome' : (router.held? old).isSome := by
        rw [hstorage]
        rfl
      exact absurd (hordered.held_unique hold howner hsome' hsome) heq
  · intro _
    exact hparked.trans (h.held id found howner hheld)

end Keeps

end FramedStore.MultiStore
