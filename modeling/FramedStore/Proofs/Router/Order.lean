import FramedStore.Proofs.Router.Sections

/-!
# The order of a router's children

Every section keeps the order of the children (`Ordered`): not too many are open, no super-tag is both
open and being handed back, and a child that has not been handed back is one or the other. So no
super-tag has two of them (`Ordered.held_unique`).
-/

namespace FramedStore.MultiStore

variable {φ κ : Type}

theorem owner_concat {owners : List String} {super other : String} {id : ChildId} :
    (owners ++ [super])[id]? = some other ↔
      owners[id]? = some other ∨ id = owners.length ∧ super = other := by
  rcases Nat.lt_trichotomy id owners.length with hlt | heq | hgt
  · have hne : id ≠ owners.length := Nat.ne_of_lt hlt
    rw [List.getElem?_append_left hlt]
    simp [hne]
  · subst heq
    rw [List.getElem?_concat_length]
    simp
  · have hne : id ≠ owners.length := Nat.ne_of_gt hgt
    have hlong : (owners ++ [super]).length ≤ id := by
      rw [List.length_append]
      exact hgt
    rw [List.getElem?_eq_none hlong, List.getElem?_eq_none (Nat.le_of_lt hgt)]
    simp [hne]

/-- The order that a router keeps. The owner of a child is the super-tag that it was opened for. -/
structure Ordered (owners : List String) (router : MultiStore φ κ) : Prop where
  owners_length : owners.length = router.children.length
  openCount_le : router.openCount ≤ router.capacity
  /-- No super-tag is open twice, or being handed back twice, or both open and being handed back. -/
  listed_nodup : (supers router.listed).Nodup
  listed_owned : ∀ super id, (super, id) ∈ router.listed → owners[id]? = some super
  held_of_opened : ∀ super id, (super, id) ∈ router.opened → (router.held? id).isSome
  /-- A child that has not been handed back is open, or is being handed back. -/
  held_listed : ∀ id, (router.held? id).isSome → ∃ super, (super, id) ∈ router.listed

namespace Ordered

variable {owners : List String} {router : MultiStore φ κ} {super : String} {id : ChildId}
  {storage : κ} {factory : φ}

theorem opened_held (h : Ordered owners router) (super : String) (id : ChildId)
    (hid : (super, id) ∈ router.opened) : owners[id]? = some super ∧ (router.held? id).isSome :=
  ⟨h.listed_owned super id (List.mem_append_left _ hid), h.held_of_opened super id hid⟩

theorem releasing_owned (h : Ordered owners router) (super : String) (id : ChildId)
    (hid : (super, id) ∈ router.releasing) : owners[id]? = some super :=
  h.listed_owned super id (List.mem_append_right _ hid)

theorem opened_nodup (h : Ordered owners router) : (supers router.opened).Nodup :=
  h.listed_nodup.sublist ((List.sublist_append_left _ _).map _)

/-- No super-tag is both open and being handed back. -/
theorem apart (h : Ordered owners router) (hopened : super ∈ supers router.opened) :
    super ∉ supers router.releasing := by
  have hnodup := h.listed_nodup
  rw [listed, supers, List.map_append, List.nodup_append] at hnodup
  exact fun hreleasing => hnodup.2.2 super hopened super hreleasing rfl

/-- A held child is listed under its owner. -/
theorem mem_of_held (h : Ordered owners router) (howner : owners[id]? = some super)
    (hheld : (router.held? id).isSome) : (super, id) ∈ router.listed := by
  obtain ⟨found, hfound⟩ := h.held_listed id hheld
  obtain rfl : found = super := by
    simpa [howner] using (h.listed_owned found id hfound).symm
  exact hfound

theorem not_mem_opened_of_releasing (h : Ordered owners router)
    (hid : (super, id) ∈ router.releasing) (other : String) : (other, id) ∉ router.opened := by
  intro hopened
  have howner := h.releasing_owned super id hid
  obtain rfl : other = super := by
    simpa [howner] using (h.opened_held other id hopened).1.symm
  exact h.apart (mem_supers.mpr ⟨id, hopened⟩) (mem_supers.mpr ⟨id, hid⟩)

/-- **No super-tag has two children that have not been handed back.** -/
theorem held_unique (h : Ordered owners router) {id' : ChildId} (howner : owners[id]? = some super)
    (howner' : owners[id']? = some super) (hheld : (router.held? id).isSome)
    (hheld' : (router.held? id').isSome) : id = id' :=
  eq_of_mem_supers h.listed_nodup (h.mem_of_held howner hheld) (h.mem_of_held howner' hheld')

/-- A super-tag that is not listed has no child that has not been handed back. -/
theorem held?_of_not_mem (h : Ordered owners router) (hnot : super ∉ supers router.listed)
    (howner : owners[id]? = some super) : router.held? id = none := by
  rw [← Option.not_isSome_iff_eq_none]
  exact fun hheld => hnot (mem_supers.mpr ⟨id, h.mem_of_held howner hheld⟩)

theorem start (factory : φ) (capacity : Nat) (hpos : 0 < capacity) :
    Ordered [] ({ factory, capacity, capacity_pos := hpos } : MultiStore φ κ) where
  owners_length := rfl
  openCount_le := Nat.zero_le _
  listed_nodup := List.nodup_nil
  listed_owned := by simp [listed]
  held_of_opened := by simp
  held_listed := by simp [held?]

theorem withFactory (h : Ordered owners router) (factory : φ) :
    Ordered owners { router with factory } :=
  ⟨h.owners_length, h.openCount_le, h.listed_nodup, h.listed_owned, h.held_of_opened, h.held_listed⟩

/-- A use moves a child to the front. -/
theorem hit (h : Ordered owners router) (hid : (super, id) ∈ router.opened) :
    Ordered owners { router with opened := toFront (super, id) router.opened } := by
  have hperm := toFront_perm h.opened_nodup hid
  have hlisted : (listed { router with opened := toFront (super, id) router.opened }).Perm
      router.listed := hperm.append_right router.releasing
  refine ⟨h.owners_length, ?_, ?_, ?_, ?_, ?_⟩
  · exact Nat.le_trans (Nat.le_of_eq hperm.length_eq) h.openCount_le
  · exact (hlisted.map _).nodup_iff.mpr h.listed_nodup
  · intro other old hold
    exact h.listed_owned other old (hlisted.mem_iff.mp hold)
  · intro other old hold
    exact h.held_of_opened other old (hperm.mem_iff.mp hold)
  · intro old hold
    obtain ⟨other, hother⟩ := h.held_listed old hold
    exact ⟨other, hlisted.mem_iff.mpr hother⟩

/-- A child keeps its storage when another one is opened. -/
theorem held?_enter (h : Ordered owners router) (howner : owners[id]? = some super)
    (other : String) (storage : κ) : (router.enter other storage).held? id = router.held? id := by
  have hlt := (List.getElem?_eq_some_iff.mp howner).1
  rw [h.owners_length] at hlt
  exact held?_enter_ne router other storage (Nat.ne_of_lt hlt)

/-- The victim comes from the end of the open children, and no child of its super-tag was being
handed back. -/
theorem enter_lists (h : Ordered owners router) (super : String) (storage : κ) :
    ∃ kept, router.opened = kept ++ router.victim?.toList ∧ kept.length < router.capacity ∧
      (router.enter super storage).opened = (super, router.children.length) :: kept ∧
      (router.enter super storage).releasing = router.victim?.toList ++ router.releasing := by
  have hcount : router.opened.length ≤ router.capacity := h.openCount_le
  by_cases hroom : router.opened.length < router.capacity
  · have hvictim : router.victim? = none := if_pos hroom
    unfold enter
    rw [hvictim]
    exact ⟨router.opened, (List.append_nil _).symm, hroom, rfl, rfl⟩
  · have hpos := router.capacity_pos
    have hne : router.opened ≠ [] := by
      intro hnil
      rw [hnil] at hroom
      exact hroom hpos
    have hsplit : router.opened.dropLast ++ [router.opened.getLast hne] = router.opened :=
      List.dropLast_append_getLast hne
    have hvictim : router.victim? = some (router.opened.getLast hne) :=
      (if_neg hroom).trans (List.getLast?_eq_some_getLast hne)
    have hlast : (router.opened.getLast hne).1 ∉ supers router.releasing :=
      h.apart (List.mem_map_of_mem (List.getLast_mem hne))
    unfold enter
    rw [hvictim]
    refine ⟨router.opened.dropLast, hsplit.symm, ?_, rfl, toFront_eq_cons hlast⟩
    rw [List.length_dropLast]
    omega

/-- A child is opened for a super-tag that is not listed. -/
theorem enter (h : Ordered owners router) (hnot : super ∉ supers router.listed) (storage : κ) :
    Ordered (owners ++ [super]) (router.enter super storage) := by
  obtain ⟨kept, hsplit, hroom, hopened, hreleasing⟩ := h.enter_lists super storage
  have hlisted : (router.enter super storage).listed =
      (super, router.children.length) :: router.listed := by
    rw [listed, listed, hopened, hreleasing, hsplit, List.cons_append, List.append_assoc]
  refine ⟨?_, ?_, ?_, ?_, ?_, ?_⟩
  · rw [enter_children, List.length_append, List.length_append, h.owners_length]
    rfl
  · rw [openCount, hopened, enter_capacity, List.length_cons]
    exact hroom
  · rw [hlisted]
    exact List.nodup_cons.mpr ⟨hnot, h.listed_nodup⟩
  · intro other old hold
    rw [hlisted, List.mem_cons] at hold
    rw [owner_concat, h.owners_length]
    rcases hold with heq | hold
    · obtain ⟨rfl, rfl⟩ := Prod.mk.inj heq
      exact .inr ⟨rfl, rfl⟩
    · exact .inl (h.listed_owned other old hold)
  · intro other old hold
    by_cases heq : old = router.children.length
    · rw [heq, held?_enter_self]
      rfl
    · rw [held?_enter_ne router super storage heq]
      rw [hopened, List.mem_cons] at hold
      rcases hold with hold | hold
      · exact absurd (congrArg Prod.snd hold) heq
      · exact h.held_of_opened other old (hsplit ▸ List.mem_append_left _ hold)
  · intro old hheld
    rw [hlisted]
    by_cases heq : old = router.children.length
    · exact ⟨super, heq ▸ List.mem_cons_self⟩
    · rw [held?_enter_ne router super storage heq] at hheld
      obtain ⟨other, hother⟩ := h.held_listed old hheld
      exact ⟨other, List.mem_cons_of_mem _ hother⟩

/-- An effect on a child that stays held. -/
theorem runOn (h : Ordered owners router) (hheld : (router.held? id).isSome) (storage : κ)
    (factory : φ) : Ordered owners (router.afterLend id { storage } factory) := by
  have hsame : ∀ old, ((router.afterLend id { storage } factory).held? old).isSome ↔
      (router.held? old).isSome := by
    intro old
    by_cases heq : old = id
    · rw [heq, held?_afterLend_self (lt_length_of_held? hheld)]
      exact ⟨fun _ => hheld, fun _ => rfl⟩
    · rw [held?_afterLend_ne heq]
  refine ⟨?_, h.openCount_le, h.listed_nodup, h.listed_owned, ?_, ?_⟩
  · rw [h.owners_length]
    exact List.length_set.symm
  · intro other old hold
    exact (hsame old).mpr (h.held_of_opened other old hold)
  · intro old hold
    exact h.held_listed old ((hsame old).mp hold)

/-- A child that is not open is handed back. -/
theorem handBack (h : Ordered owners router) (hnot : ∀ super, (super, id) ∉ router.opened)
    (storage : κ) (factory : φ) :
    Ordered owners (router.afterLend id { storage, released := true } factory) := by
  refine ⟨?_, h.openCount_le, h.listed_nodup, h.listed_owned, ?_, ?_⟩
  · rw [h.owners_length]
    exact List.length_set.symm
  · intro other old hold
    have hne : old ≠ id := by
      rintro rfl
      exact hnot other hold
    rw [held?_afterLend_ne hne]
    exact h.held_of_opened other old hold
  · intro old hold
    by_cases heq : old = id
    · subst heq
      unfold held? afterLend setChild at hold
      simp only [List.getElem?_set_self'] at hold
      cases hchild : router.children[old]? with
      | none => simp [hchild] at hold
      | some child => simp [hchild] at hold
    · rw [held?_afterLend_ne heq] at hold
      exact h.held_listed old hold

/-- The release of a child that has been handed back ends. -/
theorem forget (h : Ordered owners router) (hheld : router.held? id = none) :
    Ordered owners
      { router with releasing := router.releasing.filter (· ≠ (super, id)) } := by
  have hsub : (listed { router with
      releasing := router.releasing.filter (· ≠ (super, id)) }).Sublist router.listed :=
    List.Sublist.append_left List.filter_sublist router.opened
  refine ⟨h.owners_length, h.openCount_le, h.listed_nodup.sublist (hsub.map _), ?_,
    h.held_of_opened, ?_⟩
  · intro other old hold
    exact h.listed_owned other old (hsub.subset hold)
  · intro old hold
    obtain ⟨other, hother⟩ := h.held_listed old hold
    refine ⟨other, ?_⟩
    rcases List.mem_append.mp hother with hopened | hreleasing
    · exact List.mem_append_left _ hopened
    · refine List.mem_append_right _ (List.mem_filter.mpr ⟨hreleasing, ?_⟩)
      rw [decide_eq_true_iff]
      intro heq
      have hid : old = id := congrArg Prod.snd heq
      have hsome : (router.held? old).isSome := hold
      rw [hid, hheld] at hsome
      cases hsome

/-- All open children start to be handed back. -/
theorem evictAll (h : Ordered owners router) :
    MultiStore.evictAll router = .ok router.opened.reverse
        { router with opened := [], releasing := router.listed } ∧
      Ordered owners { router with opened := [], releasing := router.listed } := by
  have happly : MultiStore.evictAll router = .ok router.opened.reverse
      { router with
        opened := []
        releasing := router.opened.reverse.foldl (fun list entry => toFront entry list)
          router.releasing } := rfl
  rw [foldl_toFront h.listed_nodup] at happly
  exact ⟨happly, h.owners_length, Nat.zero_le _, h.listed_nodup, h.listed_owned,
    fun _ _ hold => absurd hold List.not_mem_nil, h.held_listed⟩

end Ordered

end FramedStore.MultiStore
