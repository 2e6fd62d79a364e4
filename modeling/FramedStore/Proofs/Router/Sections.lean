import FramedStore.Proofs.Effect.Loop
import FramedStore.Proofs.Lookup
import FramedStore.Router.MultiStore
import Mathlib.Data.List.Nodup

/-!
# The sections of a router

What each section comes to, in terms of the children that have not been handed back (`held?`).
-/

namespace FramedStore.MultiStore

open Effect

variable {φ κ α : Type}

/-! ### Lists by super-tag -/

section Lists

variable {super : String} {id : ChildId} {entry : String × ChildId}
  {entries more : List (String × ChildId)}

/-- The super-tags of a list. -/
def supers (entries : List (String × ChildId)) : List String := entries.map (·.1)

theorem mem_supers : super ∈ supers entries ↔ ∃ id, (super, id) ∈ entries := by
  simp [supers]

theorem lookup_eq_none : entries.lookup super = none ↔ super ∉ supers entries := by
  rw [List.lookup_eq_none_iff, mem_supers]
  constructor
  · rintro h ⟨id, hid⟩
    simpa using h _ hid
  · rintro h ⟨other, id⟩ hid
    rw [bne_iff_ne]
    rintro rfl
    exact h ⟨id, hid⟩

/-- A super-tag occurs once. -/
theorem eq_of_mem_supers {id' : ChildId} (hnodup : (supers entries).Nodup)
    (h : (super, id) ∈ entries) (h' : (super, id') ∈ entries) : id = id' := by
  have heq := List.inj_on_of_nodup_map hnodup h h' rfl
  exact congrArg Prod.snd heq

theorem lookup_of_mem (hnodup : (supers entries).Nodup) (h : (super, id) ∈ entries) :
    entries.lookup super = some id := by
  cases hlookup : entries.lookup super with
  | none => exact absurd (mem_supers.mpr ⟨id, h⟩) (lookup_eq_none.mp hlookup)
  | some other => rw [eq_of_mem_supers hnodup h (mem_of_lookup hlookup)]

theorem toFront_eq_cons (h : entry.1 ∉ supers entries) : toFront entry entries = entry :: entries := by
  unfold toFront
  congr 1
  refine List.filter_eq_self.mpr fun other hother => ?_
  rw [decide_eq_true_iff]
  intro heq
  exact h (heq ▸ List.mem_map_of_mem hother)

theorem toFront_perm (hnodup : (supers entries).Nodup) (h : entry ∈ entries) :
    (toFront entry entries).Perm entries := by
  obtain ⟨before, after, rfl⟩ := List.append_of_mem h
  have hmiddle : (before ++ entry :: after).Perm (entry :: (before ++ after)) := List.perm_middle
  have hothers := (hmiddle.map Prod.fst).nodup_iff.mp hnodup
  rw [List.map_cons, List.nodup_cons] at hothers
  have hkept : (entry :: (before ++ after)).filter (·.1 ≠ entry.1) = before ++ after := by
    rw [List.filter_cons_of_neg (by simp), List.filter_eq_self]
    intro other hother
    rw [decide_eq_true_iff]
    intro heq
    exact hothers.1 (heq ▸ List.mem_map_of_mem hother)
  have hfilter := hmiddle.filter (·.1 ≠ entry.1)
  rw [hkept] at hfilter
  exact (hfilter.cons entry).trans hmiddle.symm

theorem foldl_toFront (hnodup : (supers (entries ++ more)).Nodup) :
    entries.reverse.foldl (fun list entry => toFront entry list) more = entries ++ more := by
  induction entries with
  | nil => rfl
  | cons entry entries ih =>
    rw [List.cons_append, supers, List.map_cons, List.nodup_cons] at hnodup
    rw [List.reverse_cons, List.foldl_append, ih hnodup.2, List.foldl_cons, List.foldl_nil,
      toFront_eq_cons hnodup.1]
    rfl

end Lists

/-! ### Children -/

/-- The children that are open or being handed back. -/
def listed (router : MultiStore φ κ) : List (String × ChildId) := router.opened ++ router.releasing

/-- The storage of a child that has not been handed back. -/
def held? (router : MultiStore φ κ) (id : ChildId) : Option κ :=
  match router.children[id]? with
  | some child => if child.released then none else some child.storage
  | none => none

/-- A router after an effect on a child and the factory. -/
def afterLend (router : MultiStore φ κ) (id : ChildId) (child : Child κ) (factory : φ) :
    MultiStore φ κ :=
  { router.setChild id child with factory }

section Children

variable {router : MultiStore φ κ} {id other : ChildId} {storage : κ} {child : Child κ}
  {factory : φ}

theorem held?_eq_some : router.held? id = some storage ↔
    router.children[id]? = some { storage } := by
  unfold held?
  rcases hchild : router.children[id]? with _ | ⟨storage', released⟩
  · simp
  · cases released <;> simp

theorem lt_length_of_held? (h : (router.held? id).isSome) : id < router.children.length := by
  obtain ⟨storage, hstorage⟩ := Option.isSome_iff_exists.mp h
  exact (List.getElem?_eq_some_iff.mp (held?_eq_some.mp hstorage)).1

theorem held?_afterLend_self (h : id < router.children.length) :
    (router.afterLend id child factory).held? id =
      if child.released then none else some child.storage := by
  unfold held? afterLend setChild
  rw [List.getElem?_set_self h]

theorem held?_afterLend_ne (h : other ≠ id) :
    (router.afterLend id child factory).held? other = router.held? other := by
  unfold held? afterLend setChild
  rw [List.getElem?_set_ne h.symm]

end Children

section Enter

variable (router : MultiStore φ κ) (super : String) (storage : κ)

theorem enter_children :
    (router.enter super storage).children = router.children ++ [Child.mk storage false] := by
  unfold enter
  split <;> rfl

theorem held?_enter_self : (router.enter super storage).held? router.children.length = some storage := by
  rw [held?_eq_some, enter_children, List.getElem?_concat_length]

theorem held?_enter_ne {id : ChildId} (h : id ≠ router.children.length) :
    (router.enter super storage).held? id = router.held? id := by
  unfold held?
  rw [enter_children]
  by_cases hlt : id < router.children.length
  · rw [List.getElem?_append_left hlt]
  · have hnew : (router.children ++ [Child.mk storage false]).length ≤ id := by
      rw [List.length_append, List.length_singleton]
      exact Nat.lt_of_le_of_ne (Nat.le_of_not_lt hlt) h.symm
    rw [List.getElem?_eq_none hnew, List.getElem?_eq_none (Nat.le_of_not_lt hlt)]

theorem enter_factory : (router.enter super storage).factory = router.factory := by
  unfold enter
  split <;> rfl

theorem enter_capacity : (router.enter super storage).capacity = router.capacity := by
  unfold enter
  split <;> rfl

end Enter

theorem mem_of_victim? {router : MultiStore φ κ} {entry : String × ChildId} (h : router.victim? = some entry) :
    entry ∈ router.opened := by
  unfold victim? at h
  split at h
  · cases h
  · exact List.mem_of_getLast? h

/-! ### What a section comes to -/

section Cases

variable (router : MultiStore φ κ)

theorem lend_apply (id : ChildId) (child : Child κ) (effect : Effect (Lent φ κ) α) :
    lend id child effect router = match effect ⟨router.factory, child.storage⟩ with
      | .ok a lent => .ok a (router.afterLend id { child with storage := lent.child } lent.factory)
      | .error e lent =>
        .error e (router.afterLend id { child with storage := lent.child } lent.factory) := by
  unfold lend
  rw [within_apply]
  cases effect ⟨router.factory, child.storage⟩ <;> rfl

theorem runOn_none {id : ChildId} (effect : Effect (Lent φ κ) α) (h : router.held? id = none) :
    runOn id effect router = .ok none router := by
  unfold held? at h
  unfold runOn
  rw [bind_ok (get_apply router)]
  rcases hchild : router.children[id]? with _ | child
  · rfl
  · rw [hchild] at h
    cases hreleased : child.released with
    | true => simp [hreleased]
    | false => simp [hreleased] at h

theorem runOn_some {id : ChildId} {storage : κ} (effect : Effect (Lent φ κ) α)
    (h : router.held? id = some storage) :
    runOn id effect router = match effect ⟨router.factory, storage⟩ with
      | .ok a lent => .ok (some a) (router.afterLend id { storage := lent.child } lent.factory)
      | .error e lent => .error e (router.afterLend id { storage := lent.child } lent.factory) := by
  unfold runOn
  rw [bind_ok (get_apply router), held?_eq_some.mp h]
  show (some <$> lend id { storage } effect) router = _
  rw [map_eq_pure_bind, bind_apply, lend_apply]
  cases effect ⟨router.factory, storage⟩ <;> rfl

theorem forget_apply (super : String) (id : ChildId) :
    forget super id router =
      .ok () { router with releasing := router.releasing.filter (· ≠ (super, id)) } := rfl

variable [ChildFactory φ κ]

/-- A look for a child finds it, waits for it, or opens it. -/
theorem find_cases (super : String) :
    (∃ id, (super, id) ∈ router.opened ∧ find super router =
        .ok (.present id) { router with opened := toFront (super, id) router.opened }) ∨
    (super ∉ supers router.opened ∧ super ∈ supers router.releasing ∧
      find super router = .ok .pending router) ∨
    super ∉ supers router.listed ∧
      ((∃ e factory, ChildFactory.openChild super router.factory = .error e factory ∧
          find super router = .error e { router with factory }) ∨
        ∃ storage factory, ChildFactory.openChild super router.factory = .ok storage factory ∧
          find super router = .ok (.opened router.children.length router.victim?)
            ({ router with factory }.enter super storage)) := by
  unfold find
  rw [bind_ok (get_apply router)]
  rcases hopened : router.opened.lookup super with _ | id
  · have hsuper := lookup_eq_none.mp hopened
    rcases hreleasing : router.releasing.lookup super with _ | old
    · have hnot : super ∉ supers router.listed := by
        rw [listed, supers, List.map_append, List.mem_append, not_or]
        exact ⟨hsuper, lookup_eq_none.mp hreleasing⟩
      refine .inr (.inr ⟨hnot, ?_⟩)
      rcases hchild : (ChildFactory.openChild super : Effect φ κ) router.factory with
        ⟨storage, factory⟩ | ⟨e, factory⟩
      · have hwithin : Effect.within MultiStore.factory (fun factory router => { router with factory })
            (ChildFactory.openChild super) router = .ok storage { router with factory } := by
          rw [within_apply, hchild]
        exact .inr ⟨storage, factory, rfl, bind_ok hwithin⟩
      · have hwithin : Effect.within MultiStore.factory (fun factory router => { router with factory })
            (ChildFactory.openChild super) router = .error e { router with factory } := by
          rw [within_apply, hchild]
        exact .inl ⟨e, factory, rfl, bind_error hwithin⟩
    · refine .inr (.inl ⟨hsuper, ?_, rfl⟩)
      exact mem_supers.mpr ⟨old, mem_of_lookup hreleasing⟩
  · exact .inl ⟨id, mem_of_lookup hopened, rfl⟩

theorem handBack_some {super : String} {id : ChildId} {storage : κ}
    (h : router.held? id = some storage) :
    handBack super id router = match ChildFactory.release super ⟨router.factory, storage⟩ with
      | .ok () lent =>
        .ok () (router.afterLend id { storage := lent.child, released := true } lent.factory)
      | .error e lent =>
        .error e (router.afterLend id { storage := lent.child, released := true } lent.factory) := by
  unfold handBack
  rw [bind_ok (get_apply router), held?_eq_some.mp h]
  show lend id { storage, released := true } (ChildFactory.release super) router = _
  rw [lend_apply]
  cases (ChildFactory.release super : Effect (Lent φ κ) Unit) ⟨router.factory, storage⟩ <;> rfl

end Cases

/-! ### Releases -/

section Releases

variable [ChildFactory φ κ] {router router' mid : MultiStore φ κ} {super : String} {id : ChildId}

theorem release_of_handBack {outcome : Except Error Unit}
    (hback : (handBack super id).attempt router = .ok outcome mid) :
    (release super id).attempt router =
      .ok outcome { mid with releasing := mid.releasing.filter (· ≠ (super, id)) } := by
  rw [attempt_apply]
  unfold release
  rw [bind_ok hback, bind_ok (forget_apply mid super id)]
  cases outcome <;> rfl

/-- A release leaves the other children alone. -/
theorem held?_release {other : ChildId} {outcome : Except Error Unit}
    (hheld : (router.held? id).isSome) (hother : other ≠ id)
    (hrelease : (release super id).attempt router = .ok outcome mid) :
    mid.held? other = router.held? other := by
  obtain ⟨storage, hstorage⟩ := Option.isSome_iff_exists.mp hheld
  have hattempt := attempt_apply router (handBack (φ := φ) super id)
  rw [handBack_some router hstorage] at hattempt
  rcases hresult : (ChildFactory.release super : Effect (Lent φ κ) Unit) ⟨router.factory, storage⟩
    with ⟨_, lent⟩ | ⟨e, lent⟩
  all_goals
    have hstays : (router.afterLend id { storage := lent.child, released := true }
        lent.factory).held? other = router.held? other := held?_afterLend_ne hother
    rw [hresult] at hattempt
    rw [release_of_handBack hattempt] at hrelease
    cases hrelease
    exact hstays

theorem releaseEach_cons {pending : List (String × ChildId)} {outcome : Except Error Unit}
    {later : Option Error} :
    (release super id).attempt router = .ok outcome mid →
    releaseEach pending mid = .ok later router' →
    releaseEach ((super, id) :: pending) router =
      .ok (match outcome with | .ok () => later | .error e => some e) router' := by
  intro hrelease hrest
  rw [releaseEach, bind_ok hrelease, bind_ok hrest]
  cases outcome <;> rfl

theorem exists_releaseEach (pending : List (String × ChildId)) (router : MultiStore φ κ) :
    ∃ failure router', releaseEach pending router = .ok failure router' := by
  induction pending generalizing router with
  | nil => exact ⟨none, router, rfl⟩
  | cons entry pending ih =>
    obtain ⟨outcome, mid, hrelease⟩ := exists_attempt router (release entry.1 entry.2)
    obtain ⟨later, router', hrest⟩ := ih mid
    exact ⟨_, _, releaseEach_cons hrelease hrest⟩

end Releases

end FramedStore.MultiStore
