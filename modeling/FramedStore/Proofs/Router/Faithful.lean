import FramedStore.Proofs.Effect.Alike
import FramedStore.Proofs.Lookup
import FramedStore.Proofs.Storage.Memory
import FramedStore.Proofs.TagStore.Alike
import FramedStore.Router.Children

/-!
# Faithful factories

A faithful factory opens a child with the content that the child of the same super-tag was last
released with (`FaithfulFactory`). The factories of children in memory are faithful, also the one that
refuses to open or to release some of them.
-/

namespace FramedStore

open Effect

/-- A factory whose children are memories, with the contents of the children that are parked. It may
refuse to open or to release a child. -/
class FaithfulFactory (φ : Type) (κ : outParam Type) [ChildFactory φ κ] where
  content : κ → Bytes
  parked : φ → String → Bytes
  openChild_ok (super : String) (factory factory' : φ) (child : κ) :
    ChildFactory.openChild super factory = .ok child factory' →
      content child = parked factory super ∧
        ∀ other, other ≠ super → parked factory' other = parked factory other
  openChild_error (super : String) (factory factory' : φ) (e : Error) :
    (ChildFactory.openChild super : Effect φ κ) factory = .error e factory' →
      parked factory' = parked factory
  alike_storage (kept : String → Bytes) :
    Storage.Alike fun (lent : Lent φ κ) (memory : Memory) =>
      content lent.child = memory.content ∧ parked lent.factory = kept
  release_ok (super : String) (lent lent' : Lent φ κ) :
    ChildFactory.release super lent = .ok () lent' →
      parked lent'.factory super = content lent.child ∧
        ∀ other, other ≠ super → parked lent'.factory other = parked lent.factory other
  release_error (super : String) (lent lent' : Lent φ κ) (e : Error) :
    ChildFactory.release super lent = .error e lent' →
      ∀ other, other ≠ super → parked lent'.factory other = parked lent.factory other

/-! ### Children in memory -/

/-- A storage in the child of a factory is a memory, and the factory is left alone. -/
theorem Lent.alike_child {φ : Type} (parked : φ → String → Bytes) (kept : String → Bytes) :
    @Storage.Alike (Lent φ Memory) Memory (.inPart Lent.child (fun child lent => { lent with child }))
      _ fun lent memory => lent.child.content = memory.content ∧ parked lent.factory = kept := by
  have hrelation : (fun (lent : Lent φ Memory) (memory : Memory) =>
      lent.child.content = memory.content ∧ parked lent.factory = kept) =
      fun lent memory => lent.child = memory ∧ parked lent.factory = kept := by
    funext ⟨factory, ⟨content⟩⟩ ⟨bytes⟩
    rw [Memory.mk.injEq]
  rw [hrelation]
  have hwithin : ∀ {α : Type} (x : Effect Memory α),
      Alike (fun (lent : Lent φ Memory) memory => lent.child = memory ∧ parked lent.factory = kept)
        (.within Lent.child (fun child lent => { lent with child }) x) x :=
    fun x => .within (fun _ _ => rfl) (fun _ _ h => h) (.refl x)
  exact @Storage.Alike.mk _ _ (.inPart Lent.child (fun child lent => { lent with child })) _ _
    (hwithin _) (fun _ _ => hwithin _) (fun _ => hwithin _) (fun _ _ => hwithin _) (hwithin _)

namespace Parked

/-- The content that a child is opened with. -/
def contentOf (parked : Parked) (super : String) : Bytes :=
  (parked.contents.lookup super).getD []

theorem release_apply (super : String) (parked : Parked) (memory : Memory) :
    release super ⟨parked, memory⟩ =
      .ok () ⟨⟨(super, memory.content) :: (parked.without super).contents⟩, ⟨[]⟩⟩ := rfl

theorem contentOf_without {super other : String} (h : other ≠ super) (parked : Parked) :
    (parked.without super).contentOf other = parked.contentOf other :=
  congrArg (Option.getD · []) (lookup_filter_ne h)

theorem contentOf_cons_self (super : String) (content : Bytes)
    (contents : List (String × Bytes)) :
    contentOf ⟨(super, content) :: contents⟩ super = content := by
  rw [contentOf, List.lookup_cons_self]
  rfl

theorem contentOf_cons_ne {super other : String} (h : other ≠ super) (content : Bytes)
    (contents : List (String × Bytes)) :
    contentOf ⟨(super, content) :: contents⟩ other = contentOf ⟨contents⟩ other :=
  congrArg (Option.getD · []) (lookup_cons_ne h)

/-- A release parks the content of the child, and no other. -/
theorem release_ok {super : String} {lent lent' : Lent Parked Memory}
    (h : release super lent = .ok () lent') :
    lent'.factory.contentOf super = lent.child.content ∧
      ∀ other, other ≠ super → lent'.factory.contentOf other = lent.factory.contentOf other := by
  obtain ⟨factory, memory⟩ := lent
  rw [release_apply] at h
  cases h
  refine ⟨contentOf_cons_self super _ _, fun other hother => ?_⟩
  rw [contentOf_cons_ne hother]
  exact contentOf_without hother factory

instance : FaithfulFactory Parked Memory where
  content := Memory.content
  parked := contentOf
  openChild_ok super factory factory' child h := by
    cases h
    exact ⟨rfl, fun other hother => contentOf_without hother factory⟩
  openChild_error super factory factory' e h := by
    cases h
  alike_storage := Lent.alike_child contentOf
  release_ok super lent lent' h := release_ok h
  release_error super lent lent' e h := by
    obtain ⟨factory, memory⟩ := lent
    cases h

end Parked

/-! ### Children that refuse -/

namespace RestrictedParked

theorem openChild_sealed {super : String} {state : RestrictedParked}
    (h : state.sealed.contains super) :
    openChild super state = .error (.io (.other ("injected open " ++ super))) state := by
  unfold openChild
  rw [bind_ok (get_apply state), if_pos h]
  rfl

theorem openChild_apply {super : String} {state : RestrictedParked}
    (h : ¬ state.sealed.contains super) :
    openChild super state = .ok ⟨state.parked.contentOf super⟩
      { state with parked := state.parked.without super } := by
  unfold openChild
  rw [bind_ok (get_apply state), if_neg h]
  rfl

theorem release_stuck {super : String} {lent : Lent RestrictedParked Memory}
    (h : lent.factory.stuck.contains super) :
    release super lent = .error (.io (.other ("injected release " ++ super))) lent := by
  unfold release
  rw [bind_ok (get_apply lent), if_pos h]
  rfl

theorem release_apply {super : String} {lent : Lent RestrictedParked Memory}
    (h : ¬ lent.factory.stuck.contains super) :
    release super lent = .ok () ⟨{ lent.factory with
      parked := ⟨(super, lent.child.content) :: (lent.factory.parked.without super).contents⟩ },
      ⟨[]⟩⟩ := by
  unfold release
  rw [bind_ok (get_apply lent), if_neg h]
  rfl

instance : FaithfulFactory RestrictedParked Memory where
  content := Memory.content
  parked state := Parked.contentOf state.parked
  openChild_ok super factory factory' child h := by
    change openChild super factory = _ at h
    by_cases hsealed : factory.sealed.contains super
    · rw [openChild_sealed hsealed] at h
      cases h
    · rw [openChild_apply hsealed] at h
      cases h
      exact ⟨rfl, fun other hother => Parked.contentOf_without hother factory.parked⟩
  openChild_error super factory factory' e h := by
    change openChild super factory = _ at h
    by_cases hsealed : factory.sealed.contains super
    · rw [openChild_sealed hsealed] at h
      cases h
      rfl
    · rw [openChild_apply hsealed] at h
      cases h
  alike_storage := Lent.alike_child fun (state : RestrictedParked) => Parked.contentOf state.parked
  release_ok super lent lent' h := by
    change release super lent = _ at h
    by_cases hstuck : lent.factory.stuck.contains super
    · rw [release_stuck hstuck] at h
      cases h
    · rw [release_apply hstuck] at h
      cases h
      exact Parked.release_ok (Parked.release_apply super lent.factory.parked lent.child)
  release_error super lent lent' e h := by
    change release super lent = _ at h
    by_cases hstuck : lent.factory.stuck.contains super
    · rw [release_stuck hstuck] at h
      cases h
      exact fun _ _ => rfl
    · rw [release_apply hstuck] at h
      cases h

end RestrictedParked

end FramedStore
