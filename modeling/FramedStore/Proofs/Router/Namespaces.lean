import FramedStore.Proofs.Record.Lengths
import FramedStore.Proofs.Record.TextRecord
import FramedStore.Proofs.Router.Composite
import FramedStore.Proofs.TagStore.Alike
import FramedStore.Proofs.TagStore.Labels
import FramedStore.Router.Call

/-!
# Namespaces are tag stores

A call on a super-tag does to the entries of its namespace what the call of a tag store does
(`RouterCall.onEntries`), and leaves every other namespace alone. This holds of the namespaces in one
tag store (`perform_apply`, `under_onJoined_self`) as of a child that has the namespace for itself
(`onChild_apply`).
-/

namespace FramedStore

open Effect TagStore

/-! ### Joint tags -/

namespace Composite

variable {super sub tag : String} {value : Bytes} {entry : Entry} {entries : List Entry}

theorem subTag?_eq_some : subTag? super tag = some sub ↔ tag = join super sub := by
  have hstart : ∀ rest, (TextRecord.encode super).toList.isPrefixOf? tag.toList = some rest ↔
      (TextRecord.encode super).toList ++ rest = tag.toList := by
    intro rest
    exact List.isPrefixOf?_eq_some_iff_append_eq
  unfold subTag?
  rw [Option.map_eq_some_iff]
  constructor
  · rintro ⟨rest, hrest, rfl⟩
    rw [hstart] at hrest
    rw [join, ← String.toList_inj, String.toList_append, String.toList_ofList, hrest]
  · rintro rfl
    refine ⟨sub.toList, ?_, String.ofList_toList⟩
    rw [hstart, join, String.toList_append]

@[simp] theorem subTag?_join : subTag? super (join super sub) = some sub := subTag?_eq_some.mpr rfl

theorem join_inj {super' sub' : String} :
    join super sub = join super' sub' ↔ super = super' ∧ sub = sub' := by
  constructor
  · exact TextRecord.encode_append_inj
  · rintro ⟨rfl, rfl⟩
    rfl

theorem subTag?_other {other : String} (hother : other ≠ super) :
    subTag? other (join super sub) = none := by
  rw [Option.eq_none_iff_forall_ne_some]
  intro sub' hsub
  rw [subTag?_eq_some, join_inj] at hsub
  exact hother hsub.1.symm

/-! ### The entries of a namespace -/

/-- The entries of a namespace under their sub-tags. -/
def under (super : String) (entries : List Entry) : List Entry :=
  entries.filterMap fun entry => (subTag? super entry.1).map (·, entry.2)

@[simp] theorem under_nil : under super [] = [] := rfl

@[simp] theorem under_append (entries more : List Entry) :
    under super (entries ++ more) = under super entries ++ under super more :=
  Multimap.relabel_append

@[simp] theorem under_cons_join :
    under super ((join super sub, value) :: entries) = (sub, value) :: under super entries :=
  Multimap.relabel_cons_of_some subTag?_join

theorem under_cons_of_none (h : subTag? super entry.1 = none) :
    under super (entry :: entries) = under super entries :=
  Multimap.relabel_cons_of_none h

theorem under_cons_other {other : String} (hother : other ≠ super) :
    under other ((join super sub, value) :: entries) = under other entries :=
  under_cons_of_none (subTag?_other hother)

/-- An entry of a namespace has a sub-tag there. -/
theorem eq_join_or_none (super : String) (entry : Entry) :
    (∃ sub, entry = (join super sub, entry.2)) ∨ subTag? super entry.1 = none := by
  rcases hsub : subTag? super entry.1 with _ | sub
  · exact .inr rfl
  · exact .inl ⟨sub, Prod.ext (subTag?_eq_some.mp hsub) rfl⟩

theorem get?_under (super sub : String) (entries : List Entry) :
    Multimap.get? (under super entries) sub = Multimap.get? entries (join super sub) :=
  Multimap.get?_relabel fun _ => subTag?_eq_some

theorem contains_under (super sub : String) (entries : List Entry) :
    Multimap.contains (under super entries) sub = Multimap.contains entries (join super sub) :=
  Multimap.contains_relabel fun _ => subTag?_eq_some

theorem under_erase (super sub : String) (entries : List Entry) :
    under super (Multimap.erase entries (join super sub)) =
      Multimap.erase (under super entries) sub :=
  Multimap.relabel_erase fun _ => subTag?_eq_some

theorem under_eraseAll (super sub : String) (entries : List Entry) :
    under super (Multimap.eraseAll entries (join super sub)) =
      Multimap.eraseAll (under super entries) sub :=
  Multimap.relabel_eraseAll fun _ => subTag?_eq_some

theorem map_under (super : String) (entries : List Entry) :
    (under super entries).map (·.1) = (entries.map (·.1)).filterMap (subTag? super) := by
  rw [under, List.map_filterMap, List.filterMap_map]
  congr 1
  funext entry
  cases hsub : subTag? super entry.1 <;> simp [hsub]

theorem length_under (super : String) (entries : List Entry) :
    (under super entries).length = entries.countP fun entry => belongs super entry.1 := by
  induction entries with
  | nil => rfl
  | cons entry entries ih =>
    rcases eq_join_or_none super entry with ⟨sub, hentry⟩ | hnone
    · rw [hentry, under_cons_join, List.length_cons, ih, List.countP_cons_of_pos]
      simp [belongs]
    · rw [under_cons_of_none hnone, ih, List.countP_cons_of_neg]
      simp [belongs, hnone]

theorem under_kept (super : String) (entries : List Entry) :
    under super (Walk.kept (belongs super) entries) = [] := by
  rw [under, List.filterMap_eq_nil_iff]
  intro entry hentry
  have hkept := (List.mem_filter.mp hentry).2
  simpa [belongs] using hkept

/-- A namespace takes no more bytes for itself than it takes among others. -/
theorem length_encode_under_le (framing : Framing) (super : String) (entries : List Entry) :
    (encodeEntries .byte (under super entries)).length ≤
      (encodeEntries framing entries).length := by
  induction entries with
  | nil => exact Nat.le_refl _
  | cons entry entries ih =>
    rw [encodeEntries_cons, List.length_append]
    rcases eq_join_or_none super entry with ⟨sub, hentry⟩ | hnone
    · have hsub : (Utf8.encode sub).length ≤ (Utf8.encode (join super sub)).length := by
        rw [join, Utf8.encode_append, List.length_append]
        omega
      have htag := framing.length_encode_byte_le hsub
      have hvalue := framing.length_encode_byte_le (Nat.le_refl entry.2.length)
      rw [hentry, under_cons_join, encodeEntries_cons, List.length_append]
      simp only [encodePair, List.length_append]
      omega
    · rw [under_cons_of_none hnone]
      omega

/-! ### Calls on namespaces in one tag store -/

/-- What a call leaves of the entries of all namespaces. -/
def onJoined : RouterCall → List Entry → List Entry
  | .put super sub value, entries =>
    Multimap.eraseAll entries (join super sub) ++ [(join super sub, value)]
  | .push super sub value, entries => entries ++ [(join super sub, value)]
  | .get _ _, entries | .contains _ _, entries | .subTags _, entries => entries
  | .erase super sub, entries => Multimap.erase entries (join super sub)
  | .clearSuper super, entries => Walk.kept (belongs super) entries

end Composite

/-- What a call gives, and what it leaves of the entries of its namespace. -/
def RouterCall.onEntries : RouterCall → List Entry → TagStore.Answer × List Entry
  | .put _ sub value, entries => Multimap.apply (.put sub value) entries
  | .push _ sub value, entries => Multimap.apply (.push sub value) entries
  | .get _ sub, entries => Multimap.apply (.get sub) entries
  | .erase _ sub, entries => Multimap.apply (.erase sub) entries
  | .contains _ sub, entries => Multimap.apply (.contains sub) entries
  | .subTags _, entries => Multimap.apply .tags entries
  | .clearSuper _, entries => (.count entries.length, [])

namespace Composite

variable {framing : Framing} {entries : List Entry}

theorem under_onJoined_self (call : RouterCall) (entries : List Entry) :
    under call.super (onJoined call entries) =
      (call.onEntries (under call.super entries)).2 := by
  cases call with
  | put super sub value =>
    simp only [onJoined, RouterCall.super, RouterCall.onEntries, Multimap.apply, under_append,
      under_eraseAll, under_cons_join, under_nil]
  | push super sub value =>
    simp only [onJoined, RouterCall.super, RouterCall.onEntries, Multimap.apply, under_append,
      under_cons_join, under_nil]
  | get super sub => rfl
  | erase super sub => exact under_erase super sub entries
  | contains super sub => rfl
  | subTags super => rfl
  | clearSuper super => exact under_kept super entries

/-- A call on one super-tag leaves the entries of the others as they are. -/
theorem under_onJoined_other {call : RouterCall} {other : String} (hother : other ≠ call.super)
    (entries : List Entry) : under other (onJoined call entries) = under other entries := by
  cases call with
  | put super sub value =>
    have hsuper : other ≠ super := hother
    have hgone : under other (Multimap.eraseAll entries (join super sub)) = under other entries :=
      Multimap.relabel_eraseAll_of_none (subTag?_other hsuper)
    rw [onJoined, under_append, hgone, under_cons_other hsuper, under_nil, List.append_nil]
  | push super sub value =>
    have hsuper : other ≠ super := hother
    rw [onJoined, under_append, under_cons_other hsuper, under_nil, List.append_nil]
  | get super sub => rfl
  | erase super sub => exact Multimap.relabel_erase_of_none (subTag?_other hother)
  | contains super sub => rfl
  | subTags super => rfl
  | clearSuper super =>
    refine Multimap.relabel_filter_of_none fun e _ he => ?_
    rcases eq_join_or_none super e with ⟨sub, hsub⟩ | hnone
    · rw [hsub]
      exact subTag?_other hother
    · simp [belongs, hnone] at he

/-- **A call on the namespaces of one tag store.** -/
theorem perform_apply (call : RouterCall)
    (hcap : (encodeEntries framing entries).length ≤ Bytes.capacity) :
    perform framing call (⟨encodeEntries framing entries⟩ : Memory) =
      .ok (call.onEntries (under call.super entries)).1
        ⟨encodeEntries framing (onJoined call entries)⟩ := by
  cases call with
  | put super sub value =>
    refine (bind_ok (put_apply hcap (join super sub) value)).trans ?_
    simp only [RouterCall.onEntries, Multimap.apply, RouterCall.super, contains_under]
    rfl
  | push super sub value => exact (bind_ok (push_apply (join super sub) value)).trans rfl
  | get super sub =>
    refine (bind_ok (get?_apply hcap (join super sub))).trans ?_
    simp only [RouterCall.onEntries, Multimap.apply, RouterCall.super, get?_under]
    rfl
  | erase super sub =>
    refine (bind_ok (erase_apply hcap (join super sub))).trans ?_
    simp only [RouterCall.onEntries, Multimap.apply, RouterCall.super, get?_under]
    rfl
  | contains super sub =>
    refine (bind_ok (contains_apply hcap (join super sub))).trans ?_
    simp only [RouterCall.onEntries, Multimap.apply, RouterCall.super, contains_under]
    rfl
  | subTags super =>
    refine (bind_ok (subTags_apply super hcap)).trans ?_
    simp only [RouterCall.onEntries, Multimap.apply, RouterCall.super, map_under]
    rfl
  | clearSuper super =>
    refine (bind_ok (clearSuper_apply super hcap)).trans ?_
    simp only [RouterCall.onEntries, RouterCall.super, length_under]
    rfl

end Composite

/-! ### Calls on a child -/

/-- **A call on a child that holds the entries of its namespace.** -/
theorem RouterCall.onChild_apply (call : RouterCall) {entries : List Entry}
    (hcap : (encodeEntries .byte entries).length ≤ Bytes.capacity) :
    call.onChild (⟨encodeEntries .byte entries⟩ : Memory) =
      .ok (call.onEntries entries).1 ⟨encodeEntries .byte (call.onEntries entries).2⟩ := by
  cases call with
  | put _ sub value => exact TagStore.perform_apply hcap (.put sub value)
  | push _ sub value => exact TagStore.perform_apply hcap (.push sub value)
  | get _ sub => exact TagStore.perform_apply hcap (.get sub)
  | erase _ sub => exact TagStore.perform_apply hcap (.erase sub)
  | contains _ sub => exact TagStore.perform_apply hcap (.contains sub)
  | subTags _ => exact TagStore.perform_apply hcap .tags
  | clearSuper _ => exact (bind_ok (size_apply hcap List.drop_zero)).trans rfl

section Storages

variable {σ τ : Type} [Storage σ] [Storage τ] {R R' : σ → τ → Prop}

/-- A call has the same outcome in two storages that have the same outcomes of the calls made on them,
where adding bytes may lead to states that are related in another way. -/
theorem RouterCall.leads_onChild (h : Storage.AlikeCut R) (hweaker : ∀ s t, R s t → R' s t)
    (happend : ∀ bytes, Leads R R' (Storage.append bytes) (Storage.append bytes))
    (call : RouterCall) : Leads R R' call.onChild call.onChild := by
  have hsame : ∀ s t, R' s t → R' s t := fun _ _ hst => hst
  cases call with
  | put _ sub value =>
    exact .bind hsame (leads_put (h.upTo _) (Nat.le_max_left Framing.byte.maxIndicator _)
      (Nat.le_max_right _ _) hweaker happend value) fun _ => Alike.pure _
  | push _ sub value => exact .bind hsame (happend _) fun _ => Alike.pure _
  | get _ sub => exact .weaken hweaker (Alike.bind (alike_get? h .byte sub) fun _ => .pure _)
  | erase _ sub => exact .weaken hweaker (Alike.bind (alike_erase h .byte sub) fun _ => .pure _)
  | contains _ sub =>
    exact .weaken hweaker (Alike.bind (alike_contains (h.upTo _)
      (Nat.le_max_left Framing.byte.maxIndicator _) (Nat.le_max_right _ _)) fun _ => .pure _)
  | subTags _ => exact .weaken hweaker (Alike.bind (alike_tags h .byte) fun _ => .pure _)
  | clearSuper _ =>
    exact .weaken hweaker (Alike.bind (alike_size (h.upTo _) (Nat.le_refl _)) fun _ =>
      .bind h.clear fun _ => .pure _)

/-- A call does the same in every storage that has the outcomes of another. -/
theorem RouterCall.alike_onChild (h : Storage.Alike R) (call : RouterCall) :
    Alike R call.onChild call.onChild :=
  call.leads_onChild h.cut (fun _ _ hst => hst) h.append

end Storages

end FramedStore
