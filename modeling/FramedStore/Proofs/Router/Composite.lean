import FramedStore.Proofs.TagStore.Scan
import FramedStore.Proofs.TagStore.Sweep
import FramedStore.Router.Composite

/-!
# The sub-tags and the removal of a namespace

The removal of a namespace is a sweep over the entries of a memory that takes those of the namespace
(`clearSuper_outcome`). On a memory that holds entries and nothing else it removes the namespace and
gives the number of its entries (`clearSuper_apply`).
-/

namespace FramedStore.Composite

open Effect TagStore Walk

variable {framing : Framing} {rest : Bytes} {entries : List Entry}

/-- Whether a joint tag belongs to a super-tag. -/
def belongs (super tag : String) : Bool := (subTag? super tag).isSome

/-- What the removal of a namespace comes to. -/
theorem clearSuper_outcome (super : String) (hrest : NoEntry framing rest)
    (hcap : (encodeEntries framing entries ++ rest).length ≤ Bytes.capacity) :
    Leaves rest (· = entries.countP fun entry => belongs super entry.1)
      (· = ⟨encodeEntries framing (kept (belongs super) entries) ++ rest⟩)
      (clearSuper framing super (⟨encodeEntries framing entries ++ rest⟩ : Memory)) := by
  have hsweep := run_sweep (belongs super) hrest hcap
  rcases hrun : run (sweep framing (belongs super))
      (⟨encodeEntries framing entries ++ rest⟩ : Memory) with ⟨seen, memory⟩ | ⟨e, memory⟩
  · rw [hrun] at hsweep
    obtain ⟨hnil, rfl, hmemory⟩ := hsweep
    have hclear : clearSuper framing super (⟨encodeEntries framing entries ++ rest⟩ : Memory) =
        .ok ((entries.map (swept (belongs super))).countP (·.2.isSome)) memory :=
      (bind_ok hrun).trans rfl
    rw [hclear]
    refine ⟨hnil, ?_, hmemory⟩
    rw [List.countP_map]
    refine List.countP_congr fun entry _ => ?_
    simp only [swept, Function.comp_apply]
    split <;> simp [*]
  · rw [hrun] at hsweep
    have hclear : clearSuper framing super (⟨encodeEntries framing entries ++ rest⟩ : Memory) =
        .error e memory := bind_error hrun
    rw [hclear]
    exact hsweep

/-- The removal of a namespace from entries. -/
theorem clearSuper_apply (super : String)
    (hcap : (encodeEntries framing entries).length ≤ Bytes.capacity) :
    clearSuper framing super (⟨encodeEntries framing entries⟩ : Memory) =
      .ok (entries.countP fun entry => belongs super entry.1)
        ⟨encodeEntries framing (kept (belongs super) entries)⟩ := by
  rw [← List.append_nil (encodeEntries framing entries)] at hcap ⊢
  have houtcome := clearSuper_outcome super noEntry_nil hcap
  rw [List.append_nil (encodeEntries framing (kept (belongs super) entries))] at houtcome
  exact houtcome.eq_ok

/-- The sub-tags of a namespace, in the order of the entries. -/
theorem subTags_apply (super : String)
    (hcap : (encodeEntries framing entries).length ≤ Bytes.capacity) :
    subTags framing super (⟨encodeEntries framing entries⟩ : Memory) =
      .ok ((entries.map (·.1)).filterMap (subTag? super)) ⟨encodeEntries framing entries⟩ :=
  (bind_ok (tags_apply hcap List.drop_zero)).trans rfl

end FramedStore.Composite
