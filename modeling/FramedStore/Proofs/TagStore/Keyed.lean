import FramedStore.Proofs.TagStore.Labels

/-!
# Uses of one tag

A call under one tag gives the same answer whatever is stored under other tags, and leaves those
entries as they are (`apply_only`, `only_apply_of_not`). What it does to the values under its tag is
what the use does to a list of values (`values_apply`).
-/

namespace FramedStore

/-- A use of the entries under one tag. -/
inductive KeyedUse
  | put (value : Bytes)
  | push (value : Bytes)
  | get
  | erase
  | contains
  deriving Repr, DecidableEq

namespace KeyedUse

/-- The call on a tag store. -/
def onTag (tag : String) : KeyedUse → TagStore.Call
  | put value => .put tag value
  | push value => .push tag value
  | get => .get tag
  | erase => .erase tag
  | contains => .contains tag

/-- What is left of the values under the tag, the oldest one first. -/
def onValues : KeyedUse → List Bytes → List Bytes
  | put value, _ => [value]
  | push value, values => values ++ [value]
  | get, values | contains, values => values
  | erase, values => values.tail

end KeyedUse

namespace Multimap

variable {tag other name : String} {entries : List Entry}

/-! ### Under other names -/

section Label

variable {label : String → Option String}

/-- A call on a label is the call on the only tag that has it. -/
theorem apply_relabel (hlabel : ∀ other, label other = some name ↔ other = tag) (use : KeyedUse) :
    apply (use.onTag name) (relabel label entries) =
      ((apply (use.onTag tag) entries).1, relabel label (apply (use.onTag tag) entries).2) := by
  have hone : ∀ value, relabel label [(tag, value)] = [(name, value)] :=
    fun value => relabel_cons_of_some ((hlabel tag).mpr rfl)
  cases use with
  | put value =>
    simp only [KeyedUse.onTag, apply, relabel_append, hone, contains_relabel hlabel,
      relabel_eraseAll hlabel]
  | push value => simp only [KeyedUse.onTag, apply, relabel_append, hone]
  | get => simp only [KeyedUse.onTag, apply, get?_relabel hlabel]
  | erase => simp only [KeyedUse.onTag, apply, get?_relabel hlabel, relabel_erase hlabel]
  | contains => simp only [KeyedUse.onTag, apply, contains_relabel hlabel]

/-- A call on a tag without a label is not seen. -/
theorem relabel_apply_of_none (hlabel : label tag = none) (use : KeyedUse) :
    relabel label (apply (use.onTag tag) entries).2 = relabel label entries := by
  have hnone : ∀ value, relabel label [(tag, value)] = [] := fun value => relabel_cons_of_none hlabel
  cases use with
  | put value =>
    simp only [KeyedUse.onTag, apply, relabel_append, hnone, List.append_nil,
      relabel_eraseAll_of_none hlabel]
  | push value => simp only [KeyedUse.onTag, apply, relabel_append, hnone, List.append_nil]
  | get | contains => rfl
  | erase => exact relabel_erase_of_none hlabel

end Label

/-! ### The entries under some tags -/

/-- The entries under the tags of some kind. -/
def only (keep : String → Bool) (entries : List Entry) : List Entry :=
  entries.filter fun entry => keep entry.1

variable (keep : String → Bool)

theorem only_eq_relabel (entries : List Entry) :
    only keep entries = relabel (Option.guard keep) entries := by
  rw [only, ← List.filterMap_eq_filter, relabel]
  refine List.filterMap_congr fun entry _ => ?_
  unfold Option.guard
  split <;> rfl

/-- **A call sees the entries under its own tag alone.** -/
theorem apply_only (use : KeyedUse) (hkeep : keep tag = true) :
    apply (use.onTag tag) (only keep entries) =
      ((apply (use.onTag tag) entries).1, only keep (apply (use.onTag tag) entries).2) := by
  rw [only_eq_relabel, only_eq_relabel]
  refine apply_relabel (fun other => ?_) use
  rw [Option.guard_eq_some_iff]
  constructor
  · exact fun h => h.1
  · rintro rfl
    exact ⟨rfl, hkeep⟩

/-- **A call leaves the entries under other tags as they are.** -/
theorem only_apply_of_not (use : KeyedUse) (hkeep : keep tag = false) :
    only keep (apply (use.onTag tag) entries).2 = only keep entries := by
  rw [only_eq_relabel, only_eq_relabel]
  exact relabel_apply_of_none (by simp [Option.guard, hkeep]) use

/-! ### Values -/

/-- The values under a tag, the oldest one first. -/
def values (entries : List Entry) (tag : String) : List Bytes :=
  (only (· == tag) entries).map (·.2)

@[simp] theorem values_nil (tag : String) : values [] tag = [] := rfl

theorem values_append (entries more : List Entry) (tag : String) :
    values (entries ++ more) tag = values entries tag ++ values more tag := by
  simp [values, only]

theorem values_cons_self (tag : String) (value : Bytes) (entries : List Entry) :
    values ((tag, value) :: entries) tag = value :: values entries tag := by
  simp [values, only]

theorem values_absent (habsent : ∀ e ∈ entries, e.1 ≠ tag) : values entries tag = [] := by
  rw [values, only, List.filter_eq_nil_iff.mpr (by simpa using habsent), List.map_nil]

theorem values_eraseAll (entries : List Entry) (tag : String) : values (eraseAll entries tag) tag = [] := by
  refine values_absent fun e he => ?_
  simpa using (List.mem_filter.mp he).2

theorem values_erase (entries : List Entry) (tag : String) :
    values (erase entries tag) tag = (values entries tag).tail := by
  rcases absent_or_first entries tag with habsent | ⟨before, value, after, rfl, hbefore⟩
  · rw [erase_absent habsent, values_absent habsent, List.tail_nil]
  · rw [erase_first hbefore, values_append, values_append, values_absent hbefore, values_cons_self,
      List.nil_append, List.nil_append, List.tail_cons]

/-- **What a call does to the values under its tag.** -/
theorem values_apply (use : KeyedUse) (tag : String) (entries : List Entry) :
    values (apply (use.onTag tag) entries).2 tag = use.onValues (values entries tag) := by
  have hone : ∀ value, values [(tag, value)] tag = [value] := fun value => values_cons_self tag value []
  cases use with
  | put value =>
    simp only [KeyedUse.onTag, apply, KeyedUse.onValues, values_append, values_eraseAll, hone,
      List.nil_append]
  | push value => simp only [KeyedUse.onTag, apply, KeyedUse.onValues, values_append, hone]
  | get | contains => rfl
  | erase => exact values_erase entries tag

theorem values_apply_of_ne (use : KeyedUse) (hne : other ≠ tag) (entries : List Entry) :
    values (apply (use.onTag tag) entries).2 other = values entries other := by
  have hkeep : (tag == other) = false := beq_eq_false_iff_ne.mpr hne.symm
  exact congrArg (List.map (·.2)) (only_apply_of_not (· == other) use hkeep)

end Multimap

end FramedStore
