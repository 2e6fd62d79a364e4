import FramedStore.Proofs.TagStore.Multimap

/-!
# Entries under other names

The entries whose tags have a label, under these labels, are a part of a multimap. A call on a label
that no other tag has gives the answer of the call on its tag, and a change under a tag that has no
label is not seen.
-/

namespace FramedStore.Multimap

/-- The entries whose tags have a label, under their labels. -/
def relabel (label : String → Option String) (entries : List Entry) : List Entry :=
  entries.filterMap fun entry => (label entry.1).map (·, entry.2)

variable {label : String → Option String} {tag name : String} {value : Bytes} {entry : Entry}
  {entries more : List Entry}

@[simp] theorem relabel_nil : relabel label [] = [] := rfl

@[simp] theorem relabel_append :
    relabel label (entries ++ more) = relabel label entries ++ relabel label more :=
  List.filterMap_append

theorem relabel_cons_of_some (h : label tag = some name) :
    relabel label ((tag, value) :: entries) = (name, value) :: relabel label entries := by
  simp [relabel, h]

theorem relabel_cons_of_none (h : label entry.1 = none) :
    relabel label (entry :: entries) = relabel label entries := by
  simp [relabel, h]

/-- What is taken from tags without a label is not missed. -/
theorem relabel_filter_of_none {keep : Entry → Bool}
    (h : ∀ e ∈ entries, ¬ keep e → label e.1 = none) :
    relabel label (entries.filter keep) = relabel label entries := by
  induction entries with
  | nil => rfl
  | cons entry entries ih =>
    obtain ⟨hentry, hentries⟩ := List.forall_mem_cons.mp h
    by_cases hkeep : keep entry
    · rw [List.filter_cons_of_pos hkeep, ← List.singleton_append, relabel_append, ih hentries,
        ← relabel_append, List.singleton_append]
    · rw [List.filter_cons_of_neg hkeep, relabel_cons_of_none (hentry hkeep), ih hentries]

/-! ### The only tag with a label -/

section Only

variable (hlabel : ∀ other, label other = some name ↔ other = tag)
include hlabel

theorem forall_relabel_ne (h : ∀ e ∈ entries, e.1 ≠ tag) : ∀ e ∈ relabel label entries, e.1 ≠ name := by
  intro found hfound heq
  obtain ⟨e, he, hsome⟩ := List.mem_filterMap.mp hfound
  obtain ⟨name', hname', rfl⟩ := Option.map_eq_some_iff.mp hsome
  obtain rfl : name' = name := heq
  exact h e he ((hlabel e.1).mp hname')

theorem get?_relabel : get? (relabel label entries) name = get? entries tag := by
  rcases absent_or_first entries tag with habsent | ⟨before, value, after, rfl, hbefore⟩
  · rw [get?_absent habsent, get?_absent (forall_relabel_ne hlabel habsent)]
  · rw [get?_first hbefore, relabel_append, relabel_cons_of_some ((hlabel tag).mpr rfl),
      get?_first (forall_relabel_ne hlabel hbefore)]

theorem contains_relabel : contains (relabel label entries) name = contains entries tag := by
  rcases absent_or_first entries tag with habsent | ⟨before, value, after, rfl, -⟩
  · rw [contains_absent habsent, contains_absent (forall_relabel_ne hlabel habsent)]
  · rw [contains_first, relabel_append, relabel_cons_of_some ((hlabel tag).mpr rfl), contains_first]

theorem relabel_erase : relabel label (erase entries tag) = erase (relabel label entries) name := by
  rcases absent_or_first entries tag with habsent | ⟨before, value, after, rfl, hbefore⟩
  · rw [erase_absent habsent, erase_absent (forall_relabel_ne hlabel habsent)]
  · rw [erase_first hbefore, relabel_append, relabel_append,
      relabel_cons_of_some ((hlabel tag).mpr rfl), erase_first (forall_relabel_ne hlabel hbefore)]

theorem relabel_eraseAll :
    relabel label (eraseAll entries tag) = eraseAll (relabel label entries) name := by
  induction entries with
  | nil => rfl
  | cons entry entries ih =>
    obtain ⟨other, value⟩ := entry
    unfold eraseAll at ih ⊢
    by_cases heq : other = tag
    · rw [List.filter_cons_of_neg (by simp [heq]), relabel_cons_of_some ((hlabel other).mpr heq),
        List.filter_cons_of_neg (by simp), ih]
    · rw [List.filter_cons_of_pos (by simp [heq])]
      cases hother : label other with
      | none => rw [relabel_cons_of_none hother, relabel_cons_of_none hother, ih]
      | some name' =>
        have hne : name' ≠ name := by
          rintro rfl
          exact heq ((hlabel other).mp hother)
        rw [relabel_cons_of_some hother, relabel_cons_of_some hother,
          List.filter_cons_of_pos (by simp [hne]), ih]

end Only

/-! ### A tag without a label -/

theorem relabel_eraseAll_of_none (h : label tag = none) :
    relabel label (eraseAll entries tag) = relabel label entries := by
  refine relabel_filter_of_none fun e _ he => ?_
  have heq : e.1 = tag := by simpa using he
  rw [heq, h]

theorem relabel_erase_of_none (h : label tag = none) :
    relabel label (erase entries tag) = relabel label entries := by
  rcases absent_or_first entries tag with habsent | ⟨before, value, after, rfl, hbefore⟩
  · rw [erase_absent habsent]
  · rw [erase_first hbefore, relabel_append, relabel_append, relabel_cons_of_none h]

end FramedStore.Multimap
