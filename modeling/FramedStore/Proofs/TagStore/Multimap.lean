import FramedStore.Proofs.Effect.Run
import FramedStore.Proofs.Lookup
import FramedStore.Proofs.TagStore.Scan
import FramedStore.TagStore.Call

/-!
# Tag stores are ordered multimaps

`Multimap.perform` says what each call on a tag store comes to on the list of its entries. A tag
store in memory that holds the bytes of a list does the same with the bytes, call after call
(`trace_mirrors_multimap`).
-/

namespace FramedStore

open Effect

/-! ### Ordered multimaps -/

namespace Multimap

/-- The value of the first entry under `tag`. -/
def get? (entries : List Entry) (tag : String) : Option Bytes :=
  (entries.find? (·.1 == tag)).map (·.2)

/-- Whether there is an entry under `tag`. -/
def contains (entries : List Entry) (tag : String) : Bool := entries.any (·.1 == tag)

/-- The entries without the first one under `tag`. -/
def erase (entries : List Entry) (tag : String) : List Entry := entries.eraseP (·.1 == tag)

/-- The entries without those under `tag`. -/
def eraseAll (entries : List Entry) (tag : String) : List Entry := entries.filter (·.1 != tag)

/-- What a call gives, and the entries after it. -/
def apply : TagStore.Call → List Entry → TagStore.Answer × List Entry
  | .put tag value, entries =>
    (.flag (contains entries tag), eraseAll entries tag ++ [(tag, value)])
  | .push tag value, entries => (.done, entries ++ [(tag, value)])
  | .get tag, entries => (.value (get? entries tag), entries)
  | .erase tag, entries => (.value (get? entries tag), erase entries tag)
  | .contains tag, entries => (.flag (contains entries tag), entries)
  | .size, entries => (.count entries.length, entries)
  | .isEmpty, entries => (.flag entries.isEmpty, entries)
  | .tags, entries => (.tags (entries.map (·.1)), entries)
  | .entries, entries => (.entries entries, entries)
  | .clear, _ => (.done, [])

/-- Makes a call; none fails. -/
def perform (call : TagStore.Call) : Effect (List Entry) TagStore.Answer := fun entries =>
  .ok (apply call entries).1 (apply call entries).2

/-! ### The first entry under a tag -/

variable {tag : String} {value : Bytes} {before after entries : List Entry}

section Absent

variable (habsent : ∀ e ∈ entries, e.1 ≠ tag)
include habsent

theorem get?_absent : get? entries tag = none := by
  rw [get?, find?_absent habsent]
  rfl

theorem contains_absent : contains entries tag = false := by
  simpa [contains] using habsent

theorem erase_absent : erase entries tag = entries := eraseP_absent habsent

theorem eraseAll_absent : eraseAll entries tag = entries := filter_absent habsent

end Absent

section First

variable (hbefore : ∀ e ∈ before, e.1 ≠ tag)
include hbefore

theorem get?_first : get? (before ++ (tag, value) :: after) tag = some value := by
  rw [get?, find?_first hbefore]
  rfl

omit hbefore in
theorem contains_first : contains (before ++ (tag, value) :: after) tag = true := by
  simp [contains]

theorem erase_first : erase (before ++ (tag, value) :: after) tag = before ++ after :=
  eraseP_first hbefore

theorem eraseAll_first :
    eraseAll (before ++ (tag, value) :: after) tag = before ++ eraseAll after tag :=
  filter_first hbefore

end First

theorem contains_eq_countP (entries : List Entry) (tag : String) :
    decide (0 < entries.countP (·.1 == tag)) = contains entries tag := by
  rw [Bool.eq_iff_iff, decide_eq_true_iff, List.countP_pos_iff, contains, List.any_eq_true]

theorem isSome_get? (entries : List Entry) (tag : String) :
    (get? entries tag).isSome = contains entries tag := by
  rw [get?, Option.isSome_map, List.isSome_find?, contains]

end Multimap

/-! ### Entries as pairs of records -/

namespace TagStore

variable {framing : Framing} {stored : List Entry}

/-- A record is the tag of an entry just if its content is the text of the tag. -/
theorem key_rawOf (tag : String) :
    (fun pair : RawPair => pair.1 == Utf8.encode tag) ∘ rawOf =
      fun entry : Entry => entry.1 == tag := by
  funext entry
  rw [Bool.eq_iff_iff]
  simp [rawOf, Utf8.encode_inj]

theorem firstValue_rawOf (tag : String) (stored : List Entry) :
    firstValue tag (stored.map rawOf) = Multimap.get? stored tag := by
  rw [firstValue, List.find?_map, key_rawOf, Multimap.get?, Option.map_map]
  rfl

theorem countP_rawOf (tag : String) (stored : List Entry) :
    (stored.map rawOf).countP (·.1 == Utf8.encode tag) = stored.countP (·.1 == tag) := by
  rw [List.countP_map, key_rawOf]

theorem eraseP_rawOf (tag : String) (stored : List Entry) :
    (stored.map rawOf).eraseP (·.1 == Utf8.encode tag) =
      (Multimap.erase stored tag).map rawOf := by
  rw [List.eraseP_map, key_rawOf, Multimap.erase]

theorem without_rawOf (tag : String) (stored : List Entry) :
    without tag (stored.map rawOf) = (Multimap.eraseAll stored tag).map rawOf := by
  rw [without, List.filter_map, Multimap.eraseAll]
  congr 1
  refine List.filter_congr fun entry _ => congrArg (!·) ?_
  exact congrFun (key_rawOf tag) entry

/-! ### Calls on entries in memory -/

variable (hcap : (encodeEntries framing stored).length ≤ Bytes.capacity)
include hcap

theorem get?_apply (tag : String) :
    get? framing tag (⟨encodeEntries framing stored⟩ : Memory) =
      .ok (Multimap.get? stored tag) ⟨encodeEntries framing stored⟩ := by
  rw [encodeEntries_eq_encodeRaws] at hcap ⊢
  rw [(get?_pairs tag hcap).1, firstValue_rawOf]

theorem contains_apply (tag : String) :
    contains framing tag (⟨encodeEntries framing stored⟩ : Memory) =
      .ok (Multimap.contains stored tag) ⟨encodeEntries framing stored⟩ := by
  rw [encodeEntries_eq_encodeRaws] at hcap ⊢
  rw [(get?_pairs tag hcap).2, firstValue_rawOf, Multimap.isSome_get?]

theorem eraseAll_apply (tag : String) :
    eraseAll framing tag (⟨encodeEntries framing stored⟩ : Memory) =
      .ok (stored.countP (·.1 == tag)) ⟨encodeEntries framing (Multimap.eraseAll stored tag)⟩ := by
  rw [encodeEntries_eq_encodeRaws] at hcap
  rw [encodeEntries_eq_encodeRaws, encodeEntries_eq_encodeRaws, eraseAll_pairs tag hcap,
    countP_rawOf, without_rawOf]

theorem erase_apply (tag : String) :
    erase framing tag (⟨encodeEntries framing stored⟩ : Memory) =
      .ok (Multimap.get? stored tag) ⟨encodeEntries framing (Multimap.erase stored tag)⟩ := by
  rw [encodeEntries_eq_encodeRaws] at hcap
  rw [encodeEntries_eq_encodeRaws, encodeEntries_eq_encodeRaws, erase_pairs tag hcap,
    firstValue_rawOf, eraseP_rawOf]

omit hcap in
theorem push_apply (tag : String) (value : Bytes) :
    push framing tag value (⟨encodeEntries framing stored⟩ : Memory) =
      .ok ⟨⟩ ⟨encodeEntries framing (stored ++ [(tag, value)])⟩ := by
  unfold push
  rw [Memory.append_apply, encodeEntries_append, encodeEntries_cons, encodeEntries_nil,
    List.append_nil]

theorem put_apply (tag : String) (value : Bytes) :
    put framing tag value (⟨encodeEntries framing stored⟩ : Memory) =
      .ok (Multimap.contains stored tag)
        ⟨encodeEntries framing (Multimap.eraseAll stored tag ++ [(tag, value)])⟩ := by
  unfold put
  refine (bind_ok (eraseAll_apply hcap tag)).trans ?_
  refine (bind_ok (push_apply tag value)).trans ?_
  rw [pure_apply, Multimap.contains_eq_countP]

theorem isEmpty_apply :
    isEmpty framing (⟨encodeEntries framing stored⟩ : Memory) =
      .ok stored.isEmpty ⟨encodeEntries framing stored⟩ := by
  unfold isEmpty
  refine (bind_ok (size_apply hcap List.drop_zero)).trans ?_
  rw [pure_apply]
  cases stored <;> rfl

/-- **A call on a tag store does to the bytes what it does to the entries.** -/
theorem perform_apply (call : Call) :
    perform framing call (⟨encodeEntries framing stored⟩ : Memory) =
      .ok (Multimap.apply call stored).1 ⟨encodeEntries framing (Multimap.apply call stored).2⟩ := by
  cases call with
  | put tag value => exact (bind_ok (put_apply hcap tag value)).trans rfl
  | push tag value => exact (bind_ok (push_apply tag value)).trans rfl
  | get tag => exact (bind_ok (get?_apply hcap tag)).trans rfl
  | erase tag => exact (bind_ok (erase_apply hcap tag)).trans rfl
  | contains tag => exact (bind_ok (contains_apply hcap tag)).trans rfl
  | size => exact (bind_ok (size_apply hcap List.drop_zero)).trans rfl
  | isEmpty => exact (bind_ok (isEmpty_apply hcap)).trans rfl
  | tags => exact (bind_ok (tags_apply hcap List.drop_zero)).trans rfl
  | entries => exact (bind_ok (entries_apply hcap List.drop_zero)).trans rfl
  | clear => rfl

/-! ### Runs -/

omit hcap

/-- A step on the bytes gives the answer of a step on the entries, and leaves their bytes. -/
def Mirrors (framing : Framing) (store : Step Call Memory Answer)
    (model : Step Call (List Entry) Answer) : Prop :=
  (∃ answer, store.outcome = .ok answer ∧ model.outcome = .ok answer) ∧
    store.after = ⟨encodeEntries framing model.after⟩

theorem step_mirrors (call : Call) (hcap : (encodeEntries framing stored).length ≤ Bytes.capacity) :
    Mirrors framing (step (perform framing) call ⟨encodeEntries framing stored⟩)
      (step Multimap.perform call stored) := by
  rw [step_ok (perform_apply hcap call), step_ok (rfl : Multimap.perform call stored = _)]
  exact ⟨⟨_, rfl, rfl⟩, rfl⟩

/-- **A tag store in memory is an ordered multimap.** As long as the bytes of the entries fit into
one byte string, no call fails, each gives the answer of the multimap, and leaves the bytes of
its entries. -/
theorem trace_mirrors_multimap (framing : Framing) {calls : List Call} {stored : List Entry}
    (hfits : Throughout Multimap.perform
      (fun _ entries => (encodeEntries framing entries).length ≤ Bytes.capacity) calls stored) :
    List.Forall₂ (Mirrors framing)
      (trace (perform framing) calls (⟨encodeEntries framing stored⟩ : Memory))
      (trace Multimap.perform calls stored) := by
  refine forall₂_trace (fun memory entries => memory = ⟨encodeEntries framing entries⟩)
    ?_ calls _ _ rfl hfits
  rintro call _ entries rfl hcap
  have h := step_mirrors call hcap
  exact ⟨h.2, h⟩

/-- A run over two pairs under one tag, one of them with a value that looks like a record. -/
theorem trace_mirrors_multimap_duplicates :
    Throughout Multimap.perform
      (fun _ entries => (encodeEntries .byte entries).length ≤ Bytes.capacity)
      [.push "" [], .get "a", .put "a" [2], .erase "", .tags, .clear, .isEmpty]
      [("a", [1, 97]), ("a", [255])] ∧
    List.Forall₂ (Mirrors .byte)
      (trace (perform .byte)
        [.push "" [], .get "a", .put "a" [2], .erase "", .tags, .clear, .isEmpty]
        (⟨encodeEntries .byte [("a", [1, 97]), ("a", [255])]⟩ : Memory))
      (trace Multimap.perform
        [.push "" [], .get "a", .put "a" [2], .erase "", .tags, .clear, .isEmpty]
        [("a", [1, 97]), ("a", [255])]) := by
  have hfits : Throughout Multimap.perform
      (fun _ entries => (encodeEntries .byte entries).length ≤ Bytes.capacity)
      [.push "" [], .get "a", .put "a" [2], .erase "", .tags, .clear, .isEmpty]
      [("a", [1, 97]), ("a", [255])] := by
    unfold Throughout
    decide +kernel
  exact ⟨hfits, trace_mirrors_multimap .byte hfits⟩

end TagStore

end FramedStore
