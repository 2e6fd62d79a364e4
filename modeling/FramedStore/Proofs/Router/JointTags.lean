import FramedStore.Proofs.Distinct
import FramedStore.Proofs.Router.Namespaces

/-!
# Which tags belong to a super-tag

A tag belongs to the super-tag whose text record it starts with, and to no other, also if it was not
made by joining. So the namespaces of one tag store are told apart by their tags alone, whatever else
is stored (`namespaces_exact`).
-/

namespace FramedStore.Composite

open Effect TagStore

variable {framing : Framing} {entries : List Entry} {super sub tag : String}

/-! ### Tags -/

theorem split?_eq_ok (hfits : (Utf8.encode tag).length ≤ Bytes.capacity) :
    split? tag = .ok (some (super, sub)) ↔ tag = TextRecord.encode super ++ sub := by
  rw [← TextRecord.splitFirst?_eq_ok (Bytes.lt_range_of_le_capacity hfits), split?]
  cases TextRecord.splitFirst? tag <;> simp

/-- A tag belongs to a super-tag if it starts with its text record. -/
theorem belongs_eq_startsWith (super tag : String) :
    belongs super tag = tag.startsWith (TextRecord.encode super) := by
  rw [Bool.eq_iff_iff, String.startsWith_string_iff, belongs, Option.isSome_iff_exists]
  constructor
  · rintro ⟨sub, hsub⟩
    rw [subTag?_eq_some.mp hsub, join, String.toList_append]
    exact List.prefix_append _ _
  · rintro ⟨rest, hrest⟩
    refine ⟨String.ofList rest, subTag?_eq_some.mpr ?_⟩
    rw [join, ← String.toList_inj, String.toList_append, String.toList_ofList, hrest]

theorem startsWith_iff :
    tag.startsWith (TextRecord.encode super) = true ↔ ∃ sub, tag = TextRecord.encode super ++ sub := by
  rw [← belongs_eq_startsWith, belongs, Option.isSome_iff_exists]
  exact exists_congr fun sub => subTag?_eq_some

theorem map_join_filterMap (super : String) (tags : List String) :
    (tags.filterMap (subTag? super)).map (join super) = tags.filter (belongs super) := by
  induction tags with
  | nil => rfl
  | cons tag tags ih =>
    cases hsub : subTag? super tag with
    | none =>
      have hnot : ¬ belongs super tag := by
        rw [belongs, hsub]
        exact Bool.false_ne_true
      rw [List.filterMap_cons_none hsub, List.filter_cons_of_neg hnot, ih]
    | some sub =>
      have hbelongs : belongs super tag := by
        rw [belongs, hsub]
        rfl
      rw [List.filterMap_cons_some hsub, List.filter_cons_of_pos hbelongs, List.map_cons, ih,
        ← subTag?_eq_some.mp hsub]

/-! ### Super-tags -/

/-- The super-tags of joint tags are collected in the order of their first appearance. -/
theorem foldlM_addSuper (keys : List (String × String)) (seen : List String)
    (hfits : ∀ key ∈ keys, (Utf8.encode (join key.1 key.2)).length ≤ Bytes.capacity) :
    (keys.map fun key => join key.1 key.2).foldlM addSuper seen =
      .ok (seen ++ ((keys.map (·.1)).filter (!seen.contains ·)).eraseDups) := by
  induction keys generalizing seen with
  | nil => simp
  | cons key keys ih =>
    obtain ⟨hkey, hkeys⟩ := List.forall_mem_cons.mp hfits
    have hsplit : split? (join key.1 key.2) = .ok (some (key.1, key.2)) :=
      (split?_eq_ok hkey).mpr rfl
    have hadd : addSuper seen (join key.1 key.2) =
        .ok (if seen.contains key.1 then seen else seen ++ [key.1]) := by
      rw [addSuper, hsplit]
      rfl
    rw [List.map_cons, List.foldlM_cons, hadd]
    change List.foldlM addSuper (if seen.contains key.1 then seen else seen ++ [key.1]) _ = _
    rw [ih _ hkeys]
    by_cases hseen : seen.contains key.1
    · rw [if_pos hseen, List.map_cons, List.filter_cons_of_neg (by simpa using hseen)]
    · rw [if_neg hseen, List.map_cons, List.filter_cons_of_pos (by simpa using hseen),
        List.eraseDups_cons, List.filter_filter, List.append_assoc, List.singleton_append]
      congr 3
      refine congrArg List.eraseDups ?_
      refine List.filter_congr fun other _ => ?_
      by_cases heq : other = key.1 <;> simp [heq]

/-- A super-tag is there if a joint tag has a sub-tag under it. -/
theorem mem_supers_iff {keys : List (String × String)} :
    super ∈ keys.map (·.1) ↔
      (keys.map fun key => join key.1 key.2).filterMap (subTag? super) ≠ [] := by
  rw [List.mem_map]
  constructor
  · rintro ⟨key, hkey, rfl⟩
    have hmem : key.2 ∈ (keys.map fun key => join key.1 key.2).filterMap (subTag? key.1) :=
      List.mem_filterMap.mpr ⟨_, List.mem_map_of_mem hkey, subTag?_join⟩
    exact List.ne_nil_of_mem hmem
  · intro hsubs
    obtain ⟨sub, hmem⟩ := List.exists_mem_of_ne_nil _ hsubs
    obtain ⟨tag, htag, hsub⟩ := List.mem_filterMap.mp hmem
    obtain ⟨key, hkey, rfl⟩ := List.mem_map.mp htag
    exact ⟨key, hkey, (join_inj.mp (subTag?_eq_some.mp hsub)).1⟩

/-! ### Calls -/

theorem length_encode_tag_le {entry : Entry} (hmem : entry ∈ entries) :
    (Utf8.encode entry.1).length ≤ (encodeEntries framing entries).length := by
  obtain ⟨before, after, rfl⟩ := List.append_of_mem hmem
  rw [encodeEntries_append, encodeEntries_cons, encodePair, Framing.encode, Framing.encode]
  simp only [List.length_append]
  omega

/-- In a store of joint tags, the super-tags are those of its entries. -/
theorem superTags_apply {keys : List (String × String)}
    (hkeys : entries.map (·.1) = keys.map fun key => join key.1 key.2)
    (hfits : ∀ key ∈ keys, (Utf8.encode (join key.1 key.2)).length ≤ Bytes.capacity)
    (hcap : (encodeEntries framing entries).length ≤ Bytes.capacity) :
    superTags framing (⟨encodeEntries framing entries⟩ : Memory) =
      .ok (keys.map (·.1)).eraseDups ⟨encodeEntries framing entries⟩ := by
  have hcollect : (entries.map (·.1)).foldlM addSuper [] = .ok (keys.map (·.1)).eraseDups := by
    rw [hkeys]
    refine (foldlM_addSuper keys [] hfits).trans ?_
    rw [List.nil_append, List.filter_eq_self.mpr (by simp)]
  refine (bind_ok (tags_apply hcap List.drop_zero)).trans ?_
  rw [hcollect]
  rfl

/-- The namespaces of one tag store are told apart by how the tags start. -/
structure Exact (framing : Framing) (entries : List Entry) : Prop where
  /-- A tag starts with the text record of a super-tag if it is split into this super-tag and the rest
  of the tag. -/
  starts : ∀ tag super : String, (Utf8.encode tag).length ≤ Bytes.capacity →
    (tag.startsWith (TextRecord.encode super) ↔
      ∃ sub, tag = TextRecord.encode super ++ sub ∧ split? tag = .ok (some (super, sub)))
  /-- The parts of a joint tag are found again. -/
  split_join : ∀ super sub : String, (Utf8.encode (join super sub)).length ≤ Bytes.capacity →
    split? (join super sub) = .ok (some (super, sub))
  /-- No tag lies in two namespaces. -/
  apart : ∀ tag super super' : String, tag.startsWith (TextRecord.encode super) →
    tag.startsWith (TextRecord.encode super') → super = super'
  /-- The sub-tags are the rests of the tags that start so, in the order of the entries. -/
  subTags : ∀ super, ∃ subs,
    subTags framing super (⟨encodeEntries framing entries⟩ : Memory) =
      .ok subs ⟨encodeEntries framing entries⟩ ∧
    subs.map (TextRecord.encode super ++ ·) =
      (entries.map (·.1)).filter (·.startsWith (TextRecord.encode super))
  /-- The entries whose tags start so are removed and counted, and the bytes of the others are left as
  they are. -/
  clearSuper : ∀ super, clearSuper framing super (⟨encodeEntries framing entries⟩ : Memory) =
    .ok (entries.countP (·.1.startsWith (TextRecord.encode super)))
      ⟨encodeEntries framing (entries.filter fun entry =>
        !entry.1.startsWith (TextRecord.encode super))⟩
  /-- If all tags are joint tags, the super-tags under which there is a sub-tag are listed, each once
  and in the order of its first entry. -/
  superTags : ∀ keys : List (String × String),
    entries.map (·.1) = keys.map (fun key => TextRecord.encode key.1 ++ key.2) →
    let supers := (keys.map (·.1)).eraseDups
    Composite.superTags framing (⟨encodeEntries framing entries⟩ : Memory) =
      .ok supers ⟨encodeEntries framing entries⟩ ∧ supers.Nodup ∧
    ∀ super, super ∈ supers ↔ ∃ sub subs,
      Composite.subTags framing super (⟨encodeEntries framing entries⟩ : Memory) =
        .ok (sub :: subs) ⟨encodeEntries framing entries⟩

end FramedStore.Composite
