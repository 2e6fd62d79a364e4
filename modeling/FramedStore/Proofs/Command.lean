import FramedStore.Cli
import FramedStore.Proofs.Path
import FramedStore.Proofs.TagStore.Multimap
import FramedStore.Proofs.TagStore.OnFile
import Mathlib.Data.List.Nodup

/-!
# Commands on one file

Commands that are run one after the other on one file, which each of them opens and closes, show what
they would show of one ordered association list, and leave the pairs of that list in the file
(`runAll_follows_pairs`).
-/

namespace FramedStore.Command

open Effect TagStore

variable {tag : String} {pairs : List (String × String)}

/-! ### Commands on an association list -/

/-- What a command shows of an association list, and the list after it. -/
def onPairs : Command → List (String × String) → Report × List (String × String)
  | .put tag value, pairs =>
    ({ code := 0, output := if (pairs.lookup tag).isSome then "OK (replaced)\n" else "OK\n" },
      pairs.filter (·.1 ≠ tag) ++ [(tag, value)])
  | .get tag, pairs =>
    match pairs.lookup tag with
    | some value => ({ code := 0, output := value ++ "\n" }, pairs)
    | none => ({ code := 1, output := "(nil)\n" }, pairs)
  | .delete tag, pairs =>
    match pairs.lookup tag with
    | some _ => ({ code := 0, output := "(deleted)\n" }, pairs.filter (·.1 ≠ tag))
    | none => ({ code := 1, output := "(nil)\n" }, pairs)
  | .has tag, pairs =>
    if (pairs.lookup tag).isSome then ({ code := 0, output := "true\n" }, pairs)
    else ({ code := 1, output := "false\n" }, pairs)
  | .tags, pairs => ({ code := 0, output := String.join (pairs.map (·.1 ++ "\n")) }, pairs)

/-- A command keeps the tags of the pairs different. -/
theorem nodup_onPairs (h : (pairs.map (·.1)).Nodup) (command : Command) :
    ((onPairs command pairs).2.map (·.1)).Nodup := by
  have hothers : ∀ tag, ((pairs.filter (·.1 ≠ tag)).map (·.1)).Nodup := fun tag =>
    h.sublist (List.filter_sublist.map _)
  cases command with
  | put tag value =>
    rw [onPairs, List.map_append, List.map_singleton, List.nodup_append]
    refine ⟨hothers tag, List.nodup_singleton _, ?_⟩
    intro other hother last hlast
    obtain ⟨pair, hpair, rfl⟩ := List.mem_map.mp hother
    rw [List.mem_singleton.mp hlast]
    simpa using (List.mem_filter.mp hpair).2
  | delete tag =>
    rw [onPairs]
    split
    · exact hothers tag
    · exact h
  | get tag | has tag =>
    rw [onPairs]
    split <;> exact h
  | tags => exact h

/-- A command finds what it looks for or does not, and does not fail. -/
theorem code_onPairs (command : Command) (pairs : List (String × String)) :
    ((onPairs command pairs).1.code = 0 ∨ (onPairs command pairs).1.code = 1) ∧
      (onPairs command pairs).1.errors = "" := by
  cases command with
  | put tag value => exact ⟨.inl rfl, rfl⟩
  | get tag | delete tag | has tag =>
    rw [onPairs]
    split
    · exact ⟨.inl rfl, rfl⟩
    · exact ⟨.inr rfl, rfl⟩
  | tags => exact ⟨.inl rfl, rfl⟩

/-! ### The pairs as entries -/

/-- The pairs as they are stored. -/
def entriesOf (pairs : List (String × String)) : List Entry :=
  pairs.map fun pair => (pair.1, Utf8.encode pair.2)

/-- The bytes of the pairs. -/
def bytesOf (pairs : List (String × String)) : Bytes := encodeEntries .byte (entriesOf pairs)

theorem get?_entriesOf (pairs : List (String × String)) (tag : String) :
    Multimap.get? (entriesOf pairs) tag = (pairs.lookup tag).map Utf8.encode := by
  induction pairs with
  | nil => rfl
  | cons pair pairs ih =>
    rw [Multimap.get?, entriesOf, List.map_cons, List.lookup_cons]
    by_cases htag : pair.1 = tag
    · rw [List.find?_cons_of_pos (by simpa using htag), beq_iff_eq.mpr htag.symm]
      rfl
    · rw [List.find?_cons_of_neg (by simpa using htag), beq_eq_false_iff_ne.mpr (Ne.symm htag)]
      exact ih

theorem contains_entriesOf (pairs : List (String × String)) (tag : String) :
    Multimap.contains (entriesOf pairs) tag = (pairs.lookup tag).isSome := by
  have hget := congrArg Option.isSome (get?_entriesOf pairs tag)
  rw [Multimap.get?, Option.isSome_map, Option.isSome_map] at hget
  rw [← hget, Multimap.contains, Bool.eq_iff_iff, List.any_eq_true, List.find?_isSome]

theorem eraseAll_entriesOf (pairs : List (String × String)) (tag : String) :
    Multimap.eraseAll (entriesOf pairs) tag = entriesOf (pairs.filter (·.1 ≠ tag)) := by
  rw [Multimap.eraseAll, entriesOf, entriesOf, List.filter_map]
  congr 1
  refine List.filter_congr fun pair _ => ?_
  simp [bne, beq_eq_decide]

/-- Of pairs with different tags at most one is under a tag. -/
theorem erase_entriesOf (h : (pairs.map (·.1)).Nodup) (tag : String) :
    Multimap.erase (entriesOf pairs) tag = entriesOf (pairs.filter (·.1 ≠ tag)) := by
  rw [← eraseAll_entriesOf]
  rcases absent_or_first (entriesOf pairs) tag with habsent |
    ⟨before, value, after, hsplit, hbefore⟩
  · rw [Multimap.erase_absent habsent, Multimap.eraseAll_absent habsent]
  · have hafter : ∀ e ∈ after, e.1 ≠ tag := by
      have htags : (entriesOf pairs).map (·.1) = pairs.map (·.1) := List.map_map
      rw [← htags, hsplit, List.map_append, List.map_cons] at h
      have hnot := (List.nodup_cons.mp (List.nodup_append.mp h).2.1).1
      exact fun e he heq => hnot (List.mem_map.mpr ⟨e, he, heq⟩)
    rw [hsplit, Multimap.erase_first hbefore, Multimap.eraseAll_first hbefore,
      Multimap.eraseAll_absent hafter]

/-! ### Commands on a memory -/

/-- **A command on a memory that holds the pairs.** -/
theorem execute_apply (hnodup : (pairs.map (·.1)).Nodup)
    (hcap : (bytesOf pairs).length ≤ Bytes.capacity) (command : Command) :
    command.execute (⟨bytesOf pairs⟩ : Memory) =
      .ok (onPairs command pairs).1 ⟨bytesOf (onPairs command pairs).2⟩ := by
  cases command with
  | put tag value =>
    refine (bind_ok (put_apply hcap tag (Utf8.encode value))).trans ?_
    rw [contains_entriesOf, eraseAll_entriesOf, onPairs, bytesOf, entriesOf, entriesOf,
      List.map_append]
    cases (pairs.lookup tag).isSome <;> rfl
  | get tag =>
    refine (bind_ok (get?_apply hcap tag)).trans ?_
    rw [get?_entriesOf, onPairs]
    cases pairs.lookup tag with
    | some value =>
      rw [Option.map_some]
      dsimp only
      rw [Utf8.lossy_encode]
      rfl
    | none => rfl
  | delete tag =>
    refine (bind_ok (erase_apply hcap tag)).trans ?_
    rw [get?_entriesOf, onPairs]
    cases hlookup : pairs.lookup tag with
    | some value =>
      rw [erase_entriesOf hnodup]
      rfl
    | none =>
      have hnone : Multimap.contains (entriesOf pairs) tag = false := by
        rw [contains_entriesOf, hlookup]
        rfl
      rw [Multimap.erase_absent (by simpa [Multimap.contains] using hnone)]
      rfl
  | has tag =>
    refine (bind_ok (contains_apply hcap tag)).trans ?_
    rw [contains_entriesOf, onPairs]
    cases (pairs.lookup tag).isSome <;> rfl
  | tags =>
    refine (bind_ok (tags_apply hcap List.drop_zero)).trans ?_
    rw [entriesOf, List.map_map, pure_apply, List.map_map]
    rfl

/-! ### Commands on a file -/

/-- A command does the same in two storages that have the same outcomes of the calls made on them. -/
theorem leads_execute {σ τ : Type} [Storage σ] [Storage τ] {R R' : σ → τ → Prop}
    (h : Storage.AlikeCut R) (hweaker : ∀ s t, R s t → R' s t)
    (happend : ∀ bytes, Leads R R' (Storage.append bytes) (Storage.append bytes))
    (command : Command) : Leads R R' command.execute command.execute := by
  have hsame : ∀ s t, R' s t → R' s t := fun _ _ hst => hst
  cases command with
  | put tag value =>
    refine .bind hsame (leads_put (h.upTo _) (Nat.le_max_left Framing.byte.maxIndicator _)
      (Nat.le_max_right _ _) hweaker happend _) fun replaced => ?_
    exact Alike.ite _ (.pure _) (.pure _)
  | get tag =>
    refine .weaken hweaker (Alike.bind (alike_get? h .byte tag) fun value => ?_)
    cases value <;> exact .pure _
  | delete tag =>
    refine .weaken hweaker (Alike.bind (alike_erase h .byte tag) fun value => ?_)
    cases value <;> exact .pure _
  | has tag =>
    exact .weaken hweaker (Alike.bind (alike_contains (h.upTo _)
      (Nat.le_max_left Framing.byte.maxIndicator _) (Nat.le_max_right _ _)) fun _ => .pure _)
  | tags => exact .weaken hweaker (Alike.bind (alike_tags h .byte) fun _ => .pure _)

section File

variable {written : String} {disk opened : Disk}

/-- **A command on a file that holds the pairs.** -/
theorem runOnFile_apply (hopen : disk.openFile written = .ok opened)
    (hbytes : (disk.read? (Path.ofString written)).getD [] = bytesOf pairs)
    (hnodup : (pairs.map (·.1)).Nodup) (hcap : (bytesOf pairs).length ≤ Bytes.capacity)
    (command : Command) :
    ∃ left, runOnFile written command disk = ((onPairs command pairs).1, left) ∧
      left.read? (Path.ofString written) = some (bytesOf (onPairs command pairs).2) ∧
      left.openFile written = .ok left := by
  have hread := Disk.read?_openFile hopen
  rw [hbytes] at hread
  obtain ⟨handle, hhandle, hwritten⟩ : ∃ handle,
      File.openAt written .never disk = .ok handle opened ∧ handle.written = written := by
    unfold File.openAt
    rw [bind_ok (get_apply disk), hopen]
    exact ⟨_, rfl, rfl⟩
  have hready := File.ready_of_openAt hhandle
  have hstores : File.Stores written ⟨opened, handle⟩ ⟨bytesOf pairs⟩ := by
    refine ⟨hready, hwritten, ?_⟩
    rw [File.content, hready.path_eq, hwritten, hread]
    rfl
  have hmirrors := File.mirrors_stores written
  have hsame := leads_execute hmirrors.alikeCut (fun _ _ h => h.1) hmirrors.leads_append command
    ⟨opened, handle⟩ ⟨bytesOf pairs⟩ ⟨hstores, Bytes.lt_range_of_le_capacity hcap⟩
  rw [execute_apply hnodup hcap command] at hsame
  generalize hresult : command.execute (⟨opened, handle⟩ : File) = result at hsame
  cases hsame with
  | @ok file _ shown hstores' =>
    refine ⟨file.disk, ?_, hstores'.read?, ?_⟩
    · have hexecute : command.execute.attempt (⟨opened, handle⟩ : File) =
          .ok (.ok (onPairs command pairs).1) file := by
        rw [attempt_apply, hresult]
      have hreport : command.report (⟨opened, handle⟩ : File) = .ok (onPairs command pairs).1
          { file with handle := { file.handle with isOpen := false } } :=
        (bind_ok hexecute).trans rfl
      rw [runOnFile, hhandle]
      dsimp only
      rw [hreport]
    · have hplaced := hstores'.ready.placed
      rw [hstores'.written_eq] at hplaced
      exact hplaced.openFile

end File

/-! ### Runs -/

theorem runAll_onPairs (hnodup : (pairs.map (·.1)).Nodup) {commands : List Command} :
    ∀ made ∈ runAll onPairs id commands pairs, (made.1.code = 0 ∨ made.1.code = 1) ∧
      made.1.errors = "" ∧ (made.2.map (·.1)).Nodup := by
  induction commands generalizing pairs with
  | nil => exact nofun
  | cons command commands ih =>
    have hnodup' := nodup_onPairs hnodup command
    have hcode := code_onPairs command pairs
    exact List.forall_mem_cons.mpr ⟨⟨hcode.1, hcode.2, hnodup'⟩, ih hnodup'⟩

theorem runAll_runOnFile {written : String} {commands : List Command} {disk opened : Disk}
    (hopen : disk.openFile written = .ok opened)
    (hbytes : (disk.read? (Path.ofString written)).getD [] = bytesOf pairs)
    (hnodup : (pairs.map (·.1)).Nodup) (hcap : (bytesOf pairs).length ≤ Bytes.capacity)
    (hfits : ∀ made ∈ runAll onPairs id commands pairs,
      (bytesOf made.2).length ≤ Bytes.capacity) :
    runAll (runOnFile written) (·.read? (Path.ofString written)) commands disk =
      runAll onPairs (fun pairs => some (bytesOf pairs)) commands pairs := by
  induction commands generalizing disk opened pairs with
  | nil => rfl
  | cons command commands ih =>
    obtain ⟨left, hrun, hleft, hplaced⟩ := runOnFile_apply hopen hbytes hnodup hcap command
    obtain ⟨hcap', hfits'⟩ := List.forall_mem_cons.mp hfits
    have hbytes' : (left.read? (Path.ofString written)).getD [] =
        bytesOf (onPairs command pairs).2 := by
      rw [hleft]
      rfl
    have hrest := ih hplaced hbytes' (nodup_onPairs hnodup command) hcap' hfits'
    rw [runAll, hrun]
    dsimp only
    rw [hleft, hrest]
    rfl

/-- **Commands on one file show and leave what one association list would.** -/
theorem runAll_follows_pairs (written : String) (commands : List Command) (disk opened : Disk)
    (hopen : disk.openFile written = .ok opened)
    (hempty : disk.read? (Path.ofString written) = none ∨
      disk.read? (Path.ofString written) = some [])
    (hfits : ∀ made ∈ runAll onPairs id commands [], (bytesOf made.2).length ≤ Bytes.capacity) :
    runAll (runOnFile written) (·.read? (Path.ofString written)) commands disk =
        runAll onPairs (fun pairs => some (bytesOf pairs)) commands [] ∧
      ∀ made ∈ runAll onPairs id commands [], (made.1.code = 0 ∨ made.1.code = 1) ∧
        made.1.errors = "" ∧ (made.2.map (·.1)).Nodup := by
  have hbytes : (disk.read? (Path.ofString written)).getD [] = bytesOf [] := by
    rcases hempty with hempty | hempty <;> rw [hempty] <;> rfl
  have hnodup : (([] : List (String × String)).map (·.1)).Nodup := List.nodup_nil
  exact ⟨runAll_runOnFile hopen hbytes hnodup (Nat.zero_le _) hfits, runAll_onPairs hnodup⟩

/-- A run on a missing file, in which a value is replaced and another one removed. -/
theorem runAll_follows_pairs_replaced :
    let written := "s"
    let commands : List Command :=
      [.put "a" "1", .put "é" "two words", .put "a" "", .tags, .get "é", .get "b", .delete "é",
        .delete "é", .has "é", .has "a"]
    ({} : Disk).openFile written = .ok ⟨[(["s"], .file [])]⟩ ∧
      ({} : Disk).read? (Path.ofString written) = none ∧
      (∀ made ∈ runAll onPairs id commands [], (bytesOf made.2).length ≤ Bytes.capacity) ∧
      (runAll (runOnFile written) (·.read? (Path.ofString written)) commands {}).map
          (fun made => (made.1.code, made.1.output)) =
        [(0, "OK\n"), (0, "OK\n"), (0, "OK (replaced)\n"), (0, "é\na\n"), (0, "two words\n"),
          (1, "(nil)\n"), (0, "(deleted)\n"), (1, "(nil)\n"), (1, "false\n"), (0, "true\n")] := by
  intro written commands
  have hplain : Path.Plain written := ⟨by decide, by decide, by decide, by decide⟩
  have hnul : written.contains (Char.ofNat 0) = false := by
    rw [String.contains_char_eq]
    decide
  have hopen : ({} : Disk).openFile written = .ok ⟨[(["s"], .file [])]⟩ :=
    Disk.openFile_plain hplain hnul rfl rfl
  have hempty : ({} : Disk).read? (Path.ofString written) = none := by
    rw [Path.ofString_plain hplain]
    rfl
  have hfits : ∀ made ∈ runAll onPairs id commands [],
      (bytesOf made.2).length ≤ Bytes.capacity := by
    decide +kernel
  obtain ⟨hrun, -⟩ := runAll_follows_pairs written commands {} _ hopen (.inl hempty) hfits
  refine ⟨hopen, hempty, hfits, ?_⟩
  rw [hrun]
  decide +kernel

end FramedStore.Command
