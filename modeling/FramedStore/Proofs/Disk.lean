import FramedStore.Disk
import FramedStore.Proofs.Effect.Checks
import FramedStore.Proofs.Lookup
import FramedStore.Proofs.Path

/-!
# Files on a disk

A file that has been opened is in its place: there are directories on the way to it, and it is a
file (`Disk.Placed`). It stays there when its content is replaced, and to open it again changes
nothing on the disk.
-/

namespace FramedStore

theorem Path.mem_fronts {front path : Path} : front ∈ path.fronts ↔ front <+: path := by
  unfold Path.fronts
  rw [List.mem_map]
  constructor
  · rintro ⟨n, -, rfl⟩
    exact List.take_prefix n path
  · intro h
    refine ⟨front.length, ?_, (List.prefix_iff_eq_take.mp h).symm⟩
    rw [List.mem_range]
    exact Nat.lt_succ_of_le h.length_le

/-- A path does not lie on the way to itself. -/
theorem Path.not_mem_fronts_dropLast {path : Path} (h : path ≠ []) :
    path ∉ Path.fronts path.dropLast := by
  intro hmem
  have hle := (Path.mem_fronts.mp hmem).length_le
  have hpos := List.length_pos_iff.mpr h
  rw [List.length_dropLast] at hle
  omega

namespace Disk

variable {disk disk' : Disk} {path other : Path} {node : Node} {written : String}

/-! ### Nodes -/

theorem find?_put_self (h : path ≠ []) : (disk.put path node).find? path = some node := by
  unfold find? put
  rw [if_neg (by simpa using h), List.lookup_cons_self]

theorem find?_put_of_ne (h : other ≠ path) :
    (disk.put path node).find? other = disk.find? other := by
  unfold find? put
  split
  · rfl
  · exact (lookup_cons_ne h).trans (lookup_filter_ne h)

theorem put_put (node' : Node) : (disk.put path node).put path node' = disk.put path node' := by
  simp [put]

theorem find?_concat_of_list_eq_nil {directory : Path} (h : disk.list directory = []) (name : String) :
    disk.find? (directory ++ [name]) = none := by
  unfold find?
  rw [if_neg (by simp), List.lookup_eq_none_iff]
  rintro ⟨path, node⟩ hentry
  rw [bne_iff_ne]
  rintro rfl
  unfold list at h
  rw [List.filterMap_eq_nil_iff] at h
  have hnone := h _ hentry
  simp at hnone

theorem read?_of_find? {content : Bytes} (h : disk.find? path = some (.file content)) :
    disk.read? path = some content := by
  unfold read?
  rw [h]

theorem isFile_of_find? {content : Bytes} (h : disk.find? path = some (.file content)) :
    disk.isFile path := by
  unfold isFile
  rw [read?_of_find? h]
  rfl

theorem isFile_of_find?_none (h : disk.find? path = none) : disk.isFile path = false := by
  unfold isFile read?
  rw [h]
  rfl

theorem read?_put_self (h : path ≠ []) (content : Bytes) :
    (disk.put path (.file content)).read? path = some content :=
  read?_of_find? (find?_put_self h)

theorem isDirectory_put_of_ne (h : other ≠ path) :
    (disk.put path node).isDirectory other = disk.isDirectory other := by
  unfold isDirectory
  rw [find?_put_of_ne h]

theorem isDirectory_nil (disk : Disk) : disk.isDirectory [] = true := rfl

theorem isFile_of_isDirectory (h : disk.isDirectory path) : disk.isFile path = false := by
  unfold isDirectory at h
  unfold isFile read?
  rw [eq_of_beq h]
  rfl

/-! ### Directories on the way -/

/-- Makes a directory if it is missing. -/
def ensure (disk : Disk) (path : Path) : Disk :=
  if disk.isDirectory path then disk else disk.put path .directory

theorem isDirectory_ensure_self (disk : Disk) (path : Path) :
    (disk.ensure path).isDirectory path := by
  unfold ensure
  split
  · assumption
  · rename_i hmissing
    have hne : path ≠ [] := by
      rintro rfl
      exact hmissing (isDirectory_nil disk)
    unfold isDirectory
    rw [find?_put_self hne]
    rfl

theorem isDirectory_ensure (h : disk.isDirectory other) : (disk.ensure path).isDirectory other := by
  by_cases heq : other = path
  · subst heq
    exact isDirectory_ensure_self disk other
  · unfold ensure
    split
    · exact h
    · rwa [isDirectory_put_of_ne heq]

theorem isDirectory_foldl_ensure (paths : List Path) (disk : Disk) :
    (∀ other, disk.isDirectory other → (paths.foldl ensure disk).isDirectory other) ∧
      ∀ path ∈ paths, (paths.foldl ensure disk).isDirectory path := by
  induction paths generalizing disk with
  | nil => exact ⟨fun _ h => h, nofun⟩
  | cons path paths ih =>
    obtain ⟨hkept, hmade⟩ := ih (disk.ensure path)
    refine ⟨fun other h => hkept other (isDirectory_ensure h), ?_⟩
    intro other hother
    rcases List.mem_cons.mp hother with rfl | hother
    · exact hkept _ (isDirectory_ensure_self disk _)
    · exact hmade other hother

theorem foldl_ensure_self {paths : List Path} (h : ∀ path ∈ paths, disk.isDirectory path) :
    paths.foldl ensure disk = disk := by
  induction paths with
  | nil => rfl
  | cons path paths ih =>
    have hpath := h path (List.mem_cons_self ..)
    rw [List.foldl_cons, ensure, if_pos hpath]
    exact ih fun other hother => h other (List.mem_cons_of_mem _ hother)

theorem isDirectory_of_makeDirectories (h : disk.makeDirectories path = .ok disk') :
    ∀ front ∈ path.fronts, disk'.isDirectory front := by
  unfold makeDirectories at h
  split at h
  · cases h
  · split at h
    · cases h
    · split at h
      · cases h
      · obtain rfl := Except.ok.inj h
        exact (isDirectory_foldl_ensure path.fronts disk).2

theorem short_of_makeDirectories (h : disk.makeDirectories path = .ok disk') :
    path.any Path.tooLong = false := by
  unfold makeDirectories at h
  split at h
  · cases h
  · split at h
    · cases h
    · rename_i hshort
      exact Bool.eq_false_iff.mpr hshort

theorem makeDirectories_self (hlong : path.any Path.tooLong = false)
    (h : ∀ front ∈ path.fronts, disk.isDirectory front) :
    disk.makeDirectories path = .ok disk := by
  have hself : disk.isFile path = false :=
    isFile_of_isDirectory (h path (Path.mem_fronts.mpr List.prefix_rfl))
  have hfiles : (Path.fronts path.dropLast).any disk.isFile = false := by
    rw [List.any_eq_false]
    intro front hfront
    rw [Bool.not_eq_true]
    have hparent : path.dropLast <+: path := List.dropLast_prefix path
    exact isFile_of_isDirectory
      (h front (Path.mem_fronts.mpr ((Path.mem_fronts.mp hfront).trans hparent)))
  unfold makeDirectories
  rw [hfiles, hlong, hself]
  exact congrArg Except.ok (foldl_ensure_self h)

/-! ### Files in their place -/

/-- The file at a written path is there, and nothing keeps it from being opened. -/
structure Placed (disk : Disk) (written : String) : Prop where
  nul : written.contains (Char.ofNat 0) = false
  notEmpty : written.isEmpty = false
  notDirectory : Path.isDirectoryForm written = false
  short : (Path.ofString written).any Path.tooLong = false
  directories : ∀ front ∈ Path.fronts (Path.ofString written).dropLast, disk.isDirectory front
  isFile : disk.isFile (Path.ofString written)

theorem isFile_put_self (h : path ≠ []) (content : Bytes) :
    (disk.put path (.file content)).isFile path :=
  isFile_of_find? (find?_put_self h)

/-- A file can be written without a change to the directories on the way to it. -/
theorem isDirectory_put_of_front {front : Path} (hne : path ≠ [])
    (hfront : front ∈ Path.fronts path.dropLast) :
    (disk.put path node).isDirectory front = disk.isDirectory front := by
  refine isDirectory_put_of_ne ?_
  rintro rfl
  exact Path.not_mem_fronts_dropLast hne hfront

theorem any_tooLong_dropLast (h : path.any Path.tooLong = false) :
    path.dropLast.any Path.tooLong = false := by
  rw [List.any_eq_false] at h ⊢
  exact fun name hname => h name (List.dropLast_subset path hname)

namespace Placed

theorem ne_nil (h : disk.Placed written) : Path.ofString written ≠ [] := by
  intro hnil
  have hfile := h.isFile
  rw [hnil, isFile_of_isDirectory (isDirectory_nil disk)] at hfile
  cases hfile

/-- A file in its place stays there when its content is replaced. -/
theorem put (h : disk.Placed written) (content : Bytes) :
    (disk.put (Path.ofString written) (.file content)).Placed written where
  nul := h.nul
  notEmpty := h.notEmpty
  notDirectory := h.notDirectory
  short := h.short
  directories front hfront := by
    rw [isDirectory_put_of_front h.ne_nil hfront]
    exact h.directories front hfront
  isFile := isFile_put_self h.ne_nil content

/-- A file in its place is opened without a change to the disk. -/
theorem openFile (h : disk.Placed written) : disk.openFile written = .ok disk := by
  have hdirectory : disk.isDirectory (Path.ofString written) = false := by
    rw [Bool.eq_false_iff]
    intro hdir
    have hfile := h.isFile
    rw [isFile_of_isDirectory hdir] at hfile
    cases hfile
  unfold Disk.openFile
  simp only [h.nul, h.notEmpty, h.notDirectory, h.short, hdirectory, h.isFile,
    makeDirectories_self (any_tooLong_dropLast h.short) h.directories]
  rfl

/-- A file that is missing is made when it is opened. -/
theorem openFile_missing (h : (disk.put (Path.ofString written) (.file [])).Placed written)
    (hmissing : disk.find? (Path.ofString written) = none) :
    disk.openFile written = .ok (disk.put (Path.ofString written) (.file [])) := by
  have hdirectories : ∀ front ∈ Path.fronts (Path.ofString written).dropLast,
      disk.isDirectory front := by
    intro front hfront
    have hfront' := h.directories front hfront
    rwa [isDirectory_put_of_front h.ne_nil hfront] at hfront'
  have hdirectory : disk.isDirectory (Path.ofString written) = false := by
    unfold isDirectory
    rw [hmissing]
    rfl
  have hfile := isFile_of_find?_none hmissing
  unfold Disk.openFile
  simp only [h.nul, h.notEmpty, h.notDirectory, h.short, hdirectory, hfile,
    makeDirectories_self (any_tooLong_dropLast h.short) hdirectories]
  rfl

end Placed

/-- **A file that has been opened is in its place.** -/
theorem placed_of_openFile (h : disk.openFile written = .ok disk') : disk'.Placed written := by
  unfold openFile at h
  simp only [Checks.refuse_eq_ok, Bool.not_eq_true] at h
  obtain ⟨hnul, hempty, h⟩ := h
  split at h
  · simp at h
  rename_i made hmade
  simp only [Checks.refuse_eq_ok, Checks.pure_eq_ok, Bool.not_eq_true, Bool.or_eq_false_iff] at h
  obtain ⟨⟨hform, hdir⟩, hshort, rfl⟩ := h
  -- the empty path is a directory, which cannot be opened
  have hne : Path.ofString written ≠ [] := by
    intro hnil
    rw [hnil, isDirectory_nil] at hdir
    cases hdir
  have hfronts := isDirectory_of_makeDirectories hmade
  refine ⟨hnul, hempty, hform, hshort, ?_, ?_⟩
  · intro front hfront
    split
    · exact hfronts front hfront
    · rw [isDirectory_put_of_front hne hfront]
      exact hfronts front hfront
  · split
    · assumption
    · exact isFile_put_self hne []

/-- A plain name is opened in the directory in which paths start. -/
theorem openFile_plain {name : String} (h : Path.Plain name)
    (hnul : name.contains (Char.ofNat 0) = false) (hshort : Path.tooLong name = false)
    (hdirectory : disk.isDirectory [name] = false) :
    disk.openFile name =
      .ok (if disk.isFile [name] then disk else disk.put [name] (.file [])) := by
  have hempty : name.isEmpty = false := by
    rw [String.isEmpty_eq_false_iff]
    exact h.ne_empty
  have hmake : disk.makeDirectories [] = .ok disk := rfl
  unfold openFile
  rw [Path.ofString_plain h, Path.isDirectoryForm_plain h, hnul, hempty]
  simp [hshort, hdirectory, hmake]

/-! ### What opening leaves alone -/

theorem find?_foldl_ensure {paths : List Path} (h : path ∉ paths) :
    (paths.foldl ensure disk).find? path = disk.find? path := by
  induction paths generalizing disk with
  | nil => rfl
  | cons first paths ih =>
    rw [List.mem_cons, not_or] at h
    obtain ⟨hfirst, hpaths⟩ := h
    rw [List.foldl_cons, ih hpaths, ensure]
    split
    · rfl
    · exact find?_put_of_ne hfirst

/-- Directories are only made on the way. -/
theorem find?_makeDirectories (h : disk.makeDirectories path = .ok disk')
    (hother : other ∉ path.fronts) : disk'.find? other = disk.find? other := by
  unfold makeDirectories at h
  split at h
  · cases h
  · split at h
    · cases h
    · split at h
      · cases h
      · obtain rfl := Except.ok.inj h
        exact find?_foldl_ensure hother

/-- **A file keeps its bytes when it is opened**, and is made without bytes if it is missing. -/
theorem read?_openFile (h : disk.openFile written = .ok disk') :
    disk'.read? (Path.ofString written) =
      some ((disk.read? (Path.ofString written)).getD []) := by
  have hplaced := placed_of_openFile h
  have hbehind := Path.not_mem_fronts_dropLast hplaced.ne_nil
  unfold openFile at h
  simp only [Checks.refuse_eq_ok, Bool.not_eq_true] at h
  obtain ⟨-, -, h⟩ := h
  split at h
  · simp at h
  rename_i made hmade
  simp only [Checks.refuse_eq_ok, Checks.pure_eq_ok, Bool.not_eq_true] at h
  obtain ⟨-, -, rfl⟩ := h
  have hsame : made.read? (Path.ofString written) = disk.read? (Path.ofString written) := by
    rw [read?, read?, find?_makeDirectories hmade hbehind]
  split
  · rename_i hfile
    rw [isFile, hsame] at hfile
    obtain ⟨content, hcontent⟩ := Option.isSome_iff_exists.mp hfile
    rw [hsame, hcontent]
    rfl
  · rename_i hmissing
    rw [isFile, hsame, Option.not_isSome_iff_eq_none] at hmissing
    rw [read?_put_self hplaced.ne_nil, hmissing]
    rfl

end Disk

end FramedStore
