import FramedStore.Proofs.Router.FileName
import FramedStore.Proofs.TagStore.OnFile
import FramedStore.Router.Children
import Mathlib.Data.Set.Function
import Mathlib.Logic.Function.Basic

/-!
# Children in files

A child is the file of its super-tag in the directory of the factory. Super-tags with different file
names have different files (`Holds`); an open one has the outcomes of a memory with its bytes, and all
other files are left alone (`Stands`).
-/

namespace FramedStore.FileChildren

open Effect

variable {directory super other : String} {disk : Disk} {bytes : Bytes} {handle : Handle}
  {tags : Set String} {children : FileChildren} {contents : String → Option Bytes}

/-! ### Places -/

/-- The path of the file of a super-tag. -/
def place (directory super : String) : Path :=
  Path.ofString directory ++ [FileName.file Crc32.ofBytes super]

/-- The path of the file of a super-tag, as it is written. -/
def written (directory super : String) : String :=
  Path.join directory (FileName.file Crc32.ofBytes super)

theorem ofString_written (directory super : String) :
    Path.ofString (written directory super) = place directory super :=
  Path.ofString_join (FileName.plain_file super) directory

theorem place_ne_nil (directory super : String) : place directory super ≠ [] :=
  List.append_ne_nil_of_right_ne_nil _ (List.cons_ne_nil _ _)

theorem place_ne (hnames : tags.InjOn FileName.ofTag) (hsuper : super ∈ tags) (hother : other ∈ tags)
    (hne : other ≠ super) : place directory other ≠ place directory super := by
  intro heq
  have hfile : FileName.file Crc32.ofBytes other = FileName.file Crc32.ofBytes super := by
    simpa [place] using heq
  exact hne (hnames hother hsuper (FileName.file_inj.mp hfile))

/-- The directory of the children is there, and a file in it can be opened. -/
structure Standing (directory : String) (disk : Disk) : Prop where
  nul : directory.contains (Char.ofNat 0) = false
  short : (Path.ofString directory).any Path.tooLong = false
  directories : ∀ front ∈ Path.fronts (Path.ofString directory), disk.isDirectory front

namespace Standing

theorem placed (h : Standing directory disk) (hfile : disk.isFile (place directory super)) :
    disk.Placed (written directory super) where
  nul := Path.contains_join (FileName.plain_file super) directory (by decide) h.nul
    (FileName.file_nul super)
  notEmpty := Path.isEmpty_join (FileName.plain_file super) directory
  notDirectory := Path.isDirectoryForm_join (FileName.plain_file super) directory
  short := by
    rw [ofString_written, place, List.any_append, h.short]
    simp [FileName.file_short]
  directories := by
    rw [ofString_written, place, List.dropLast_concat]
    exact h.directories
  isFile := by
    rw [ofString_written]
    exact hfile

theorem put (h : Standing directory disk) (super : String) (node : Disk.Node) :
    Standing directory (disk.put (place directory super) node) where
  nul := h.nul
  short := h.short
  directories front hfront := by
    rw [Disk.isDirectory_put_of_front (place_ne_nil directory super)]
    · exact h.directories front hfront
    · rw [place, List.dropLast_concat]
      exact hfront

end Standing

/-! ### Open files -/

/-- The handle of the open file of a super-tag that has noted its length. -/
structure Serves (directory super : String) (bytes : Bytes) (handle : Handle) : Prop where
  isOpen : handle.isOpen = true
  written_eq : handle.written = written directory super
  path_eq : handle.path = place directory super
  size_eq : handle.size = bytes.length

/-- The handle of a file as it is opened. -/
def fresh (directory super : String) (bytes : Bytes) (syncMode : SyncMode) : Handle :=
  { written := written directory super, path := place directory super, size := bytes.length, syncMode }

theorem serves_fresh (directory super : String) (bytes : Bytes) (syncMode : SyncMode) :
    Serves directory super bytes (fresh directory super bytes syncMode) := by
  constructor <;> unfold fresh <;> dsimp only

theorem openAt_there (h : Standing directory disk)
    (hfile : disk.find? (place directory super) = some (.file bytes)) (syncMode : SyncMode) :
    File.openAt (written directory super) syncMode disk =
      .ok (fresh directory super bytes syncMode) disk := by
  rw [File.openAt_apply (h.placed (Disk.isFile_of_find? hfile)) syncMode, ofString_written,
    Disk.read?_of_find? hfile]
  rfl

theorem openAt_missing (h : Standing directory disk)
    (hmissing : disk.find? (place directory super) = none) (syncMode : SyncMode) :
    File.openAt (written directory super) syncMode disk =
      .ok (fresh directory super [] syncMode) (disk.put (place directory super) (.file [])) := by
  have hne := place_ne_nil directory super
  have hplaced := (h.put super (.file [])).placed (Disk.isFile_put_self hne [])
  have hopen : disk.openFile (written directory super) =
      .ok (disk.put (place directory super) (.file [])) := by
    rw [← ofString_written] at hmissing hplaced ⊢
    exact Disk.Placed.openFile_missing hplaced hmissing
  unfold File.openAt
  rw [bind_ok (get_apply disk), hopen]
  dsimp only
  rw [bind_ok (set_apply _ _), ofString_written, Disk.read?_put_self hne]
  rfl

/-- A lent file and a memory with its bytes, where nothing else on the disk has changed. -/
structure Stands (directory super : String) (disk : Disk) (lent : Lent FileChildren Handle)
    (memory : Memory) : Prop where
  directory_eq : lent.factory.directory = directory
  standing : Standing directory lent.factory.disk
  serves : Serves directory super memory.content lent.child
  own : lent.factory.disk.find? (place directory super) = some (.file memory.content)
  others : ∀ path, path ≠ place directory super →
    lent.factory.disk.find? path = disk.find? path

namespace Stands

variable {lent : Lent FileChildren Handle} {memory : Memory}

theorem content_eq (h : Stands directory super disk lent memory) :
    (lentFile lent).content = memory.content := by
  unfold File.content lentFile
  rw [h.serves.path_eq, Disk.read?_of_find? h.own]
  rfl

theorem ready (h : Stands directory super disk lent memory) : (lentFile lent).Ready where
  isOpen := h.serves.isOpen
  path_eq := by
    change lent.child.path = Path.ofString lent.child.written
    rw [h.serves.path_eq, h.serves.written_eq, ofString_written]
  placed := by
    change lent.factory.disk.Placed lent.child.written
    rw [h.serves.written_eq]
    exact h.standing.placed (Disk.isFile_of_find? h.own)
  size_eq := by
    rw [h.content_eq]
    exact h.serves.size_eq

theorem holding (h : Stands directory super disk lent memory) (content : Bytes) :
    Stands directory super disk (updateLent ((lentFile lent).holding content) lent) ⟨content⟩ := by
  have hdisk : (updateLent ((lentFile lent).holding content) lent).factory.disk =
      lent.factory.disk.put (place directory super) (.file content) :=
    congrArg (lent.factory.disk.put · (.file content)) h.serves.path_eq
  refine ⟨h.directory_eq, ?_, ⟨h.serves.isOpen, h.serves.written_eq, h.serves.path_eq, rfl⟩, ?_, ?_⟩
  · rw [hdisk]
    exact h.standing.put super _
  · rw [hdisk, Disk.find?_put_self (place_ne_nil directory super)]
  · intro path hpath
    rw [hdisk, Disk.find?_put_of_ne hpath]
    exact h.others path hpath

end Stands

variable (directory super disk)

/-- The open file of a super-tag and a memory with its bytes. -/
def StandsIn (file : File) (memory : Memory) : Prop :=
  Stands directory super disk ⟨{ disk := file.disk, directory }, file.handle⟩ memory

theorem mirrors_standsIn : File.Mirrors (StandsIn directory super disk) where
  ready h := h.ready
  content_eq h := h.content_eq
  holding content h := h.holding content

theorem stands_eq : Stands directory super disk = fun lent memory =>
    StandsIn directory super disk (lentFile lent) memory ∧ lent.factory.directory = directory := by
  funext lent memory
  exact propext ⟨fun h => ⟨⟨rfl, h.standing, h.serves, h.own, h.others⟩, h.directory_eq⟩,
    fun h => ⟨h.2, h.1.standing, h.1.serves, h.1.own, h.1.others⟩⟩

theorem standsShort_eq : (fun (lent : Lent FileChildren Handle) (memory : Memory) =>
      Stands directory super disk lent memory ∧ memory.content.length < Offset.range) =
    fun lent memory => (StandsIn directory super disk (lentFile lent) memory ∧
      memory.content.length < Offset.range) ∧ lent.factory.directory = directory := by
  funext lent memory
  rw [stands_eq, and_right_comm]

/-- The calls that add no bytes have the same outcome in a file and in memory, where the file can be
moved about. -/
theorem alikeCut_file : Storage.AlikeCut fun (lent : Lent FileChildren Handle) (memory : Memory) =>
    Stands directory super disk lent memory ∧ memory.content.length < Offset.range := by
  rw [standsShort_eq]
  exact (mirrors_standsIn directory super disk).alikeCut.inPart (fun _ _ => rfl) (fun _ _ h => h)

theorem leads_append (added : Bytes) :
    Leads (fun (lent : Lent FileChildren Handle) (memory : Memory) =>
        Stands directory super disk lent memory ∧ memory.content.length < Offset.range)
      (Stands directory super disk) (Storage.append added) (Storage.append added) := by
  rw [standsShort_eq, stands_eq]
  refine Leads.within ?_ ?_ ((mirrors_standsIn directory super disk).leads_append added)
  · exact fun _ _ => rfl
  · exact fun _ _ h => h

variable {directory super disk}

/-! ### All files -/

/-- The files of super-tags hold their bytes; there is none for a super-tag without bytes. -/
structure Holds (directory : String) (tags : Set String) (children : FileChildren)
    (contents : String → Option Bytes) : Prop where
  directory_eq : children.directory = directory
  standing : Standing directory children.disk
  find?_eq : ∀ super ∈ tags,
    children.disk.find? (place directory super) = (contents super).map Disk.Node.file

/-- The bytes of all files when one has been opened, which is made if it is not there. -/
def withFile (contents : String → Option Bytes) (super : String) : String → Option Bytes :=
  Function.update contents super (some ((contents super).getD []))

theorem withFile_self (contents : String → Option Bytes) (super : String) :
    withFile contents super super = some ((contents super).getD []) := Function.update_self ..

theorem withFile_of_some (h : contents super = some bytes) : withFile contents super = contents := by
  unfold withFile
  rw [h, Option.getD_some, ← h, Function.update_eq_self]

namespace Holds

theorem openChild (h : Holds directory tags children contents) (hnames : tags.InjOn FileName.ofTag)
    (hsuper : super ∈ tags) :
    ∃ handle children', FileChildren.openChild super children = .ok handle children' ∧
      Serves directory super ((contents super).getD []) handle ∧
      Holds directory tags children' (withFile contents super) := by
  obtain ⟨hdirectory, hstanding, hfind⟩ := h
  have hopen : FileChildren.openChild super children = _ :=
    (bind_ok (get_apply children)).trans (within_apply _ _ _ _)
  have hwritten : children.pathFor super = written directory super := by
    rw [← hdirectory]
    rfl
  rw [hwritten] at hopen
  have hfile := hfind super hsuper
  cases hbytes : contents super with
  | some bytes =>
    rw [hbytes] at hfile
    rw [openAt_there hstanding hfile] at hopen
    refine ⟨_, children, hopen, serves_fresh .., ?_⟩
    rw [withFile_of_some hbytes]
    exact ⟨hdirectory, hstanding, hfind⟩
  | none =>
    rw [hbytes] at hfile
    rw [openAt_missing hstanding hfile] at hopen
    refine ⟨_, _, hopen, serves_fresh .., hdirectory, hstanding.put super _, fun other hother => ?_⟩
    by_cases heq : other = super
    · rw [heq, withFile_self, hbytes]
      exact Disk.find?_put_self (place_ne_nil directory super)
    · rw [withFile, Function.update_of_ne heq, ← hfind other hother]
      exact Disk.find?_put_of_ne (place_ne hnames hsuper hother heq)

/-- An effect on a lent file changes that file. -/
theorem lend (h : Holds directory tags children contents) (hnames : tags.InjOn FileName.ofTag)
    (hsuper : super ∈ tags) {lent : Lent FileChildren Handle} {memory : Memory}
    (hstands : Stands directory super children.disk lent memory) :
    Holds directory tags lent.factory (Function.update contents super (some memory.content)) where
  directory_eq := hstands.directory_eq
  standing := hstands.standing
  find?_eq other hother := by
    by_cases heq : other = super
    · rw [heq, Function.update_self, hstands.own]
      rfl
    · rw [Function.update_of_ne heq, ← h.find?_eq other hother]
      exact hstands.others _ (place_ne hnames hsuper hother heq)

/-- A file with bytes can be lent. -/
theorem stands (h : Holds directory tags children contents) (hsuper : super ∈ tags)
    (hbytes : contents super = some bytes) (hserves : Serves directory super bytes handle) :
    Stands directory super children.disk ⟨children, handle⟩ ⟨bytes⟩ := by
  refine ⟨h.directory_eq, h.standing, hserves, ?_, fun _ _ => rfl⟩
  rw [h.find?_eq super hsuper, hbytes]
  rfl

end Holds

end FramedStore.FileChildren
