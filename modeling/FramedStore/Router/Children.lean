import FramedStore.Config
import FramedStore.Router.FileName
import FramedStore.Storage.Memory

/-!
# Storages for the children of a router

A router that gives each super-tag a storage of its own has them opened and released by a factory.
`Parked` keeps released children in memory, and `FileChildren` has a file for each super-tag.
-/

namespace FramedStore

/-- A factory together with a child that it opened. -/
structure Lent (φ κ : Type) where
  factory : φ
  child : κ

/-- A factory of type `φ` for children of type `κ`. -/
class ChildFactory (φ : Type) (κ : outParam Type) extends Storage (Lent φ κ) where
  /-- Opens the child of a super-tag, which is made if it is not there. -/
  openChild (super : String) : Effect φ κ
  /-- Takes the child of a super-tag back. -/
  release (super : String) : Effect (Lent φ κ) Unit

/-! ### Children in memory -/

/-- The contents of released children by super-tag. -/
structure Parked where
  contents : List (String × Bytes) := []
  deriving Repr, DecidableEq, Inhabited

namespace Parked

/-- The number of released children. -/
def count (parked : Parked) : Nat := parked.contents.length

/-- The released children without that of a super-tag. -/
def without (parked : Parked) (super : String) : Parked :=
  ⟨parked.contents.filter (·.1 ≠ super)⟩

/-- Opens a child with the content it was released with. -/
def openChild (super : String) : Effect Parked Memory := do
  let parked ← get
  set (parked.without super)
  return ⟨(parked.contents.lookup super).getD []⟩

/-- Keeps the content of a child, which is left empty. -/
def release (super : String) : Effect (Lent Parked Memory) Unit :=
  modify fun ⟨parked, memory⟩ =>
    ⟨⟨(super, memory.content) :: (parked.without super).contents⟩, ⟨[]⟩⟩

instance : ChildFactory Parked Memory where
  toStorage := .inPart Lent.child (fun child lent => { lent with child })
  openChild := openChild
  release := release

end Parked

/-! ### Children that refuse -/

/-- Children in memory of which some cannot be opened or released. -/
structure RestrictedParked where
  parked : Parked
  /-- The super-tags whose children cannot be opened. -/
  sealed : List String := []
  /-- The super-tags whose children cannot be released. -/
  stuck : List String := []
  deriving Repr, DecidableEq

namespace RestrictedParked

/-- Opens a child, if it is not one that cannot be. -/
def openChild (super : String) : Effect RestrictedParked Memory := do
  if (← get).sealed.contains super then throw (.io (.other ("injected open " ++ super)))
  .within parked (fun parked state => { state with parked }) (Parked.openChild super)

/-- Keeps the content of a child, if it is not one that cannot be released. -/
def release (super : String) : Effect (Lent RestrictedParked Memory) Unit := do
  if (← get).factory.stuck.contains super then throw (.io (.other ("injected release " ++ super)))
  .within (fun lent => ⟨lent.factory.parked, lent.child⟩)
    (fun part lent => ⟨{ lent.factory with parked := part.factory }, part.child⟩)
    (Parked.release super)

instance : ChildFactory RestrictedParked Memory where
  toStorage := .inPart Lent.child (fun child lent => { lent with child })
  openChild := openChild
  release := release

end RestrictedParked

/-! ### Children in files -/

/-- A disk with a directory for the children. -/
structure FileChildren where
  disk : Disk
  directory : String
  syncMode : SyncMode := .never

namespace FileChildren

/-- The children in the files of a directory, which is made if it is not there. -/
def inDirectory (directory : String) (syncMode : SyncMode) (disk : Disk) :
    Except Error FileChildren :=
  match disk.makeDirectories (Path.ofString directory) with
  | .ok disk => .ok { disk, directory, syncMode }
  | .error cause => .error (.io (.system cause))

/-- The children in the directory of a configuration. -/
def ofConfig (config : Config) : Disk → Except Error FileChildren :=
  inDirectory config.childrenDir config.syncMode

/-- The file of a super-tag, with a checksum for the names that are cut. -/
def pathBy (checksum : Bytes → UInt32) (children : FileChildren) (super : String) : String :=
  Path.join children.directory (FileName.ofTagBy checksum super ++ ".tfr")

/-- The file of a super-tag. -/
def pathFor (children : FileChildren) (super : String) : String :=
  children.pathBy Crc32.ofBytes super

/-- Opens the file of a super-tag. -/
def openChild (super : String) : Effect FileChildren Handle := do
  let children ← get
  .within disk (fun disk children => { children with disk })
    (File.openAt (children.pathFor super) children.syncMode)

/-- The lent file as an open file on the disk. -/
def lentFile (lent : Lent FileChildren Handle) : File := ⟨lent.factory.disk, lent.child⟩

/-- Takes the changes of an open file over. -/
def updateLent (file : File) (lent : Lent FileChildren Handle) : Lent FileChildren Handle :=
  ⟨{ lent.factory with disk := file.disk }, file.handle⟩

instance : ChildFactory FileChildren Handle where
  toStorage := .inPart lentFile updateLent
  openChild := openChild
  release _ := .within lentFile updateLent Storage.close

end FileChildren

end FramedStore
