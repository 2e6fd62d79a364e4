import FramedStore.Disk
import FramedStore.Storage.Basic

/-!
# Storage in a file

The file's bytes are the content. All work is done with reads and writes at a position, and with a
change of the file's length; when bytes are removed or put in, the tail of the file is moved block
by block.
-/

namespace FramedStore

/-- When written bytes are brought to the medium. -/
inductive SyncMode
  /-- When the system sees fit. -/
  | never
  /-- After every change. -/
  | everyWrite
  deriving Repr, DecidableEq

/-- An open file. -/
structure Handle where
  /-- The path as it was written. -/
  written : String
  path : Path
  /-- The length of the file, kept up to date by every change. -/
  size : Nat
  syncMode : SyncMode := .never
  isOpen : Bool := true
  deriving Repr, DecidableEq

/-- A disk and a file on it. -/
structure File where
  disk : Disk
  handle : Handle

namespace File

open Effect (Round scan)

/-- The most bytes that are moved at once. -/
def blockSize : Nat := 65536

/-- Opens the file at a path and keeps what it holds; a missing file is made. -/
def openAt (written : String) (syncMode : SyncMode) : Effect Disk Handle := do
  match (← get).openFile written with
  | .error fault => throw (.io fault)
  | .ok disk =>
    set disk
    let path := Path.ofString written
    return { written, path, syncMode, size := ((disk.read? path).getD []).length }

/-! ### Positioned access -/

/-- The bytes on the disk, whether the file is open or not. -/
def content (file : File) : Bytes := (file.disk.read? file.handle.path).getD []

/-- The bytes of the file, which has to be open. -/
def bytes : Effect File Bytes := do
  let file ← get
  unless file.handle.isOpen do throw (.io (.closedFile file.handle.written))
  return file.content

/-- Changes the bytes of the file, which has to be open. -/
def alter (change : Bytes → Bytes) : Effect File Unit := do
  let content ← bytes
  modify fun file =>
    { file with disk := file.disk.put file.handle.path (.file (change content)) }

/-- Notes the length of the file. -/
def noteSize (size : Nat) : Effect File Unit :=
  modify fun file => { file with handle := { file.handle with size } }

/-- Reads `count` bytes from a position on. -/
def readAt (position count : Nat) : Effect File Bytes := do
  let found := (← bytes).slice position (position + count)
  if found.length < count then throw (.io .endOfInput)
  return found

/-- Writes bytes from a position on. -/
def writeAt (position : Nat) (patch : Bytes) : Effect File Unit :=
  alter fun content => if patch.isEmpty then content else content.overwrite position patch

/-- Cuts or extends the file. -/
def setLength (length : Nat) : Effect File Unit := do
  alter (·.resize length)
  noteSize length

/-- Brings written bytes to the medium, which needs no more than that the file is open. -/
def flush : Effect File Unit := do
  let _ ← bytes

/-- What follows every change. -/
def afterWrite : Effect File Unit := do
  if (← get).handle.syncMode = .everyWrite then flush

/-! ### Moving the tail -/

/-- Moves the block at a position `gap` bytes to the front. -/
def moveLeft (gap position : Nat) : Effect File (Round Nat Unit) := do
  let size := (← get).handle.size
  if size ≤ position then return .done ()
  let count := min blockSize (size - position)
  writeAt (position - gap) (← readAt position count)
  return .again (position + count)

/-- Moves the block that ends at a position, but nothing before `start`, `gap` bytes to the back. -/
def moveRight (start gap position : Nat) : Effect File (Round Nat Unit) := do
  if position ≤ start then return .done ()
  let count := min blockSize (position - start)
  let blockStart := position - count
  writeAt (blockStart + gap) (← readAt blockStart count)
  return .again blockStart

instance : Storage File where
  size := do return (← get).handle.size
  slice start stop := do
    checkRange start stop (← get).handle.size
    if start = stop then return []
    readAt start (stop - start)
  setAll content := do
    setLength 0
    writeAt 0 content
    noteSize content.length
    afterWrite
  append added := do
    let size := (← get).handle.size
    writeAt size added
    noteSize (size + added.length)
    afterWrite
  set start patch := do
    let size := (← get).handle.size
    checkRange start start size
    writeAt start patch
    noteSize (max size (start + patch.length))
    afterWrite
  delete start stop := do
    let size := (← get).handle.size
    checkRange start stop size
    if start = stop then return
    scan (moveLeft (stop - start)) stop
    setLength (size - (stop - start))
    afterWrite
  insert position added := do
    let size := (← get).handle.size
    checkRange position position size
    if added.isEmpty then return
    scan (moveRight position added.length) size
    writeAt position added
    noteSize (size + added.length)
    afterWrite
  sync := flush
  close := modify fun file => { file with handle := { file.handle with isOpen := false } }

/-- Opens the file once more. -/
def reopen : Effect File Unit := do
  let file ← get
  let handle ← .within disk (fun disk file => { file with disk })
    (openAt file.handle.written file.handle.syncMode)
  modify ({ · with handle })

end File

end FramedStore
