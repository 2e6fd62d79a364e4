import FramedStore.Error

/-!
# Disks

A disk is a tree of directories and files, held as the list of its paths. Paths are lists of names;
the empty path is the directory in which relative paths start.
-/

namespace FramedStore

/-- The names on the way to a file or directory. -/
abbrev Path := List String

namespace Path

/-- The names in a written path. -/
def ofString (path : String) : Path :=
  (path.splitOn "/").foldl (fun names name =>
    if name = "" ∨ name = "." then names
    else if name = ".." then names.dropLast
    else names ++ [name]) []

/-- The path of a directory entry, as it is written. -/
def join (directory name : String) : String :=
  if name.startsWith "/" then name
  else if directory = "" ∨ directory.endsWith "/" then directory ++ name
  else directory ++ "/" ++ name

/-- The paths from the start to `path`, shortest first. -/
def fronts (path : Path) : List Path := (List.range (path.length + 1)).map path.take

/-- Whether a name is above the 255 bytes that a directory can hold. -/
def tooLong (name : String) : Bool := 255 < name.utf8ByteSize

/-- Whether a written path can only be a directory. -/
def isDirectoryForm (path : String) : Bool :=
  match (path.splitOn "/").getLast? with
  | some last => path ≠ "" && (last = "" || last = "." || last = "..")
  | none => false

end Path

/-- What is found at a path. -/
inductive Disk.Node
  | file (content : Bytes)
  | directory
  deriving Repr, DecidableEq

/-- The files and directories of a disk; of two nodes at one path the first counts. -/
structure Disk where
  nodes : List (Path × Disk.Node) := []
  deriving Repr, DecidableEq, Inhabited

namespace Disk

/-- The node at a path. -/
def find? (disk : Disk) (path : Path) : Option Node :=
  if path.isEmpty then some .directory else disk.nodes.lookup path

/-- The content of the file at a path. -/
def read? (disk : Disk) (path : Path) : Option Bytes :=
  match disk.find? path with
  | some (.file content) => some content
  | _ => none

/-- Puts a node at a path. -/
def put (disk : Disk) (path : Path) (node : Node) : Disk :=
  ⟨(path, node) :: disk.nodes.filter (·.1 ≠ path)⟩

/-- The nodes inside a directory, by name. -/
def list (disk : Disk) (directory : Path) : List (String × Node) :=
  disk.nodes.filterMap fun (path, node) =>
    match path.getLast? with
    | some name => if path.dropLast = directory then some (name, node) else none
    | none => none

/-- Whether there is a directory at a path. -/
def isDirectory (disk : Disk) (path : Path) : Bool := disk.find? path == some .directory

/-- Whether there is a file at a path. -/
def isFile (disk : Disk) (path : Path) : Bool := (disk.read? path).isSome

/-- Makes the directories on the way to a path that are missing. -/
def makeDirectories (disk : Disk) (path : Path) : Except SystemFault Disk :=
  if (Path.fronts path.dropLast).any disk.isFile then .error .notADirectory
  else if path.any Path.tooLong then .error .invalidFilename
  else if disk.isFile path then .error .alreadyExists
  else .ok ((Path.fronts path).foldl (fun disk front =>
    if disk.isDirectory front then disk else disk.put front .directory) disk)

/-- Finds the file at a written path; it is made, with the directories on the way to it, if it is
not there. -/
def openFile (disk : Disk) (written : String) : Except Fault Disk := do
  let path := Path.ofString written
  if written.contains (Char.ofNat 0) then throw .nulInPath
  if written.isEmpty then throw (.system .notFound)
  match disk.makeDirectories path.dropLast with
  | .error cause => throw (.system cause)
  | .ok disk =>
    if Path.isDirectoryForm written || disk.isDirectory path then throw (.system .isADirectory)
    if path.any Path.tooLong then throw (.system .invalidFilename)
    return if disk.isFile path then disk else disk.put path (.file [])

end Disk

end FramedStore
