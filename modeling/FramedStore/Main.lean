import FramedStore.Cli
import Std.Async.TCP

/-!
# The command line

Reads the arguments, runs the command on a file or on the storage of a server, and prints its
report. The file is read as a whole before the command and written back after it.
-/

namespace FramedStore.Main

open Std.Async

/-- The node at a path, if there is one. -/
def loadNode (written : String) : IO (Option Disk.Node) := do
  let path := (← IO.currentDir) / written
  if ← path.isDir then return some .directory
  if ← path.pathExists then return some (.file (← IO.FS.readBinFile path).toList)
  return none

/-- The disk as far as it is seen from a path: what is there is read, and nothing else. -/
def loadDisk (written : String) : IO Disk := do
  match ← loadNode written with
  | some node => return ({} : Disk).put (Path.ofString written) node
  | none => return {}

/-- Writes the file at a path, if it is there and has changed. -/
def storeDisk (written : String) (before after : Disk) : IO Unit := do
  let path := Path.ofString written
  if let some content := after.read? path then
    if before.read? path ≠ some content then
      let directory := "/".intercalate (written.splitOn "/").dropLast
      unless directory.isEmpty do IO.FS.createDirAll directory
      IO.FS.writeBinFile written ⟨content.toArray⟩

/-- Runs a command on a file. -/
def onFile (written : String) (command : Command) : IO Command.Report := do
  let before ← loadDisk written
  let (report, after) := command.runOnFile written before
  storeDisk written before after
  return report

/-- The socket of a written address, whose two parts are numbers. -/
def parseAddress? (address : String) : Option Std.Net.SocketAddress := do
  match address.splitOn ":" with
  | [host, number] =>
    let host ← Std.Net.IPv4Addr.ofString host
    return .v4 ⟨host, UInt16.ofNat (← number.toNat?)⟩
  | _ => none

/-- Sends what a command has to send and takes bytes in until it has its outcome. -/
partial def talk (client : TCP.Socket.Client) (command : Command) (received : Bytes)
    (sent : Nat) : Async Command.Report := do
  let (outcome, bytes) := command.converse ({} : Config).maxPayload received
  let unsent := bytes.drop sent
  unless unsent.isEmpty do client.send ⟨unsent.toArray⟩
  match outcome with
  | .ok report => return report
  | .error (.io .endOfInput) =>
    match ← client.recv? 65536 with
    | some more => talk client command (received ++ more.toList) bytes.length
    | none => return .failure "" (.io .endOfInput)
  | .error e => return .failure "" e

/-- Runs a command on the storage of a server. -/
def onServer (address : String) (command : Command) : IO Command.Report := do
  match parseAddress? address with
  | none => return .failure "" (.io (.other "invalid socket address"))
  | some address =>
    let client ← TCP.Socket.Client.mk
    try
      (client.connect address).block
    catch _ => return .failure "" (.io (.system .connectionRefused))
    try
      (talk client command [] 0).block
    catch _ => return .failure "" (.io .endOfInput)

end FramedStore.Main

open FramedStore in
/-- The command line: `[--file PATH | --server ADDRESS] COMMAND ARGUMENTS`. -/
def main (args : List String) : IO UInt32 := do
  match Command.parseLine? args with
  | none =>
    IO.eprintln ("usage: framed-store [--file PATH | --server ADDRESS] "
      ++ "put TAG VALUE | get TAG | del TAG | exists TAG | tags")
    return 2
  | some (place, command) =>
    let report ← match place with
      | .file written => Main.onFile written command
      | .server address => Main.onServer address command
    IO.print report.output
    IO.eprint report.errors
    return UInt32.ofNat report.code
