import FramedStore.Config
import FramedStore.Server
import FramedStore.TagStore.Basic

/-!
# Commands

The commands of the command line, each one call on a tag store. A command that finds nothing ends
with code 1, a failed one with code 2 and a message.
-/

namespace FramedStore

/-- A command with its arguments. -/
inductive Command
  /-- Puts a value in place of all under the tag. -/
  | put (tag value : String)
  /-- Prints the value under a tag. -/
  | get (tag : String)
  /-- Removes the first value under a tag. -/
  | delete (tag : String)
  /-- Tells whether there is a value under a tag. -/
  | has (tag : String)
  | tags
  deriving Repr, DecidableEq

namespace Command

/-- Where a command finds its tag store. -/
inductive Place
  | file (written : String)
  | server (address : String)
  deriving Repr, DecidableEq

/-- The command with a name and arguments. -/
def parse? : List String → Option Command
  | ["put", tag, value] => some (put tag value)
  | ["get", tag] => some (get tag)
  | ["del", tag] => some (delete tag)
  | ["exists", tag] => some (has tag)
  | ["tags"] => some tags
  | _ => none

/-- The place and the command of a command line; without a place it is the server at the usual
address. -/
def parseLine? : List String → Option (Place × Command)
  | "--file" :: written :: rest | "-f" :: written :: rest => ((.file written, ·)) <$> parse? rest
  | "--server" :: address :: rest | "-s" :: address :: rest =>
    ((.server address, ·)) <$> parse? rest
  | rest => ((.server ({} : Config).listenAddress, ·)) <$> parse? rest

/-- What a command shows: printed lines and an exit code. -/
structure Report where
  code : Nat
  output : String := ""
  errors : String := ""
  deriving Repr, DecidableEq

/-- A line that was printed, for a command that found what it looked for or did not. -/
def Report.line (found : Bool) (text : String) : Report :=
  { code := if found then 0 else 1, output := text ++ "\n" }

/-- The report of a failure, after what had been printed before. -/
def Report.failure (output : String) (e : Error) : Report :=
  { code := 2, output, errors := "(error) " ++ e.message ++ "\n" }

variable {σ : Type} [Storage σ]

/-- Makes the command's call on a tag store. -/
def execute : Command → Effect σ Report
  | put tag value => do
    if ← TagStore.put .byte tag (Utf8.encode value) then return .line true "OK (replaced)"
    else return .line true "OK"
  | get tag => do
    match ← TagStore.get? .byte tag with
    | some value => return .line true (Utf8.lossy value)
    | none => return .line false "(nil)"
  | delete tag => do
    match ← TagStore.erase .byte tag with
    | some _ => return .line true "(deleted)"
    | none => return .line false "(nil)"
  | has tag => do
    let found ← TagStore.contains .byte tag
    return .line found (if found then "true" else "false")
  | tags => do
    return { code := 0, output := String.join ((← TagStore.tags .byte).map (· ++ "\n")) }

/-- Makes the command's call and closes the storage. -/
def report (command : Command) : Effect σ Report := do
  match ← command.execute.attempt with
  | .error e => return .failure "" e
  | .ok report =>
    match ← (Storage.close : Effect σ Unit).attempt with
    | .error e => return .failure report.output e
    | .ok () => return report

/-- Runs a command on the file at a path. -/
def runOnFile (written : String) (command : Command) (disk : Disk) : Report × Disk :=
  match File.openAt written .never disk with
  | .error e disk => (.failure "" e, disk)
  | .ok handle disk =>
    match command.report (File.mk disk handle) with
    | .ok report file => (report, file.disk)
    | .error e file => (.failure "" e, file.disk)

/-- Runs a command on the storage of a server. -/
def runOnServer (maxPayload : Nat) (command : Command) (server : Server σ) : Report × Server σ :=
  match Link.connect maxPayload server with
  | .error e server => (.failure "" e, server)
  | .ok (channel, id) server =>
    match command.report (Remote.mk channel (Link.mk server id)) with
    | .ok report remote => (report, (Peer.hangUp remote.peer).server)
    | .error e remote => (.failure "" e, (Peer.hangUp remote.peer).server)

/-- What a command comes to if the server sends `received` and no more, and the bytes that are sent
to the server. More bytes from the server can only change the outcome if it is that the input ended,
and never the bytes sent up to there. -/
def converse (maxPayload : Nat) (received : Bytes) (command : Command) :
    Except Error Report × Bytes :=
  match Remote.connect maxPayload received ({} : Script) with
  | .error e script => (.error e, script.received)
  | .ok channel script =>
    match command.execute (Remote.mk channel script) with
    | .ok report remote => (.ok report, remote.peer.received)
    | .error e remote => (.error e, remote.peer.received)

/-- Runs commands one after the other; `left` tells what each leaves behind. -/
def runAll {δ : Type} (run : Command → σ → Report × σ) (left : σ → δ) :
    List Command → σ → List (Report × δ)
  | [], _ => []
  | command :: commands, state =>
    let (report, state) := run command state
    (report, left state) :: runAll run left commands state

end Command

end FramedStore
