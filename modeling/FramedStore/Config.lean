import FramedStore.Storage.File

/-!
# Configuration

The settings of file storages, routers, server and client, with their defaults.
-/

namespace FramedStore

/-- The version of the library. -/
def version : String := "0.1.0"

/-- All settings. -/
structure Config where
  /-- The directory under which all files are kept. -/
  dataDir : String := "./tagframe_data"
  syncMode : SyncMode := .never
  /-- The most children that a router keeps open. -/
  maxOpenChildren : Nat := 100
  listenAddress : String := "127.0.0.1:7411"
  maxConnections : Nat := 1024
  /-- Milliseconds to wait for bytes; zero is for ever. -/
  readTimeout : Nat := 0
  /-- Milliseconds to wait for room to write; zero is for ever. -/
  writeTimeout : Nat := 0
  /-- The longest payload that is accepted. -/
  maxPayload : Nat := 268435456
  deriving Repr, DecidableEq

namespace Config

/-- The file of a single store. -/
def storePath (config : Config) : String := Path.join config.dataDir "store.tfr"

/-- The directory of the files of a router's children. -/
def childrenDir (config : Config) : String := Path.join config.dataDir "children"

end Config

end FramedStore
