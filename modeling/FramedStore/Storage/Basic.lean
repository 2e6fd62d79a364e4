import FramedStore.Effect

/-!
# Storages

A storage is a byte string that can be read, written and resized in place. `Storage σ` says that
states of type `σ` hold one. Six calls are required; the others have definitions in terms of them.
-/

namespace FramedStore

/-- Refuses a range that does not lie inside a storage of `size` bytes. -/
def checkRange {σ : Type} (start stop size : Nat) : Effect σ Unit :=
  if start ≤ stop ∧ stop ≤ size then pure () else throw (.outOfRange start stop size)

/-- A state that holds a growable byte string. -/
class Storage (σ : Type) where
  /-- The number of bytes. -/
  size : Effect σ Nat
  /-- The bytes from `start` up to `stop`. -/
  slice (start stop : Nat) : Effect σ Bytes
  /-- Replaces the whole content. -/
  setAll (bytes : Bytes) : Effect σ Unit
  /-- Adds bytes at the end. -/
  append (bytes : Bytes) : Effect σ Unit
  /-- Writes over the bytes from `start` on, past the end if need be. -/
  set (start : Nat) (bytes : Bytes) : Effect σ Unit
  /-- Removes the bytes from `start` up to `stop`. -/
  delete (start stop : Nat) : Effect σ Unit
  /-- The whole content. -/
  getAll : Effect σ Bytes := do
    slice 0 (← size)
  /-- Puts bytes in at `position`: the tail is read, and written again behind them. -/
  insert (position : Nat) (bytes : Bytes) : Effect σ Unit := do
    let size ← size
    checkRange position size size
    let tail ← slice position size
    set position (bytes ++ tail)
  /-- Removes everything. -/
  clear : Effect σ Unit := setAll []
  /-- Brings written bytes to the medium. -/
  sync : Effect σ Unit := pure ()
  /-- Gives up the file or connection. -/
  close : Effect σ Unit := pure ()

/-- The storage in the part of a state that `view` shows and `update` puts back. -/
@[reducible] def Storage.inPart {σ τ : Type} [Storage τ] (view : σ → τ) (update : τ → σ → σ) :
    Storage σ where
  size := .within view update Storage.size
  slice start stop := .within view update (Storage.slice start stop)
  setAll bytes := .within view update (Storage.setAll bytes)
  append bytes := .within view update (Storage.append bytes)
  set start bytes := .within view update (Storage.set start bytes)
  delete start stop := .within view update (Storage.delete start stop)
  getAll := .within view update Storage.getAll
  insert position bytes := .within view update (Storage.insert position bytes)
  clear := .within view update Storage.clear
  sync := .within view update Storage.sync
  close := .within view update Storage.close

end FramedStore
