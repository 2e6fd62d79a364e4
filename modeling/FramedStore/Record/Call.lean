import FramedStore.Record.Cursor

/-!
# Calls at a cursor as data

A `Call` names one use of a cursor over framed records with its arguments and an `Answer` is what it
gives.
-/

namespace FramedStore.Cursor

/-- A use of a cursor and the storage under it. -/
inductive Call
  | append (content : Bytes)
  | insert (content : Bytes)
  | delete
  | deleteMany (max : Int)
  | decode
  | decodeMany (max : Int)
  | skip
  | bounds
  | seek (offset : Nat)
  deriving Repr, DecidableEq

/-- What a call at a cursor gives. -/
inductive Answer
  | done
  | written (bounds : Bounds)
  | found (bounds : Option Bounds)
  | content (bytes : Option Bytes)
  | contents (list : List Bytes)
  | count (n : Nat)
  deriving Repr, DecidableEq

variable {σ : Type} [Storage σ]

/-- Makes a call. -/
def perform (framing : Framing) : Call → Effect (Cursor σ) Answer
  | .append content => do return .written (← onStorage (framing.append content))
  | .insert content => do return .written (← insert framing content)
  | .delete => do return .found (← delete? framing)
  | .deleteMany max => do return .count (← deleteMany framing max)
  | .decode => do return .content (← decode? framing)
  | .decodeMany max => do return .contents (← decodeMany framing max)
  | .skip => do return .found (← skip? framing)
  | .bounds => do return .found (← bounds? framing)
  | .seek offset => do
    seek offset
    return .done

end FramedStore.Cursor
