import FramedStore.Router.Call

/-!
# Restarts

A router over a directory can be given up at any time, with whatever children it has open. Another one
is made over the same directory.
-/

namespace FramedStore

namespace MultiStore

/-- What happens to a router. -/
inductive Deed
  | task (task : Task)
  | restart
  deriving Repr, DecidableEq

/-- Does a task with children in files, or makes a router over the same directory in place of this one,
none of whose children is closed. -/
def onFiles : Deed → Effect (MultiStore FileChildren Handle) TagStore.Answer
  | .task task => performTask task
  | .restart => do
    let router ← get
    let { disk, directory, syncMode } := router.factory
    let children ← .ofExcept (FileChildren.inDirectory directory syncMode disk)
    set (router.restart children)
    return .done

/-- Does a task with children in memory; they would not survive a restart, so there is none. -/
def onParked : Deed → Effect (MultiStore Parked Memory) TagStore.Answer
  | .task task => performTask task
  | .restart => return .done

end MultiStore

end FramedStore
