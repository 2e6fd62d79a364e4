import FramedStore.Storage.Basic

/-!
# Storage in memory

`Memory` holds its content as a byte string, so that each call is one operation on it.
-/

namespace FramedStore

/-- A storage that is its content. -/
structure Memory where
  content : Bytes := []
  deriving Repr, DecidableEq, Inhabited

namespace Memory

/-- Changes the content if the range lies inside it. -/
def edit (start stop : Nat) (change : Bytes → Bytes) : Effect Memory Unit := do
  checkRange start stop (← get).content.length
  modify fun memory => ⟨change memory.content⟩

instance : Storage Memory where
  size := do return (← get).content.length
  slice start stop := do
    let memory ← get
    checkRange start stop memory.content.length
    return memory.content.slice start stop
  setAll bytes := set (Memory.mk bytes)
  append bytes := modify fun memory => ⟨memory.content ++ bytes⟩
  set start bytes := edit start start (·.overwrite start bytes)
  delete start stop := edit start stop (·.remove start stop)
  getAll := do return (← get).content
  insert position bytes := edit position position (·.insertAt position bytes)
  clear := set (Memory.mk [])

end Memory

end FramedStore
