import Arbor.Build.Dialogue

/-!
# Stores in memory

Entries by name. A put replaces the entry of its name and leaves all others as they are.
-/

namespace Arbor.Cache

/-- A store in memory, with at most one entry of a name. -/
structure Memory where
  entries : List (String × Build.Bytes) := []
deriving DecidableEq, Repr, Inhabited

namespace Memory

variable (memory : Memory)

def size : Nat := memory.entries.length

def isEmpty : Bool := memory.entries.isEmpty

def get? (key : String) : Option Build.Bytes := memory.entries.lookup key

def put (key : String) (bytes : Build.Bytes) : Memory :=
  ⟨(key, bytes) :: memory.entries.filter (·.1 != key)⟩

theorem get?_put_self (key : String) (bytes : Build.Bytes) :
    (memory.put key bytes).get? key = some bytes := by
  simp [get?, put]

end Memory

end Arbor.Cache
