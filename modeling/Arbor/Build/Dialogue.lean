import Arbor.Build.Event

/-!
# Dialogues

A build talks to the world outside in four ways: it gets and puts entries of a store, it reports
events, and it reads a clock. A dialogue is a build seen from there, as the tree of its requests and
what follows on each answer. `Dialogue.run` lets any monad answer.
-/

namespace Arbor.Build

abbrev Bytes := List UInt8

/-- A computation that talks to a store, an observer and a clock in milliseconds. -/
inductive Dialogue (α : Type) where
  | done (a : α)
  | get (key : String) (next : Except Error (Option Bytes) → Dialogue α)
  | put (key : String) (bytes : Bytes) (next : Except Error Unit → Dialogue α)
  | note (event : Event) (next : Dialogue α)
  | clock (next : Nat → Dialogue α)

namespace Dialogue

variable {α β : Type}

def bind : Dialogue α → (α → Dialogue β) → Dialogue β
  | done a, f => f a
  | get key next, f => get key fun answer => (next answer).bind f
  | put key bytes next, f => put key bytes fun answer => (next answer).bind f
  | note event next, f => note event (next.bind f)
  | clock next, f => clock fun time => (next time).bind f

instance : Monad Dialogue where
  pure := done
  bind := bind

def fetch (key : String) : Dialogue (Except Error (Option Bytes)) := get key done

def store (key : String) (bytes : Bytes) : Dialogue (Except Error Unit) := put key bytes done

def report (event : Event) : Dialogue Unit := note event (done ())

def now : Dialogue Nat := clock done

end Dialogue

structure Partner (m : Type → Type) where
  get : String → m (Except Error (Option Bytes))
  put : String → Bytes → m (Except Error Unit)
  note : Event → m Unit
  clock : m Nat

def Dialogue.run {m : Type → Type} [Monad m] {α : Type} (partner : Partner m) : Dialogue α → m α
  | done a => pure a
  | get key next => do (next (← partner.get key)).run partner
  | put key bytes next => do (next (← partner.put key bytes)).run partner
  | note event next => do
    partner.note event
    next.run partner
  | clock next => do (next (← partner.clock)).run partner

end Arbor.Build
