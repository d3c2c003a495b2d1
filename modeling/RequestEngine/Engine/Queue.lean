import RequestEngine.Request.Rejection
import RequestEngine.Uuid

/-! The queue of requests that wait, first in, first out, with a bound on its length. -/
namespace RequestEngine

structure WorkQueue where
  items : List Uuid
  capacity : Nat
  deriving DecidableEq

namespace WorkQueue

def ofCapacity (capacity : Nat) : WorkQueue := ⟨[], capacity⟩

/-- Add an identifier at the back. A full queue refuses it. -/
def push (q : WorkQueue) (id : Uuid) : Except Rejection WorkQueue :=
  if q.capacity ≤ q.items.length then .error (.queueFull q.capacity)
  else .ok { q with items := q.items ++ [id] }

def pop? (q : WorkQueue) : Option (Uuid × WorkQueue) :=
  match q.items with
  | [] => none
  | id :: rest => some (id, { q with items := rest })

/-- Drop the foremost place of an identifier. -/
def remove (q : WorkQueue) (id : Uuid) : WorkQueue := { q with items := q.items.erase id }

/-- Change the bound for later additions. What is queued stays. -/
def setCapacity (q : WorkQueue) (capacity : Nat) : WorkQueue := { q with capacity := capacity }

def size (q : WorkQueue) : Nat := q.items.length

end WorkQueue

end RequestEngine
