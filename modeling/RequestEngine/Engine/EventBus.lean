/-!
A bus that hands every event to all who are subscribed. It keeps a bounded number of events; who is
further behind than that is told how many were lost.
-/
namespace RequestEngine

universe u

inductive Received (α : Type u) where
  | lost (count : Nat)
  | event (e : α)

structure EventBus (α : Type u) where
  room : Nat
  sent : Nat
  /-- The last of them, oldest first. -/
  kept : List α
  /-- The subscribers, and how many events each has behind it. -/
  subscribers : List (String × Nat)
  closed : Bool

namespace EventBus

variable {α : Type u}

def leastPowerOfTwo (n : Nat) : Nat := 1 <<< (2 * n - 1).log2

/-- A bus that keeps the least power of two that is no less than a capacity. -/
def ofCapacity (capacity : Nat) : EventBus α := ⟨leastPowerOfTwo (max capacity 1), 0, [], [], false⟩

def subscribe (b : EventBus α) (name : String) : EventBus α :=
  if b.closed then b
  else { b with subscribers := (name, b.sent) :: b.subscribers.filter (·.1 ≠ name) }

def unsubscribe (b : EventBus α) (name : String) : EventBus α :=
  { b with subscribers := b.subscribers.filter (·.1 ≠ name) }

def isSubscribed (b : EventBus α) (name : String) : Bool := b.subscribers.any (·.1 = name)

def emit (b : EventBus α) (e : α) : EventBus α :=
  if b.closed then b
  else
    let kept := b.kept ++ [e]
    { b with sent := b.sent + 1, kept := kept.drop (kept.length - b.room) }

/-- What a subscriber with some events behind it gets. -/
def pending (b : EventBus α) (behind : Nat) : List (Received α) :=
  let missed := b.sent - behind
  let events := (b.kept.drop (b.kept.length - missed)).map .event
  if b.room < missed then .lost (missed - b.room) :: events else events

def drain? (b : EventBus α) (name : String) : Option (List (Received α) × EventBus α) :=
  (b.subscribers.lookup name).map fun behind =>
    (b.pending behind, { b with
      subscribers := b.subscribers.map fun s => if s.1 = name then (name, b.sent) else s })

def close (b : EventBus α) : EventBus α := { b with closed := true }

end EventBus

end RequestEngine
