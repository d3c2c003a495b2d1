import RequestEngine.Engine.Queue

/-!
A queue at which others wait for an identifier until they are told to stop. An addition wakes the
one that has waited longest, or leaves a wakeup for the next to come; more than one is never kept.
-/
namespace RequestEngine

/-- Someone who waits, and the stop signal that is listened to. -/
structure Waiter where
  name : String
  signal : String
  deriving DecidableEq

/-- What a wait ended with: an identifier, or nothing after a stop. -/
structure Delivery where
  waiter : String
  id : Option Uuid
  deriving DecidableEq

structure WaitingQueue where
  queue : WorkQueue
  wakeup : Bool
  /-- Those who wait, the longest first. -/
  waiters : List Waiter
  stopped : List String
  deriving DecidableEq

namespace WaitingQueue

def ofCapacity (capacity : Nat) : WaitingQueue := ⟨.ofCapacity capacity, false, [], []⟩

/-- Wake one of those who wait, who takes an identifier and wakes the next if there are more. One
who finds none waits again, behind the others. -/
def wake (q : WaitingQueue) : (waiters : List Waiter) → WaitingQueue × List Delivery
  | [] => ({ q with waiters := [], wakeup := true }, [])
  | w :: rest =>
    match q.queue.pop? with
    | none => ({ q with waiters := rest ++ [w] }, [])
    | some (id, queue) =>
      let q := { q with queue := queue, waiters := rest }
      if queue.items = [] then (q, [⟨w.name, some id⟩])
      else
        let (q, deliveries) := q.wake rest
        (q, ⟨w.name, some id⟩ :: deliveries)

def push (q : WaitingQueue) (id : Uuid) : Except Rejection (WaitingQueue × List Delivery) := do
  let queue ← q.queue.push id
  return { q with queue := queue }.wake q.waiters

/-- Begin to wait. If there is an identifier it is delivered at once, and if there are more
someone else is woken; a kept wakeup is used up by finding nothing. -/
def await (q : WaitingQueue) (w : Waiter) : WaitingQueue × List Delivery :=
  if w.signal ∈ q.stopped then (q, [⟨w.name, none⟩])
  else
    match q.queue.pop? with
    | none => ({ q with wakeup := false, waiters := q.waiters ++ [w] }, [])
    | some (id, queue) =>
      let q := { q with queue := queue }
      if queue.items = [] then (q, [⟨w.name, some id⟩])
      else
        let (q, deliveries) := q.wake q.waiters
        (q, ⟨w.name, some id⟩ :: deliveries)

/-- Give a stop signal, for those who wait and those to come. -/
def stop (q : WaitingQueue) (signal : String) : WaitingQueue × List Delivery :=
  ({ q with
      stopped := signal :: q.stopped
      waiters := q.waiters.filter (·.signal ≠ signal) },
    (q.waiters.filter (·.signal = signal)).map fun w => ⟨w.name, none⟩)

def pop? (q : WaitingQueue) : Option (Uuid × WaitingQueue) :=
  q.queue.pop?.map fun (id, queue) => (id, { q with queue := queue })

def remove (q : WaitingQueue) (id : Uuid) : WaitingQueue :=
  { q with queue := q.queue.remove id }

def setCapacity (q : WaitingQueue) (capacity : Nat) : WaitingQueue :=
  { q with queue := q.queue.setCapacity capacity }

end WaitingQueue

end RequestEngine
