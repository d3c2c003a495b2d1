import RequestEngine.Request.Record

/-!
The records of all requests. Every change of a record goes through the store, which reports the
record only if it changed. A request that runs comes with a token, which is cancelled together
with the request.
-/
namespace RequestEngine

/-- A token handed out when a request begins to run. -/
structure Token where
  serial : Nat
  deriving DecidableEq, Repr

structure Entry where
  record : RequestRecord
  token : Token
  deriving DecidableEq

structure Store where
  entries : List Entry
  /-- The identifiers in the order of submission, oldest first. -/
  order : List Uuid
  nextSerial : Nat
  cancelled : List Token
  deriving DecidableEq

namespace Store

def empty : Store := ⟨[], [], 0, []⟩

def entry? (s : Store) (id : Uuid) : Option Entry := s.entries.find? (·.record.id = id)

def get? (s : Store) (id : Uuid) : Option RequestRecord := (s.entry? id).map (·.record)

def isCancelled (s : Store) (t : Token) : Bool := s.cancelled.contains t

/-- Put in a record, in place of one with its identifier. It gets a place at the end of the order
and a token of its own. -/
def insert (s : Store) (r : RequestRecord) : Store where
  entries := s.entries.filter (·.record.id ≠ r.id) ++ [⟨r, ⟨s.nextSerial⟩⟩]
  order := s.order ++ [r.id]
  nextSerial := s.nextSerial + 1
  cancelled := s.cancelled

def insertIf {ε σ : Type} (s : Store) (r : RequestRecord) (allow : Uuid → Except ε σ) :
    Except ε (Store × σ) := do
  let allowed ← allow r.id
  return (s.insert r, allowed)

def replace (s : Store) (r : RequestRecord) : Store :=
  { s with entries := s.entries.map fun e =>
      if e.record.id = r.id then { e with record := r } else e }

/-- Change a record in a way that may not apply, and report it. -/
def change? (s : Store) (id : Uuid) (f : RequestRecord → Option RequestRecord) :
    Option (RequestRecord × Store) := do
  let r ← f (← s.get? id)
  return (r, s.replace r)

def begin? (s : Store) (now : Instant) (id : Uuid) : Option (RequestRecord × Token × Store) := do
  let e ← s.entry? id
  let (r, s) ← s.change? id (·.begin? now)
  return (r, e.token, s)

def complete? (s : Store) (now : Instant) (id : Uuid) (result : Json) :
    Option (RequestRecord × Store) :=
  s.change? id (·.complete? now result)

def fail? (s : Store) (now : Instant) (id : Uuid) (kind : FailureKind) (message : String) :
    Option (RequestRecord × Store) :=
  s.change? id (·.fail? now kind message)

def cancel? (s : Store) (now : Instant) (id : Uuid) (message : String) :
    Option (RequestRecord × Store) := do
  let e ← s.entry? id
  let (r, s) ← s.fail? now id .cancelled message
  return (r, { s with cancelled := e.token :: s.cancelled })

def Entry.isRunning (e : Entry) : Bool := e.record.state = .running

def failEntry (now : Instant) (message : String) (e : Entry) : Entry :=
  if Entry.isRunning e then
    match e.record.fail? now .failed message with
    | some r => { e with record := r }
    | none => e
  else e

/-- Fail all requests that run and cancel their tokens. The records that changed are reported. -/
def failRunning (s : Store) (now : Instant) (message : String) : List RequestRecord × Store :=
  let running := s.entries.filter Entry.isRunning
  (running.map fun e => (failEntry now message e).record,
    { s with
      entries := s.entries.map (failEntry now message)
      cancelled := running.map (·.token) ++ s.cancelled })

/-- The newest records, up to a number. -/
def recent (s : Store) (limit : Nat) : List RequestRecord :=
  (s.order.reverse.filterMap s.get?).take limit

/-- The places of requests that have ended, oldest first. -/
def ended (s : Store) : List Uuid :=
  s.order.filter fun id => (s.get? id).any (·.state.isTerminal)

/-- Evict the oldest requests that have ended, so that places for a number of them are left. -/
def cleanup (s : Store) (keep : Nat) : Nat × Store :=
  let evicted := (s.ended.take (s.ended.length - keep)).eraseDups
  (evicted.length,
    { s with
      entries := s.entries.filter fun e => !evicted.contains e.record.id
      order := s.order.filter fun id => !evicted.contains id })

def size (s : Store) : Nat := s.entries.length

def count (s : Store) (state : RequestState) : Nat :=
  (s.entries.filter (·.record.state = state)).length

end Store

end RequestEngine
