import RequestEngine.Agent.Registry
import RequestEngine.Engine.Config
import RequestEngine.Engine.EventBus
import RequestEngine.Engine.Pool
import RequestEngine.Engine.Queue
import RequestEngine.Engine.Statistics
import RequestEngine.Function.Config
import RequestEngine.Request.Event

/-!
The engine: it checks and queues submissions, keeps their records, counts and tells what becomes
of them. Time is a clock in milliseconds that only passes while the engine waits.
-/
namespace RequestEngine

structure Engine where
  registry : Registry
  functions : FunctionTable
  store : Store
  queue : WorkQueue
  statistics : Statistics
  events : EventBus RequestEvent
  pool : Option Pool
  maxWorkers : Nat
  defaultTimeout : UInt64
  shutdownGraceMs : Nat
  openGates : List String
  /-- The time at which the clock began, in milliseconds since the epoch. -/
  startMs : Nat
  clock : Nat

namespace Engine

/-- An engine that does not run yet. It has at least one worker. -/
def new (registry : Registry) (config : EngineConfig) (startMs : Nat) : Engine where
  registry := registry
  functions := .empty
  store := .empty
  queue := .ofCapacity config.maxQueueSize.toNat
  statistics := .zero
  events := .ofCapacity config.eventBufferSize.toNat
  pool := none
  maxWorkers := max config.maxWorkers.toNat 1
  defaultTimeout := config.defaultTimeoutMs
  shutdownGraceMs := config.shutdownGraceMs.toNat
  openGates := []
  startMs := startMs
  clock := 0

def now (e : Engine) : Instant := .ofMillis (e.startMs + e.clock)

def isRunning (e : Engine) : Bool := e.pool.isSome

def workers (e : Engine) : Nat := (e.pool.map Pool.size).getD 0

def emit (e : Engine) (event : RequestEvent) : Engine := { e with events := e.events.emit event }

/-- The timeout of a submission: the one given, else that of the function, else the default. -/
def timeoutFor (e : Engine) (function : String) (given : Option UInt64) : UInt64 :=
  given.getD (e.functions.timeout function e.defaultTimeout)

/-- Accept a request under a new identifier and queue it, unless there is a reason to refuse it. -/
def enqueue (e : Engine) (id : Uuid) (agent function : String) (parameters : Json)
    (timeout : Option UInt64) : Except Rejection Engine := do
  if (e.registry.resolve? agent).isNone then throw (.unknownAgent agent)
  if let some name := e.functions.missingParameter? function parameters then
    throw (.missingParameter agent function name)
  let record := RequestRecord.new id e.now agent function parameters (e.timeoutFor function timeout)
  let (store, queue) ← e.store.insertIf record e.queue.push
  return { e with
    store := store
    queue := queue
    statistics := e.statistics.recordSubmitted
    events := e.events.emit (.submitted id agent function e.now) }

/-- Submit a request. A refusal is counted and changes nothing else. -/
def submit (e : Engine) (id : Uuid) (agent function : String) (parameters : Json)
    (timeout : Option UInt64) : Except Rejection Uuid × Engine :=
  match e.enqueue id agent function parameters timeout with
  | .ok e => (.ok id, e)
  | .error r => (.error r, { e with statistics := e.statistics.recordRejected })

def recordEnd (e : Engine) (r : RequestRecord) : Engine :=
  { e with
    statistics := e.statistics.recordEnd r.state r.executionMs
    events := e.events.emit (.finished r.id r.state r.error (r.executionMs.getD 0) e.now) }

/-- Take over a change of the store that ended a request, if there was one. -/
def report (e : Engine) : Option (RequestRecord × Store) → Engine
  | some (r, store) => { e with store := store }.recordEnd r
  | none => e

def complete (e : Engine) (id : Uuid) (result : Json) : Engine :=
  e.report (e.store.complete? e.now id result)

def fail (e : Engine) (id : Uuid) (kind : FailureKind) (message : String) : Engine :=
  e.report (e.store.fail? e.now id kind message)

def cancelledMessage : String := "Request cancelled by caller"

def stoppedMessage : String := "Workflow manager stopped before completion"

def cancel (e : Engine) (id : Uuid) : Bool × Engine :=
  match e.store.cancel? e.now id cancelledMessage with
  | some (r, store) => (true, { e with store := store, queue := e.queue.remove id }.recordEnd r)
  | none => (false, e)

def status? (e : Engine) (id : Uuid) : Option RequestRecord := e.store.get? id

/-- The result document of a request, or the one for an unknown identifier. -/
def resultDocument (e : Engine) (id : Uuid) : Json :=
  match e.store.get? id with
  | some r => r.document
  | none => unknownDocument id

def systemStatus (e : Engine) : Json :=
  .object [
    ("agents", .array (e.registry.list.map .string)),
    ("default_timeout_ms", .word e.defaultTimeout),
    ("max_queue_size", .nat e.queue.capacity),
    ("max_workers", .nat e.maxWorkers),
    ("queue_size", .nat e.queue.size),
    ("running", .bool e.isRunning),
    ("running_requests", .nat (e.store.count .running)),
    ("statistics", e.statistics.toJson),
    ("stored_requests", .nat e.store.size),
    ("worker_threads", .nat e.workers)]

/-- Change the number of workers, at once if the engine runs. There is always one. -/
def setMaxWorkers (e : Engine) (n : Nat) : Engine :=
  { e with maxWorkers := max n 1, pool := e.pool.map (·.resize (max n 1)) }

def setMaxQueueSize (e : Engine) (n : Nat) : Engine := { e with queue := e.queue.setCapacity n }

def setDefaultTimeout (e : Engine) (ms : UInt64) : Engine := { e with defaultTimeout := ms }

def load (e : Engine) (t : FunctionTable) : Engine := { e with functions := t }

def openGate (e : Engine) (gate : String) : Engine :=
  { e with openGates := gate :: e.openGates }

def cleanup (e : Engine) (keep : Nat) : Nat × Engine :=
  let (count, store) := e.store.cleanup keep
  (count, { e with store := store })

end Engine

end RequestEngine
