import RequestEngine.Engine.Basic

/-!
What the workers do. A worker that waits takes the request at the front of the queue and calls its
agent; the call ends by itself, by its deadline, or when it is dropped. The engine is at rest when
nothing happens any more without someone opening a gate.
-/
namespace RequestEngine.Engine

def isOpen (e : Engine) (j : Job) : Bool := j.gate?.any e.openGates.contains

def isCancelled (e : Engine) (j : Job) : Bool := e.store.isCancelled j.token

/-- When a call ends if nothing else happens. A call that was cancelled is dropped at once, unless
it blocks. -/
def endOf (e : Engine) (j : Job) : Nat :=
  if e.isOpen j then e.clock
  else if e.isCancelled j && !j.isBlocking then e.clock
  else
    match j.reply with
    | .after ms _ => min (j.startedMs + ms) j.deadline
    | .atGate .. => j.deadline

/-- How a call ends, unless its time is up first. -/
def ending? (e : Engine) (j : Job) : Option Ending :=
  match j.reply with
  | .after ms ending => if ms < j.record.timeout.toNat then some ending else none
  | .atGate _ _ v => if e.isOpen j ∧ e.clock < j.deadline then some (.value v) else none

/-- Draw the consequences of the end of a call. There are none if its request was cancelled. -/
def conclude (e : Engine) (j : Job) : Engine :=
  let r := j.record
  if e.isCancelled j then e
  else
    match e.ending? j with
    | some (.value v) => e.complete r.id v
    | some (.error err) => e.fail r.id .failed err.message
    | some .panic =>
      e.fail r.id .failed ("Agent " ++ r.agent ++ " panicked during " ++ r.function)
    | none =>
      e.fail r.id .timeout ("Request timed out after " ++ Decimal.text r.timeout.toNat ++ " ms")

def finish (e : Engine) (j : Job) : Engine :=
  conclude { e with pool := e.pool.map (·.finish j) } j

/-- Let a worker that waits take the request at the front of the queue. -/
def dispatch? (e : Engine) : Option Engine := do
  let p ← e.pool
  let w ← p.idle.head?
  let (id, queue) ← e.queue.pop?
  let e := { e with queue := queue }
  match e.store.begin? e.now id with
  | none => return e
  | some (r, token, store) =>
    let e := { e with store := store }.emit (.started id w e.now)
    match e.registry.resolve? r.agent with
    | none =>
      return { e with pool := some p.rotate }.fail id .failed ("Agent not found: " ++ r.agent)
    | some a =>
      if a.running then
        let reply := a.call r.function r.parameters
        return { e with pool := some (p.assign ⟨w, r, token, reply, e.clock⟩) }
      else
        return { e with pool := some p.rotate }.fail id .failed
          ("Agent " ++ r.agent ++ " is not running")

def jobs (e : Engine) : List Job := (e.pool.map Pool.jobs).getD []

/-- The call that ends first; of several the first to have been taken up. -/
def firstToEnd? (e : Engine) : Option Job :=
  e.jobs.foldl (fun best j =>
    match best with
    | some b => if e.endOf j < e.endOf b then some j else some b
    | none => some j) none

/-- The next thing that happens: the end of a call that is due, or a dispatch. With neither, time
passes until the next end of a call, if there is patience to wait for it. -/
def step? (e : Engine) (patient : Nat → Bool) : Option Engine :=
  match e.firstToEnd? with
  | none => e.dispatch?
  | some j =>
    let due := e.endOf j
    if due ≤ e.clock then some (e.finish j)
    else
      match e.dispatch? with
      | some e => some e
      | none => if patient due then some ({ e with clock := due }.finish j) else none

/-- How much can happen: each queued request is dispatched and its call ended, and so is each call
that goes on. -/
def work (e : Engine) : Nat := 2 * e.queue.size + e.jobs.length

/-- Let happen what happens, up to a number of things. -/
def run (patient : Engine → Nat → Bool) : (room : Nat) → Engine → Engine
  | 0, e => e
  | room + 1, e =>
    match e.step? (patient e) with
    | some e => run patient room e
    | none => e

/-- A call with at least this timeout is left waiting at its gate. -/
def restingTimeoutMs : Nat := 1000

/-- Whether a call ends without a gate being opened, soon enough to wait for it. -/
def isRestless (e : Engine) (j : Job) : Bool :=
  !e.isCancelled j &&
    match j.reply with
    | .after .. => true
    | .atGate .. => j.record.timeout.toNat < restingTimeoutMs

/-- Let everything happen that needs nobody else. -/
def settle (e : Engine) : Engine := run (fun e _ => e.jobs.any e.isRestless) e.work e

def advanceTo (e : Engine) (time : Nat) : Engine :=
  let e := run (fun _ due => due ≤ time) e.work e
  { e with clock := max e.clock time }

def start (e : Engine) : Engine :=
  if e.pool.isSome then e else { e with pool := some (.ofSize e.maxWorkers) }

/-- Let calls that go on end, for a time of grace. Nothing new is begun. -/
def drain (e : Engine) : Engine :=
  let limit := e.clock + e.shutdownGraceMs
  let e := { e with pool := e.pool.map Pool.retire }
  let e := run (fun _ due => due ≤ limit) e.jobs.length e
  if e.jobs = [] then e else { e with clock := max e.clock limit }

/-- Let all workers go. Requests that still run when the time of grace is over fail; those in the
queue stay there. -/
def stop (e : Engine) : Engine :=
  if e.pool.isNone then e
  else
    let e := e.drain
    let (failed, store) := e.store.failRunning e.now stoppedMessage
    failed.foldl recordEnd { e with pool := none, store := store }

def pollMs : Nat := 10

/-- Look at a request up to a number of times, until it has ended or the time is up. -/
def poll (id : Uuid) (deadline : Nat) : (times : Nat) → Engine → Option RequestRecord × Engine
  | 0, e => (e.status? id, e)
  | times + 1, e =>
    match e.status? id with
    | none => (none, e)
    | some r =>
      if r.state.isTerminal ∨ deadline ≤ e.clock then (some r, e)
      else poll id deadline times (e.advanceTo (e.clock + pollMs))

/-- Wait for the end of a request, but not for too long. The record is as last seen. -/
def wait (e : Engine) (id : Uuid) (maxMs : Nat) : Option RequestRecord × Engine :=
  poll id (e.clock + maxMs) (maxMs / pollMs + 1) e

end RequestEngine.Engine
