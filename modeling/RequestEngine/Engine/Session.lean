import RequestEngine.Engine.Running
import RequestEngine.Function.File

/-!
Sessions: sequences of commands to an engine. Each command is given to an engine at rest and carried
out with nobody acting beside it, and the next one is given when the engine has come to rest again.
Commands that overlap are in no session, nor is a worker that begins a request while its submission
has not yet been told of.
-/
namespace RequestEngine

/-- What can be asked of an engine. A submission brings the identifier it is to have. -/
inductive Command where
  | start
  | stop
  | submit (id : Uuid) (agent function : String) (parameters : Json) (timeout : Option UInt64)
  | cancel (id : Uuid)
  | wait (id : Uuid) (maxMs : Nat)
  | cleanup (keep : Nat)
  | setMaxWorkers (n : Nat)
  | setMaxQueueSize (n : Nat)
  | setDefaultTimeout (ms : UInt64)
  | load (table : FunctionTable)
  | loadFile (path : String) (content : Except FileFault ByteArray)
  | openGate (gate : String)
  | setRunning (agent : Uuid) (running : Bool)
  | forget (agent : String)
  | subscribe (name : String)
  | receive (name : String)

inductive Answer where
  | nothing
  | truth (b : Bool)
  | number (n : Nat)
  | submission (result : Except Rejection Uuid)
  | record (r : Option RequestRecord)
  | loaded (result : Except ConfigError Nat)
  | events (received : List (Received RequestEvent))

namespace Engine

/-- Carry out a command. -/
def perform (e : Engine) : Command → Answer × Engine
  | .start => let e := e.start; (.truth e.isRunning, e)
  | .stop => let e := e.stop; (.truth e.isRunning, e)
  | .submit id agent function parameters timeout =>
    let (result, e) := e.submit id agent function parameters timeout
    (.submission result, e)
  | .cancel id => let (b, e) := e.cancel id; (.truth b, e)
  | .wait id maxMs => let (r, e) := e.wait id maxMs; (.record r, e)
  | .cleanup keep => let (n, e) := e.cleanup keep; (.number n, e)
  | .setMaxWorkers n => let e := e.setMaxWorkers n; (.number e.maxWorkers, e)
  | .setMaxQueueSize n => let e := e.setMaxQueueSize n; (.number e.queue.capacity, e)
  | .setDefaultTimeout ms => (.number ms.toNat, e.setDefaultTimeout ms)
  | .load table => (.nothing, e.load table)
  | .loadFile path content =>
    match FunctionTable.ofFile path content with
    | .ok table => (.loaded (.ok table.functions.size), e.load table)
    | .error err => (.loaded (.error err), e)
  | .openGate gate => (.nothing, e.openGate gate)
  | .setRunning agent running =>
    (.nothing, { e with registry := e.registry.setRunning agent running })
  | .forget agent =>
    (.truth (agent ∉ e.registry.forgotten), { e with registry := e.registry.forget agent })
  | .subscribe name => (.nothing, { e with events := e.events.subscribe name })
  | .receive name =>
    match e.events.drain? name with
    | some (received, events) => (.events received, { e with events := events })
    | none => (.events [], e)

/-- Carry out a command, beside which nobody acts, and then come to rest. -/
def step (e : Engine) (c : Command) : Answer × Engine :=
  let (answer, e) := e.perform c
  (answer, e.settle)

/-- The engine after a session. -/
def after (e : Engine) (commands : List Command) : Engine :=
  commands.foldl (fun e c => (e.step c).2) e

end Engine

end RequestEngine
