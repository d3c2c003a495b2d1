import RequestEngine.Agent.Builtin
import RequestEngine.CommandLine.Invocation
import RequestEngine.CommandLine.Outcome
import RequestEngine.Engine.Running
import RequestEngine.Json.Decoder

/-!
The commands that run an engine: one request whose events are shown as they come, or a batch of
requests from a file.
-/
namespace RequestEngine.CommandLine

/-- What a run finds around it. -/
structure Surroundings where
  read : String → Except FileFault ByteArray
  obstacle : String → Option FileFault
  ids : Nat → Uuid
  /-- The second, on the clock by which waits are measured, in which the run begins. -/
  uptimeSecs : Nat

/-- The agents that are always there. They use up the first identifiers. -/
def builtinRegistry (ids : Nat → Uuid) : Registry :=
  (builtinAgents.zipIdx).foldl (fun r (a, i) => r.register (ids i) a) .empty

/-- The identifier of a submission, after those of the agents. -/
def requestId (s : Surroundings) (n : Nat) : Uuid := s.ids (builtinAgents.length + n)

/-- An engine with the settings of the command line. Other settings are the usual ones. Nothing
that is shown tells a date, so the clock begins at the epoch. -/
def engineFor (s : Surroundings) (o : EngineOptions) : Engine :=
  .new (builtinRegistry s.ids)
    { EngineConfig.usual with
      maxWorkers := o.workers
      maxQueueSize := o.queueSize
      defaultTimeoutMs := o.defaultTimeoutMs }
    0

def startEngine (s : Surroundings) (o : EngineOptions) : Except Failure Engine := do
  let e := engineFor s o
  match o.functions with
  | none => return e.start
  | some path =>
    match FunctionTable.ofFile path (s.read path) with
    | .ok table => return (e.load table).start
    | .error err => throw (.ofEngineConfig path err)

def maxClockSecs : Nat := UInt64.size / 2 - 1

/-- Whether the end of a wait can be told on the clock. -/
def canWait (s : Surroundings) (e : Engine) (secs : UInt64) : Bool :=
  s.uptimeSecs + e.clock / 1000 + secs.toNat ≤ maxClockSecs

def waitMs (o : EngineOptions) : Nat := 1000 * o.waitSecs.toNat

def watcher : String := "watcher"

def eventLine : RequestEvent → String
  | .submitted id agent function _ =>
    "📨 Submitted " ++ id.text ++ " -> " ++ agent ++ "." ++ function
  | .started _ worker _ => "  ⚡ Running on worker " ++ Decimal.text worker
  | .finished _ state none ms _ => "  ✅ " ++ state.text ++ " in " ++ Decimal.text ms ++ "ms"
  | .finished _ state (some error) _ _ => "  ❌ " ++ state.text ++ ": " ++ error

/-- The lines of the events so far, as far as they are kept. -/
def eventLines (e : Engine) : List String :=
  let received := ((e.events.drain? watcher).map (·.1)).getD []
  received.filterMap fun
    | .event event => some (eventLine event)
    | .lost _ => none

/-- How long events are still shown after the end of a request. -/
def catchUpMs : Nat := 50

def runRequest (s : Surroundings) (agent function : String) (parameters : Option String)
    (timeout : Option UInt64) (o : EngineOptions) : Outcome :=
  match (parameters.map Json.parse).getD (.ok (.object [])) with
  | .error err => .ofExit (.failure ⟨"params must be valid JSON", [err.message]⟩)
  | .ok parameters =>
    match startEngine s o with
    | .error f => .ofExit (.failure f)
    | .ok e =>
      let e := { e with events := e.events.subscribe watcher }
      let id := requestId s 0
      match e.submit id agent function parameters timeout with
      | (.error r, _) => .ofExit (.failure (.ofText r.message))
      | (.ok _, e) =>
        if !canWait s e o.waitSecs then
          ⟨eventLines (e.advanceTo e.clock), .breakdown, none, 0⟩
        else
          match e.wait id (waitMs o) with
          | (none, e) =>
            ⟨eventLines e, .failure (.ofText "request disappeared from the store"), none, e.clock⟩
          | (some record, e) =>
            let e := e.advanceTo (e.clock + catchUpMs)
            let shown := eventLines e
            let e := e.stop
            let exit :=
              if record.state = .completed then Exit.success
              else .failure (.ofText ("request finished in state " ++ record.state.text))
            ⟨shown ++ ["", (e.resultDocument id).pretty], exit, none, e.clock⟩

structure BatchEntry where
  agent : String
  function : String
  parameters : Json
  timeout : Option UInt64
  deriving DecidableEq

namespace BatchEntry

structure Draft where
  agent : Option String
  function : Option String
  parameters : Option Json
  timeout : Option (Option UInt64)

def Draft.finish (d : Draft) : Except Json.Mismatch BatchEntry := do
  return {
    agent := ← Json.Decoder.required "agent" d.agent
    function := ← Json.Decoder.required "function" d.function
    parameters := d.parameters.getD .null
    timeout := d.timeout.getD none }

def fields : List (Json.Decoder.Field Draft) := [
  ⟨"agent", Json.Decoder.string.map fun v d => { d with agent := some v }, (·.agent.isSome), false⟩,
  ⟨"function", Json.Decoder.string.map fun v d => { d with function := some v },
    (·.function.isSome), false⟩,
  ⟨"params", Json.Decoder.anyValue.map fun v d => { d with parameters := some v },
    (·.parameters.isSome), true⟩,
  ⟨"timeout_ms", (Json.Decoder.word "u64").nullable.map fun v d => { d with timeout := some v },
    (·.timeout.isSome), false⟩]

def decoder : Json.Decoder BatchEntry :=
  .record ⟨"BatchEntry", fields, ⟨none, none, none, none⟩, Draft.finish⟩

/-- The parameters to submit: an empty object for null. -/
def givenParameters (b : BatchEntry) : Json :=
  if b.parameters = .null then .object [] else b.parameters

end BatchEntry

/-- An engine with the requests submitted to it so far, and a line for each refused entry. -/
structure BatchProgress where
  engine : Engine
  submitted : List Uuid
  refusals : List String

def BatchProgress.submit (s : Surroundings) (p : BatchProgress) (b : BatchEntry) :
    BatchProgress :=
  let id := requestId s p.submitted.length
  match p.engine.submit id b.agent b.function b.givenParameters b.timeout with
  | (.ok id, e) => { p with engine := e, submitted := p.submitted ++ [id] }
  | (.error r, e) =>
    { p with
      engine := e
      refusals := p.refusals ++
        ["  ⚠️  " ++ b.agent ++ "." ++ b.function ++ " rejected: " ++ r.message] }

/-- Wait for requests, one after the other. There is none if a wait would end beyond all clocks. -/
def waitForAll? (s : Surroundings) (o : EngineOptions) : List Uuid → Engine → Option Engine
  | [], e => some e
  | id :: rest, e =>
    if canWait s e o.waitSecs then waitForAll? s o rest (e.wait id (waitMs o)).2 else none

def recentLine (r : RequestRecord) : String :=
  "   " ++ r.id.text ++ " " ++ r.agent ++ "." ++ r.function ++ " " ++ r.state.text ++ " " ++
    r.error.getD ""

def readBatch (s : Surroundings) (file : String) : Except Failure (List BatchEntry) := do
  let text ← ((s.read file).bind textOfBytes).mapError fun fault => .ofText fault.message
  (BatchEntry.decoder.list.decodeText text).mapError fun err => .ofText err.message

/-- Submit entries and wait for them, then show what has become of them. -/
def runEntries (s : Surroundings) (entries : List BatchEntry) (keep : UInt64) (o : EngineOptions)
    (e : Engine) : Outcome :=
  let p := entries.foldl (BatchProgress.submit s) ⟨e, [], []⟩
  let lines := p.refusals ++ ["📋 Submitted " ++ Decimal.text p.submitted.length ++ " requests"]
  match waitForAll? s o p.submitted p.engine with
  | none => ⟨lines, .breakdown, none, 0⟩
  | some e =>
    let (_, e) := e.stop.cleanup keep.toNat
    ⟨lines ++ ["", "📊 Recent requests:"] ++ (e.store.recent keep.toNat).map recentLine ++
      ["", e.systemStatus.pretty], .success, none, e.clock⟩

def runBatch (s : Surroundings) (file : String) (keep : UInt64) (o : EngineOptions) : Outcome :=
  .after ["🚀 Loading batch from: " ++ file] <|
    match readBatch s file with
    | .error f => .ofExit (.failure f)
    | .ok entries =>
      match startEngine s o with
      | .error f => .ofExit (.failure f)
      | .ok e => runEntries s entries keep o e

end RequestEngine.CommandLine
