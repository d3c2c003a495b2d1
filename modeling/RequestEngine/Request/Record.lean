import RequestEngine.Request.State
import RequestEngine.Time.Instant
import RequestEngine.Uuid

/-!
The record of one request: what was asked, how far it has come, and how it ended. A record only
moves forward, and one that has ended never changes.
-/
namespace RequestEngine

structure RequestRecord where
  id : Uuid
  agent : String
  function : String
  parameters : Json
  timeout : UInt64
  state : RequestState
  result : Option Json
  error : Option String
  submittedAt : Instant
  startedAt : Option Instant
  finishedAt : Option Instant
  deriving DecidableEq

namespace RequestRecord

def new (id : Uuid) (now : Instant) (agent function : String) (parameters : Json)
    (timeout : UInt64) : RequestRecord where
  id := id
  agent := agent
  function := function
  parameters := parameters
  timeout := timeout
  state := .pending
  result := none
  error := none
  submittedAt := now
  startedAt := none
  finishedAt := none

/-- Begin to run. Only a pending request can. -/
def begin? (r : RequestRecord) (now : Instant) : Option RequestRecord :=
  if r.state = .pending then some { r with state := .running, startedAt := some now } else none

/-- End with a result. Only a request that has not ended can. -/
def complete? (r : RequestRecord) (now : Instant) (result : Json) : Option RequestRecord :=
  if r.state.isTerminal then none
  else some { r with state := .completed, result := some result, finishedAt := some now }

/-- End without a result. Only a request that has not ended can. An empty message gives way to the
name of the state, so that every failure has a text. -/
def fail? (r : RequestRecord) (now : Instant) (kind : FailureKind) (message : String) :
    Option RequestRecord :=
  if r.state.isTerminal then none
  else
    let error := if message = "" then kind.state.text else message
    some { r with state := kind.state, error := some error, finishedAt := some now }

/-- The time between begin and end, if there were both. -/
def executionMs (r : RequestRecord) : Option Nat := do
  return (← r.finishedAt).millisSince (← r.startedAt)

def document (r : RequestRecord) : Json :=
  .object <|
    [("agent_id", .string r.agent)] ++
    (r.error.map fun e => ("error", .string e)).toList ++
    [("function_name", .string r.function), ("request_id", .string r.id.text)] ++
    (r.result.map fun v => ("result", v)).toList ++
    [("state", r.state.toJson), ("timeout_ms", .word r.timeout)]

end RequestRecord

def unknownDocument (id : Uuid) : Json :=
  .object [("error", .string ("Request not found: " ++ id.text)),
    ("request_id", .string id.text), ("state", .string "UNKNOWN")]

end RequestEngine
