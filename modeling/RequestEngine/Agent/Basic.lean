import RequestEngine.Json.Basic

/-!
Agents: named functions that are called with parameters. What a call does is told in advance: it
ends by itself after some time, or waits at a gate that someone else opens.
-/
namespace RequestEngine

inductive AgentError where
  | unknownFunction (name : String)
  | invalidParameters (reason : String)
  | executionFailed (reason : String)
  deriving DecidableEq, Repr

def AgentError.message : AgentError → String
  | .unknownFunction name => "Unknown function: " ++ name
  | .invalidParameters reason => "Invalid parameters: " ++ reason
  | .executionFailed reason => "Execution failed: " ++ reason

inductive Ending where
  | value (v : Json)
  | error (e : AgentError)
  | panic
  deriving DecidableEq

/-- What a call does. One that blocks at its gate cannot be dropped while it waits. -/
inductive Reply where
  | after (ms : Nat) (ending : Ending)
  | atGate (gate : String) (blocking : Bool) (value : Json)
  deriving DecidableEq

namespace Reply

def now (ending : Ending) : Reply := .after 0 ending

def value (v : Json) : Reply := now (.value v)

def unknownFunction (name : String) : Reply := now (.error (.unknownFunction name))

end Reply

structure Agent where
  name : String
  description : String
  functions : List String
  running : Bool
  call : (function : String) → (parameters : Json) → Reply

/-- An agent that tells nothing of itself. -/
def Agent.plain (name : String) (call : String → Json → Reply) : Agent where
  name := name
  description := ""
  functions := []
  running := true
  call := call

end RequestEngine
