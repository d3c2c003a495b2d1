import RequestEngine.Agent.Basic
import RequestEngine.Json.Error
import RequestEngine.Json.Printer
import RequestEngine.Json.Reader.Text

/-! The agents that are always there: one that echoes, one that waits, and one that reads and
writes JSON text. -/
namespace RequestEngine

def echoAgent : Agent where
  name := "echo"
  description := "Echoes parameters back for connectivity checks"
  functions := ["echo", "ping"]
  running := true
  call function parameters :=
    if function = "echo" then .value (.object [("echo", parameters)])
    else if function = "ping" then .value (.object [("pong", .bool true)])
    else .unknownFunction function

/-- The delay asked for, in milliseconds: a second if nothing is said. -/
def delayOf (parameters : Json) : Except AgentError Nat :=
  match parameters.get? "delay_ms" with
  | none => .ok 1000
  | some v =>
    match v.word? with
    | some ms => .ok ms.toNat
    | none => .error (.invalidParameters
        ("delay_ms must be a non-negative integer, got " ++ v.compact))

def delayAgent : Agent where
  name := "delay"
  description := "Delay for the given milliseconds, then return the parameters"
  functions := ["sleep"]
  running := true
  call function parameters :=
    if function = "sleep" then
      match delayOf parameters with
      | .ok ms => .after ms (.value parameters)
      | .error e => .now (.error e)
    else .unknownFunction function

def jsonParse (parameters : Json) : Except AgentError Json := do
  let some text := parameters.get? "json" | throw (.invalidParameters "missing 'json'")
  let some text := text.string? | throw (.invalidParameters "'json' must be a string")
  match Json.parse text with
  | .ok v => return .object [("parsed", v)]
  | .error e => throw (.executionFailed ("JSON parse error: " ++ e.message))

def jsonStringify (parameters : Json) : Except AgentError Json := do
  let some v := parameters.get? "value" | throw (.invalidParameters "missing 'value'")
  return .object [("json", .string v.pretty)]

def Ending.ofResult : Except AgentError Json → Ending
  | .ok v => .value v
  | .error e => .error e

def transformAgent : Agent where
  name := "transform"
  description := "Parse JSON strings and stringify values"
  functions := ["json_parse", "json_stringify"]
  running := true
  call function parameters :=
    if function = "json_parse" then .now (.ofResult (jsonParse parameters))
    else if function = "json_stringify" then .now (.ofResult (jsonStringify parameters))
    else .unknownFunction function

/-- The standard agents, in the order they are registered. -/
def builtinAgents : List Agent := [echoAgent, delayAgent, transformAgent]

end RequestEngine
