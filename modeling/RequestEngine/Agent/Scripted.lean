import RequestEngine.Agent.Basic

/-! Agents whose calls do what they are told: return, fail, break down, or wait at a gate. -/
namespace RequestEngine

namespace Scripted

/-- The text under a key of the parameters; without one it is empty. -/
def textOf (parameters : Json) (key : String) : String :=
  ((parameters.get? key).bind Json.string?).getD ""

def call (function : String) (parameters : Json) : Reply :=
  let gate := textOf parameters "gate"
  match function with
  | "value" => .value parameters
  | "fail" => .now (.error (.executionFailed (textOf parameters "message")))
  | "invalid" => .now (.error (.invalidParameters (textOf parameters "message")))
  | "panic" => .now .panic
  | "hold" => .atGate gate false (.object [("released", .string gate)])
  | "block" => .atGate gate true (.object [("unblocked", .string gate)])
  | _ => .unknownFunction function

end Scripted

/-- An agent that follows the script in its parameters. -/
def Agent.scripted (name : String) (running : Bool) : Agent :=
  { Agent.plain name Scripted.call with running := running }

def Agent.bare (name : String) : Agent := .plain name fun _ parameters => .value parameters

end RequestEngine
