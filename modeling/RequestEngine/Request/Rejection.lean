import RequestEngine.Number.Decimal

/-! Why a submission is refused. A refused request never gets an identifier. -/
namespace RequestEngine

inductive Rejection where
  | unknownAgent (agent : String)
  | missingParameter (agent function parameter : String)
  | queueFull (capacity : Nat)
  deriving DecidableEq, Repr

namespace Rejection

def message : Rejection → String
  | .unknownAgent agent => "Unknown agent: " ++ agent
  | .missingParameter agent function parameter =>
    "Missing required parameter '" ++ parameter ++ "' for function '" ++ function ++
      "' on agent '" ++ agent ++ "'"
  | .queueFull capacity => "Request queue is full (capacity " ++ Decimal.text capacity ++ ")"

def engineMessage (r : Rejection) : String := "Submission rejected: " ++ r.message

end Rejection

end RequestEngine
