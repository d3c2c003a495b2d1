import RequestEngine.Json.Decoder

/-! The states of a request, from its submission to its end, and their names. -/
namespace RequestEngine

inductive RequestState where
  | pending
  | running
  | completed
  | failed
  | timeout
  | cancelled
  deriving DecidableEq, Repr

/-- The ways to end without a result. -/
inductive FailureKind where
  | failed
  | timeout
  | cancelled
  deriving DecidableEq, Repr

namespace RequestState

def all : List RequestState := [.pending, .running, .completed, .failed, .timeout, .cancelled]

def text : RequestState → String
  | .pending => "PENDING"
  | .running => "RUNNING"
  | .completed => "COMPLETED"
  | .failed => "FAILED"
  | .timeout => "TIMEOUT"
  | .cancelled => "CANCELLED"

def ofText? (name : String) : Option RequestState := all.find? (·.text = name)

def isActive : RequestState → Bool
  | .pending | .running => true
  | _ => false

def isTerminal (s : RequestState) : Bool := !s.isActive

def toJson (s : RequestState) : Json := .string s.text

def decoderWith (noContent : Json → Bool) : Json.Decoder RequestState :=
  .variant (all.map text) ofText? noContent

def decoder : Json.Decoder RequestState := decoderWith (· = .null)

@[simp] theorem ofText?_text (s : RequestState) : ofText? s.text = some s := by
  cases s <;> decide

end RequestState

def FailureKind.state : FailureKind → RequestState
  | .failed => .failed
  | .timeout => .timeout
  | .cancelled => .cancelled

@[simp] theorem FailureKind.isTerminal_state (k : FailureKind) : k.state.isTerminal = true := by
  cases k <;> rfl

end RequestEngine
