import RequestEngine.Json.Basic
import RequestEngine.Request.State

/-! Counts of submissions and of the ends of requests. The sum of execution times wraps around. -/
namespace RequestEngine

structure Statistics where
  total : Nat
  completed : Nat
  /-- Timeouts count as failures. -/
  failed : Nat
  timeouts : Nat
  cancelled : Nat
  rejected : Nat
  /-- How many execution times are in the sum. -/
  timed : Nat
  executionMs : UInt64
  deriving DecidableEq

namespace Statistics

def zero : Statistics := ⟨0, 0, 0, 0, 0, 0, 0, 0⟩

def recordSubmitted (s : Statistics) : Statistics := { s with total := s.total + 1 }

def recordRejected (s : Statistics) : Statistics := { s with rejected := s.rejected + 1 }

def recordTime (s : Statistics) : Option Nat → Statistics
  | some ms => { s with timed := s.timed + 1, executionMs := s.executionMs + .ofNat ms }
  | none => s

/-- Count the end of a request. A state that is no end counts for nothing. -/
def recordEnd (s : Statistics) (state : RequestState) (executionMs : Option Nat) : Statistics :=
  match state with
  | .pending | .running => s
  | .completed => { s with completed := s.completed + 1 }.recordTime executionMs
  | .failed => { s with failed := s.failed + 1 }.recordTime executionMs
  | .timeout =>
    { s with failed := s.failed + 1, timeouts := s.timeouts + 1 }.recordTime executionMs
  | .cancelled => { s with cancelled := s.cancelled + 1 }.recordTime executionMs

def active (s : Statistics) : Nat := s.total - (s.completed + s.failed + s.cancelled)

/-- The mean execution time, or zero while there is none. -/
def averageMs (s : Statistics) : Binary64 :=
  if s.timed = 0 then .zero false
  else ((Binary64.ofNat s.executionMs.toNat).div? (.ofNat s.timed)).getD (.zero false)

def counts (s : Statistics) : List (String × Json) := [
  ("active_requests", .nat s.active),
  ("cancelled_requests", .nat s.cancelled),
  ("completed_requests", .nat s.completed),
  ("failed_requests", .nat s.failed),
  ("rejected_requests", .nat s.rejected),
  ("timeout_requests", .nat s.timeouts),
  ("total_requests", .nat s.total)]

def times (s : Statistics) : List (String × Json) := [
  ("average_execution_ms", .double s.averageMs),
  ("total_execution_ms", .word s.executionMs)]

def toJson (s : Statistics) : Json := .ofMembers (s.counts ++ s.times)

end Statistics

end RequestEngine
