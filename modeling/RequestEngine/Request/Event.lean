import RequestEngine.Request.State
import RequestEngine.Time.Instant
import RequestEngine.Uuid

/-! What is told of a request while it goes through the engine. -/
namespace RequestEngine

inductive RequestEvent where
  | submitted (request : Uuid) (agent function : String) (time : Instant)
  | started (request : Uuid) (worker : Nat) (time : Instant)
  | finished (request : Uuid) (state : RequestState) (error : Option String) (durationMs : Nat)
      (time : Instant)
  deriving DecidableEq

def RequestEvent.request : RequestEvent → Uuid
  | .submitted r .. | .started r .. | .finished r .. => r

end RequestEngine
