import RequestEngine.Agent.Basic
import RequestEngine.Uuid

/-!
Registered agents, found by identifier or by name. An agent registered under a name takes the
place of the one that had it.
-/
namespace RequestEngine

structure Registry where
  agents : List (Uuid × Agent)
  names : Dictionary Uuid
  /-- Texts that no longer lead to an agent. -/
  forgotten : List String

structure AgentInfo where
  id : Uuid
  name : String
  description : String
  functions : List String
  running : Bool

namespace Registry

def empty : Registry := ⟨[], .empty, []⟩

def without (id : Uuid) (agents : List (Uuid × Agent)) : List (Uuid × Agent) :=
  agents.filter (·.1 ≠ id)

/-- Register an agent under a new identifier. -/
def register (r : Registry) (id : Uuid) (agent : Agent) : Registry :=
  let others := match r.names.get? agent.name with
    | some previous => without previous r.agents
    | none => r.agents
  { r with
    agents := (id, agent) :: without id others
    names := r.names.insert agent.name id }

def agent? (r : Registry) (id : Uuid) : Option Agent := r.agents.lookup id

/-- The agent that a text means: by its identifier if it spells one, else by its name. -/
def get? (r : Registry) (text : String) : Option Agent := do
  match Uuid.parse? text with
  | some id => r.agent? id
  | none => r.agent? (← r.names.get? text)

def resolve? (r : Registry) (text : String) : Option Agent :=
  if text ∈ r.forgotten then none else r.get? text

def list (r : Registry) : List String := r.names.keys

def describe (r : Registry) : List AgentInfo :=
  r.names.entries.filterMap fun (name, id) => do
    let a ← r.agent? id
    return ⟨id, name, a.description, a.functions, a.running⟩

def size (r : Registry) : Nat := r.agents.length

def forget (r : Registry) (text : String) : Registry :=
  { r with forgotten := text :: r.forgotten }

def setRunning (r : Registry) (id : Uuid) (running : Bool) : Registry :=
  { r with agents := r.agents.map fun (i, a) =>
      if i = id then (i, { a with running := running }) else (i, a) }

end Registry

end RequestEngine
