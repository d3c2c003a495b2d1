import RequestEngine.Agent.Basic
import RequestEngine.Engine.Store

/-!
The workers of an engine that runs: those that wait for a request, those that are busy with one,
and those that were let go but still finish theirs.
-/
namespace RequestEngine

structure Job where
  worker : Nat
  /-- The record of the request as it began to run. -/
  record : RequestRecord
  token : Token
  reply : Reply
  startedMs : Nat

namespace Job

/-- When the request times out. -/
def deadline (j : Job) : Nat := j.startedMs + j.record.timeout.toNat

def gate? (j : Job) : Option String :=
  match j.reply with
  | .atGate gate _ _ => some gate
  | .after .. => none

/-- Whether the call goes on even if nobody wants its result, as long as its gate is closed. -/
def isBlocking (j : Job) : Bool :=
  match j.reply with
  | .atGate _ blocking _ => blocking
  | .after .. => false

end Job

structure Pool where
  /-- The numbers of the workers that wait, the longest first. -/
  idle : List Nat
  busy : List Job
  retired : List Job

namespace Pool

def ofSize (n : Nat) : Pool := ⟨List.range n, [], []⟩

def size (p : Pool) : Nat := p.idle.length + p.busy.length

/-- All calls that go on. -/
def jobs (p : Pool) : List Job := p.busy ++ p.retired

/-- Let the workers go whose numbers are too high, or add workers. One that is let go finishes
the call it is busy with. -/
def resize (p : Pool) (n : Nat) : Pool where
  idle := p.idle.filter (· < n) ++ (List.range n).drop p.size
  busy := p.busy.filter (·.worker < n)
  retired := p.retired ++ p.busy.filter (n ≤ ·.worker)

/-- Let all workers go. -/
def retire (p : Pool) : Pool := ⟨[], [], p.retired ++ p.busy⟩

def assign (p : Pool) (j : Job) : Pool :=
  { p with idle := p.idle.erase j.worker, busy := p.busy ++ [j] }

/-- The next worker had a request that needed no call. -/
def rotate (p : Pool) : Pool := { p with idle := p.idle.drop 1 ++ p.idle.take 1 }

/-- A call is over. Its worker waits again unless it was let go. -/
def finish (p : Pool) (j : Job) : Pool :=
  if p.busy.any (·.token = j.token) then
    { p with idle := p.idle ++ [j.worker], busy := p.busy.filter (·.token ≠ j.token) }
  else { p with retired := p.retired.filter (·.token ≠ j.token) }

end Pool

end RequestEngine
