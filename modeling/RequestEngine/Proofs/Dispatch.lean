import RequestEngine.Proofs.Staffing
import RequestEngine.Proofs.Waiting

/-! What an engine at rest is waiting for. Every call that goes on waits at a gate that is still
closed, and no worker is idle while a request waits. -/
namespace RequestEngine

open Ledger (submitted)

namespace Engine

variable {e : Engine} {log : List RequestEvent} {j : Job} {p : Pool}

/-- The call waits at a gate that nobody has opened. -/
def AtClosedGate (e : Engine) (j : Job) : Prop :=
  ∃ gate blocking value, j.reply = .atGate gate blocking value ∧ gate ∉ e.openGates

/-- What keeps the worker of a call: a request that runs, or a call that blocks at a closed gate
although its request was cancelled. -/
inductive Holds (e : Engine) (j : Job) : Prop
  | runs (record : j.record ∈ e.store.records) (running : j.record.state = .running)
  | blocks {gate : String} {value : Json} (token : j.token ∈ e.store.cancelled)
      (cancelled : ∀ r ∈ e.store.records, r.id = j.record.id → r.state = .cancelled)
      (reply : j.reply = .atGate gate true value) (closed : gate ∉ e.openGates)

theorem AtRest.not_restless (h : e.AtRest) (hj : j ∈ e.jobs) : e.isRestless j = false := by
  obtain ⟨-, -, hpatient⟩ := step?_eq_none h
  cases hfirst : e.firstToEnd? with
  | none =>
    rw [firstToEnd?_eq_none.1 hfirst] at hj
    cases hj
  | some k =>
    obtain ⟨hk, hleast⟩ := firstToEnd?_eq_some hfirst
    have hnone := hpatient k hk hleast
    rw [List.any_eq_false] at hnone
    exact Bool.eq_false_iff.2 (hnone j hj)

/-- At rest every call waits at a closed gate. One whose request was cancelled blocks. -/
theorem AtRest.waits (h : e.AtRest) (hj : j ∈ e.jobs) : ∃ gate blocking value,
    j.reply = .atGate gate blocking value ∧ gate ∉ e.openGates ∧
      (e.isCancelled j = true → blocking = true) := by
  obtain ⟨-, hlater, -⟩ := step?_eq_none h
  obtain ⟨hopen, hdrop⟩ := held_back (hlater j hj)
  have hrestless := h.not_restless hj
  cases hreply : j.reply with
  | after ms ending =>
    have hnot : e.isCancelled j = false := by simpa [Job.isBlocking, hreply] using hdrop
    simp [isRestless, hnot, hreply] at hrestless
  | atGate gate blocking value =>
    refine ⟨gate, blocking, value, rfl, ?_, ?_⟩
    · simpa [isOpen, Job.gate?, hreply] using hopen
    · intro hc
      simpa [hc, Job.isBlocking, hreply] using hdrop

theorem AtRest.atClosedGate (h : e.AtRest) (hj : j ∈ e.jobs) : e.AtClosedGate j := by
  obtain ⟨gate, blocking, value, hreply, hclosed, -⟩ := h.waits hj
  exact ⟨gate, blocking, value, hreply, hclosed⟩

theorem AtRest.holds (h : e.AtRest) (he : e.Sound log) (hj : j ∈ e.jobs) : e.Holds j := by
  obtain ⟨gate, blocking, value, hreply, hclosed, hblocking⟩ := h.waits hj
  obtain ⟨hx, hrun⟩ | hab := he.calls.each j hj
  · exact .runs (List.mem_map_of_mem hx) hrun
  · rw [hblocking (isCancelled_iff.2 hab.token)] at hreply
    exact .blocks hab.token hab.cancelled hreply hclosed

theorem AtRest.idle_eq_nil (h : e.AtRest) (hp : e.pool = some p) (hq : e.queue.items ≠ []) :
    p.idle = [] :=
  (dispatch?_eq_none.1 (step?_eq_none h).1 p hp).resolve_right hq

theorem Staffed.exists_busy (hs : e.Staffed) (hp : e.pool = some p) (hidle : p.idle = []) {w : Nat}
    (hw : w < e.maxWorkers) : ∃ j ∈ p.busy, j.worker = w := by
  have hperm := hs.all p hp
  rw [Pool.Staffed, hidle, List.nil_append] at hperm
  exact List.mem_map.1 (hperm.mem_iff.2 (List.mem_range.2 hw))

end Engine

namespace Session

structure Served (s : Session) (n : Nat) : Prop where
  /-- Nothing more happens by itself. -/
  rests : (s.engine n).AtRest
  /-- The settling after a command has ended by then, however many turns it may take. -/
  ends : ∀ c room, ((s.engine n).perform c).2.work ≤ room →
    Engine.run (fun e _ => e.jobs.any e.isRestless) room ((s.engine n).perform c).2 =
      ((s.engine n).step c).2
  ordered : ∀ x y, [x, y].Sublist (s.accepted n) → s.wasStarted n y → s.isPending n x = false
  /-- No worker is lost: each of them waits, or is busy with a call that holds it. -/
  staffed : (s.engine n).Staffed
  held : ∀ p, (s.engine n).pool = some p → ∀ j ∈ p.busy, (s.engine n).Holds j
  occupied : ∀ p, (s.engine n).pool = some p → (∃ id, s.isPending n id) →
    p.idle = [] ∧ ∀ w < (s.engine n).maxWorkers, ∃ j ∈ p.busy, j.worker = w ∧ (s.engine n).Holds j
  done : (s.engine n).isRunning → (∀ j ∈ (s.engine n).jobs, ¬ (s.engine n).AtClosedGate j) →
    ∀ r ∈ (s.engine n).store.records, r.state.isTerminal

variable {s : Session} {n : Nat} {log : List RequestEvent}

theorem staffed (s : Session) (n : Nat) : (s.engine n).Staffed := by
  refine s.engine_induction ⟨Nat.le_max_right _ _, fun p hp => by cases hp⟩ ?_ n
  intro e log c he hfresh hs
  exact hs.step he c hfresh

theorem dispatch_in_order_without_idle (s : Session) (n : Nat) : s.Served n := by
  obtain ⟨log, h⟩ := s.history n
  obtain ⟨hsound, hlog⟩ := h.sound
  have hrest := s.atRest n
  have hstaffed := s.staffed n
  have hheld : ∀ p, (s.engine n).pool = some p → ∀ j ∈ p.busy, (s.engine n).Holds j :=
    fun p hp j hj => hrest.holds hsound
      (by rw [Engine.jobs_of_pool hp]; exact List.mem_append_left _ hj)
  have hidle : ∀ p, (s.engine n).pool = some p → (∃ id, s.isPending n id) → p.idle = [] := by
    rintro p hp ⟨id, hid⟩
    refine hrest.idle_eq_nil hp fun hempty => ?_
    have hmem := (s.mem_items n id).2 (isPending_iff.1 hid)
    rw [hempty] at hmem
    cases hmem
  refine ⟨hrest, fun c room hroom => Engine.run_eq_of_work_le _ room _ hroom,
    fun x y hxy hy => h.not_overtaken hxy hy, hstaffed, hheld, ?_, ?_⟩
  · intro p hp hpending
    refine ⟨hidle p hp hpending, fun w hw => ?_⟩
    obtain ⟨j, hj, hjw⟩ := hstaffed.exists_busy hp (hidle p hp hpending) hw
    exact ⟨j, hj, hjw, hheld p hp j hj⟩
  · intro hrunning hopen r hr
    obtain ⟨p, hp⟩ := Option.isSome_iff_exists.1 hrunning
    have hjobs : ∀ j, j ∉ (s.engine n).jobs := fun j hj => hopen j hj (hrest.atClosedGate hj)
    by_contra hactive
    obtain hs | hs := RequestState.pending_or_running (Bool.eq_false_iff.2 hactive)
    · have hpending : s.isPending n r.id = true := isPending_iff.2 ⟨r, hr, rfl, hs⟩
      obtain ⟨j, hj, -⟩ := hstaffed.exists_busy hp (hidle p hp ⟨r.id, hpending⟩) hstaffed.any
      exact hjobs j (by rw [Engine.jobs_of_pool hp]; exact List.mem_append_left _ hj)
    · obtain ⟨x, hx, rfl⟩ := List.mem_map.1 hr
      obtain ⟨j, hj, -⟩ := hsound.calls.all x hx hs
      exact hjobs j hj

/-- One worker, a call that blocks although its request is cancelled, and a request behind it. -/
def blocked : Session where
  registry := Registry.empty.register .nil
    (.plain "a" fun _ _ => .atGate "g" true .null)
  config := ⟨1, 10, 60000, 100, 8⟩
  startMs := 0
  commands := [.start, .submit (.ofNat 1) "a" "f" .null none, .submit (.ofNat 2) "a" "f" .null none,
    .cancel (.ofNat 1), .openGate "g"]
  fresh := by decide

example : blocked.isPending 4 (.ofNat 2) ∧ (blocked.engine 5).statistics.completed = 1 := by
  decide +kernel

end Session

end RequestEngine
