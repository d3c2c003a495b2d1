import RequestEngine.Proofs.Dispatch

/-! How many requests run at once. Each of them has a worker of its own, which takes requests or
was let go when the number of workers was lowered. -/
namespace RequestEngine

open Ledger (submitted)

namespace Pool

variable {p p' : Pool} {m : Nat}

theorem Shift.retired_le (h : p.Shift p') : p'.retired.length ≤ p.retired.length := by
  cases h with
  | stay => exact Nat.le_refl _
  | @finish j _ =>
    unfold Pool.finish
    split
    · exact Nat.le_refl _
    · exact List.length_filter_le _ _
  | assign _ => exact Nat.le_refl _
  | rotate => exact Nat.le_refl _

theorem Staffed.busy_le (h : p.Staffed m) : p.busy.length ≤ m := by
  have hsize := h.size
  unfold Pool.size at hsize
  omega

theorem Staffed.retired_resize (h : p.Staffed m) (n : Nat) :
    (p.resize n).retired.length ≤ p.retired.length + (m - n) := by
  have hnodup : (p.busy.map (·.worker)).Nodup := by
    have hall : (p.idle ++ p.busy.map (·.worker)).Nodup := h.nodup_iff.2 List.nodup_range
    exact (List.nodup_append.1 hall).2.1
  have hhigh : ((p.busy.filter (n ≤ ·.worker)).map (·.worker)).Subperm (List.range' n (m - n)) := by
    apply List.Nodup.subperm ((List.filter_sublist.map _).nodup hnodup)
    intro w hw
    obtain ⟨j, hj, rfl⟩ := List.mem_map.1 hw
    obtain ⟨hj, hn⟩ := List.mem_filter.1 hj
    have hm : j.worker ∈ List.range m :=
      h.mem_iff.1 (List.mem_append_right _ (List.mem_map_of_mem hj))
    have hlow : n ≤ j.worker := of_decide_eq_true hn
    have hlt := List.mem_range.1 hm
    rw [List.mem_range'_1]
    omega
  have hlength := hhigh.length_le
  rw [List.length_map, List.length_range'] at hlength
  simp only [Pool.resize, List.length_append]
  omega

end Pool

namespace Engine

variable {e e' : Engine} {log : List RequestEvent}

def retired (e : Engine) : Nat := (e.pool.map (·.retired.length)).getD 0

theorem retired_of_pool {p : Pool} (h : e.pool = some p) : e.retired = p.retired.length := by
  simp [retired, h]

theorem retired_of_stopped (h : e.pool = none) : e.retired = 0 := by simp [retired, h]

theorem Turn.retired_le (h : Turn e e') : e'.retired ≤ e.retired := by
  obtain ⟨-, hp'⟩ | ⟨p, p', hp, hp', hshift⟩ := h.shift.2
  · rw [retired_of_stopped hp']
    exact Nat.zero_le _
  · rw [retired_of_pool hp, retired_of_pool hp']
    exact hshift.retired_le

theorem Turns.retired_le (h : Turns e e') : e'.retired ≤ e.retired := by
  induction h with
  | refl => exact Nat.le_refl _
  | tail _ turn ih => exact Nat.le_trans turn.retired_le ih

/-- What the number of workers is lowered by, while there are workers. -/
def shortfall (e e' : Engine) : Nat := if e.isRunning then e.maxWorkers - e'.maxWorkers else 0

theorem Staffed.retired_setMaxWorkers (hs : e.Staffed) (n : Nat) :
    (e.setMaxWorkers n).retired ≤ e.retired + e.shortfall (e.setMaxWorkers n) := by
  cases hp : e.pool with
  | none => simp [retired, Engine.setMaxWorkers, hp]
  | some p =>
    have hresize := (hs.all p hp).retired_resize (max n 1)
    simpa [retired, Engine.setMaxWorkers, shortfall, isRunning, hp] using hresize

/-- Only a lower number of workers lets some of them go. -/
theorem Staffed.retired_perform (hs : e.Staffed) (c : Command) :
    (e.perform c).2.retired ≤ e.retired + e.shortfall (e.perform c).2 := by
  have kept : ∀ {e'}, e'.retired ≤ e.retired → e'.retired ≤ e.retired + e.shortfall e' :=
    fun h => Nat.le_trans h (Nat.le_add_right _ _)
  cases performed e c with
  | start =>
    apply kept
    simp only [Engine.perform, Engine.start]
    split
    · exact Nat.le_refl _
    · exact Nat.zero_le _
  | stop =>
    have hnone := retired_of_stopped (pool_stop e)
    exact kept (hnone ▸ Nat.zero_le _)
  | wait id maxMs => exact kept (wait_turns e id maxMs).retired_le
  | setMaxWorkers n => exact hs.retired_setMaxWorkers n
  | other pool _ => exact kept (by rw [retired, pool]; exact Nat.le_refl _)

theorem Staffed.retired_step (hs : e.Staffed) (c : Command) :
    (e.step c).2.retired ≤ e.retired + e.shortfall (e.step c).2 := by
  have hturns := settle_turns (e.perform c).2
  have hmax : (e.step c).2.maxWorkers = (e.perform c).2.maxWorkers := hturns.maxWorkers
  have hperform := hs.retired_perform c
  rw [shortfall, hmax]
  exact Nat.le_trans hturns.retired_le hperform

/-- Each request that runs has a call of its own. -/
theorem Sound.running_le (h : e.Sound log) : e.store.count .running ≤ e.jobs.length := by
  have hsub : (e.store.entries.filter (·.record.state = .running)).Subperm
      (e.jobs.map Job.entry) := by
    apply List.Nodup.subperm (h.store.entries_nodup.filter _)
    intro x hx
    obtain ⟨hx, hrun⟩ := List.mem_filter.1 hx
    obtain ⟨j, hj, hjx⟩ := h.calls.all x hx (of_decide_eq_true hrun)
    exact List.mem_map.2 ⟨j, hj, hjx⟩
  simpa [Store.count] using hsub.length_le

/-- Each request that runs has a worker, one that takes requests or one that was let go. -/
theorem Sound.running_le_workers (h : e.Sound log) (hs : e.Staffed) :
    e.store.count .running ≤ e.maxWorkers + e.retired := by
  have hle := h.running_le
  cases hp : e.pool with
  | none =>
    rw [jobs_of_stopped hp] at hle
    exact Nat.le_trans hle (Nat.zero_le _)
  | some p =>
    have hbusy := (hs.all p hp).busy_le
    rw [jobs_of_pool hp, Pool.jobs, List.length_append] at hle
    rw [retired_of_pool hp]
    omega

theorem Sound.running_of_stopped (h : e.Sound log) (hstopped : e.isRunning = false) :
    e.store.count .running = 0 := by
  have hpool : e.pool = none := by simpa [isRunning] using hstopped
  have hle := h.running_le
  rw [jobs_of_stopped hpool] at hle
  exact Nat.le_zero.1 hle

theorem Staffed.workers (hs : e.Staffed) :
    e.workers = if e.isRunning then e.maxWorkers else 0 := by
  cases hp : e.pool with
  | none => simp [Engine.workers, isRunning, hp]
  | some p => simp [Engine.workers, isRunning, hp, (hs.all p hp).size]

end Engine

namespace Session

/-- What the number of workers was lowered by since the last start, all decreases taken together. -/
def lowered (s : Session) : Nat → Nat
  | 0 => 0
  | n + 1 =>
    if (s.engine n).isRunning then
      s.lowered n + ((s.engine n).maxWorkers - (s.engine (n + 1)).maxWorkers)
    else if (s.engine (n + 1)).isRunning then 0
    else s.lowered n

/-- The workers at a resting point, and the requests that run. -/
structure Manned (s : Session) (n : Nat) : Prop where
  workers : (s.engine n).workers =
    if (s.engine n).isRunning then (s.engine n).maxWorkers else 0
  any : 1 ≤ (s.engine n).maxWorkers
  bounded : (s.engine n).store.count .running ≤ (s.engine n).maxWorkers + s.lowered n
  /-- The number of workers was never lowered since the engine did not run. -/
  steady : ∀ m ≤ n, (s.engine m).isRunning = false →
    (∀ i, m < i → i < n → (s.engine i).maxWorkers ≤ (s.engine (i + 1)).maxWorkers) →
    (s.engine n).store.count .running ≤ (s.engine n).maxWorkers
  stopped : (s.engine n).isRunning = false → (s.engine n).store.count .running = 0

variable {s : Session} {n : Nat}

theorem retired_le (s : Session) (n : Nat) : (s.engine n).retired ≤ s.lowered n := by
  induction n with
  | zero => exact Nat.le_refl _
  | succ n ih =>
    have hstep : (s.engine (n + 1)).retired ≤
        (s.engine n).retired + (s.engine n).shortfall (s.engine (n + 1)) := by
      obtain ⟨-, he, -⟩ | ⟨c, -, he, -⟩ := s.engine_succ n
      · rw [he]
        exact Nat.le_add_right _ _
      · rw [he]
        exact (s.staffed n).retired_step c
    by_cases hrunning : (s.engine n).isRunning
    · simp only [Engine.shortfall, lowered, hrunning, if_true] at hstep ⊢
      omega
    · have hnone : (s.engine n).pool = none := by simpa [Engine.isRunning] using hrunning
      simp only [Engine.shortfall, hrunning, Engine.retired_of_stopped hnone] at hstep
      exact Nat.le_trans hstep (Nat.zero_le _)

theorem lowered_eq_zero {m : Nat} (hstopped : (s.engine m).isRunning = false)
    (hsteady : ∀ i, m < i → i < n → (s.engine i).maxWorkers ≤ (s.engine (i + 1)).maxWorkers)
    (hm : m ≤ n) (hrunning : (s.engine n).isRunning) : s.lowered n = 0 := by
  induction n with
  | zero => rfl
  | succ n ih =>
    by_cases hbefore : (s.engine n).isRunning
    · have hlt : m < n := by
        obtain hlt | rfl := Nat.lt_or_eq_of_le hm
        · obtain hlt | rfl := Nat.lt_or_eq_of_le (Nat.le_of_lt_succ hlt)
          · exact hlt
          · simp [hstopped] at hbefore
        · simp [hstopped] at hrunning
      have hzero := ih (fun i hi hin => hsteady i hi (by omega)) (by omega) hbefore
      have hle := hsteady n hlt (by omega)
      simp only [lowered, hbefore, if_true, hzero]
      omega
    · simp [lowered, hbefore, hrunning]

theorem workers_eq_maxWorkers_of_running (s : Session) (n : Nat) : s.Manned n := by
  obtain ⟨log, h⟩ := s.history n
  obtain ⟨hsound, -⟩ := h.sound
  have hstaffed := s.staffed n
  have hrunning := hsound.running_le_workers hstaffed
  have hretired := s.retired_le n
  refine ⟨hstaffed.workers, hstaffed.any, by omega, ?_, hsound.running_of_stopped⟩
  intro m hm hstopped hsteady
  by_cases hrun : (s.engine n).isRunning
  · have hzero := lowered_eq_zero hstopped hsteady hm hrun
    omega
  · rw [hsound.running_of_stopped (by simpa using hrun)]
    exact Nat.zero_le _

/-- Two workers, of which one is let go while both are busy. -/
def shrunk : Session where
  registry := Registry.empty.register .nil (.plain "a" fun _ _ => .atGate "g" false .null)
  config := ⟨2, 10, 60000, 100, 8⟩
  startMs := 0
  commands := [.start, .submit (.ofNat 1) "a" "f" .null none, .submit (.ofNat 2) "a" "f" .null none,
    .setMaxWorkers 1]
  fresh := by decide

example : (shrunk.engine 4).store.count .running = 2 ∧ (shrunk.engine 4).maxWorkers = 1 ∧
    shrunk.lowered 4 = 1 := by
  decide +kernel

end Session

end RequestEngine
