import RequestEngine.Proofs.Commands

/-! The workers of an engine that runs. Each of them waits or is busy with one call, and whatever
becomes of its call, it is there again afterwards. -/
namespace RequestEngine

open Ledger (submitted)

namespace Pool

/-- All workers are there: each number below the size of the pool is that of one who waits or is
busy. -/
def Staffed (p : Pool) (n : Nat) : Prop :=
  (p.idle ++ p.busy.map (·.worker)).Perm (List.range n)

/-- What a turn does to the workers. -/
inductive Shift (p : Pool) : Pool → Prop
  | stay : Shift p p
  | finish {j : Job} (goesOn : j ∈ p.jobs) : Shift p (p.finish j)
  | assign {j : Job} (next : p.idle.head? = some j.worker) : Shift p (p.assign j)
  | rotate : Shift p p.rotate

variable {p p' : Pool} {j : Job} {n : Nat}

theorem staffed_ofSize (n : Nat) : (ofSize n).Staffed n := by
  simp [Staffed, ofSize]

theorem Staffed.size (h : p.Staffed n) : p.size = n := by
  have hlength := h.length_eq
  rwa [List.length_append, List.length_map, List.length_range] at hlength

theorem Staffed.finish (h : p.Staffed n) (hn : (p.jobs.map (·.token)).Nodup) (hj : j ∈ p.jobs) :
    (p.finish j).Staffed n := by
  unfold Pool.finish
  split
  · rename_i hbusy
    obtain ⟨k, hk, ht⟩ := List.any_eq_true.1 hbusy
    obtain rfl : k = j :=
      List.inj_on_of_nodup_map hn (List.mem_append_left _ hk) hj (of_decide_eq_true ht)
    have hbusy : p.busy.Perm (k :: Calls.others k p.busy) := by
      refine Calls.perm_others ?_ hk
      rw [Pool.jobs, List.map_append] at hn
      exact (List.nodup_append.1 hn).1
    have hworkers : (p.busy.map (·.worker)).Perm
        (k.worker :: (Calls.others k p.busy).map (·.worker)) := hbusy.map _
    have hall : (p.idle ++ k.worker :: (Calls.others k p.busy).map (·.worker)).Perm
        (List.range n) := (hworkers.append_left p.idle).symm.trans h
    rwa [List.append_cons] at hall
  · exact h

theorem Staffed.assign (h : p.Staffed n) (hw : p.idle.head? = some j.worker) :
    (p.assign j).Staffed n := by
  obtain ⟨rest, hidle⟩ := List.head?_eq_some_iff.1 hw
  simp only [Staffed, Pool.assign, hidle, List.erase_cons_head, List.map_append, List.map_cons,
    List.map_nil] at h ⊢
  refine List.Perm.trans ?_ h
  rw [← List.append_assoc]
  exact List.perm_append_comm

theorem Staffed.rotate (h : p.Staffed n) : p.rotate.Staffed n := by
  refine List.Perm.trans (List.Perm.append_right _ ?_) h
  exact List.perm_append_comm.trans (.of_eq (List.take_append_drop 1 p.idle))

theorem Staffed.shift (h : p.Staffed n) (hn : (p.jobs.map (·.token)).Nodup) (hs : p.Shift p') :
    p'.Staffed n := by
  cases hs with
  | stay => exact h
  | finish goesOn => exact h.finish hn goesOn
  | assign next => exact h.assign next
  | rotate => exact h.rotate

/-- Those with low numbers stay, and new ones fill up the rest. -/
theorem Staffed.resize {m : Nat} (h : p.Staffed m) (n : Nat) : (p.resize n).Staffed n := by
  have hbusy : (p.busy.filter (·.worker < n)).map (·.worker) =
      (p.busy.map (·.worker)).filter (· < n) := by
    rw [List.filter_map]
    rfl
  calc (p.resize n).idle ++ (p.resize n).busy.map (·.worker)
      = p.idle.filter (· < n) ++ (List.range n).drop m ++ (p.busy.map (·.worker)).filter (· < n) := by
        simp only [Pool.resize, hbusy, h.size]
    List.Perm _ (p.idle.filter (· < n) ++ (p.busy.map (·.worker)).filter (· < n) ++
          (List.range n).drop m) := by
        rw [List.append_assoc, List.append_assoc]
        exact List.perm_append_comm.append_left _
    List.Perm _ ((List.range m).filter (· < n) ++ (List.range n).drop m) := by
        rw [← List.filter_append]
        exact (h.filter _).append_right _
    _ = List.range n := by rw [filter_range, List.take_append_drop]

end Pool

namespace Engine

/-- There is at least one worker, and an engine that runs has all of them. -/
structure Staffed (e : Engine) : Prop where
  any : 0 < e.maxWorkers
  all : ∀ p, e.pool = some p → p.Staffed e.maxWorkers

variable {e e' : Engine} {log : List RequestEvent}

/-- An engine keeps its workers, if it has any, and a turn moves at most one of them. -/
theorem Turn.shift (h : Turn e e') : e'.maxWorkers = e.maxWorkers ∧
    (e.pool = none ∧ e'.pool = none ∨
      ∃ p p', e.pool = some p ∧ e'.pool = some p' ∧ p.Shift p') := by
  cases h with
  | @finish j goesOn _ =>
    obtain ⟨_, _, _, hframe⟩ := conclude_frame { e with pool := e.pool.map (·.finish j) } j
    obtain ⟨p, hp⟩ := exists_pool goesOn
    rw [Engine.finish, hframe]
    exact ⟨rfl, .inr ⟨p, p.finish j, hp, by simp [hp], .finish (jobs_of_pool hp ▸ goesOn)⟩⟩
  | dispatch hd =>
    obtain ⟨p, w, id, queue, hp, hw, -, hcases⟩ := dispatch?_eq_some hd
    have hfail : ∀ {store : Store} {message : String},
        ((e.begun id w queue store p.rotate).fail id .failed message).maxWorkers = e.maxWorkers ∧
        ((e.begun id w queue store p.rotate).fail id .failed message).pool = some p.rotate := by
      intro store message
      obtain ⟨_, _, _, hframe⟩ := fail_frame (e.begun id w queue store p.rotate) id .failed message
      rw [hframe]
      exact ⟨rfl, rfl⟩
    cases hcases with
    | stale _ => exact ⟨rfl, .inr ⟨p, p, hp, hp, .stay⟩⟩
    | called _ _ _ => exact ⟨rfl, .inr ⟨p, _, hp, rfl, .assign hw⟩⟩
    | unknown _ _ => exact ⟨hfail.1, .inr ⟨p, _, hp, hfail.2, .rotate⟩⟩
    | resting _ _ _ => exact ⟨hfail.1, .inr ⟨p, _, hp, hfail.2, .rotate⟩⟩
  | pass _ =>
    refine ⟨rfl, ?_⟩
    cases hp : e.pool with
    | none => exact .inl ⟨rfl, rfl⟩
    | some p => exact .inr ⟨p, p, rfl, rfl, .stay⟩

theorem Staffed.turn (hs : e.Staffed) (h : e.Sound log) (ht : Turn e e') : e'.Staffed := by
  obtain ⟨hmax, hpool⟩ := ht.shift
  refine ⟨hmax ▸ hs.any, fun p' hp' => ?_⟩
  rw [hmax]
  obtain ⟨-, hnone⟩ | ⟨p, p₁, hp, hp₁, hshift⟩ := hpool
  · rw [hnone] at hp'
    cases hp'
  · rw [hp₁] at hp'
    rw [← Option.some.inj hp']
    exact (hs.all p hp).shift (jobs_of_pool hp ▸ h.calls.tokens) hshift

theorem Staffed.turns (hs : e.Staffed) (h : e.Sound log) (ht : Turns e e') : e'.Staffed := by
  induction ht with
  | refl => exact hs
  | tail before turn ih =>
    obtain ⟨new, hw⟩ := h.turns before
    exact ih.turn (hw.sound h) turn

theorem Turns.maxWorkers (h : Turns e e') : e'.maxWorkers = e.maxWorkers := by
  induction h with
  | refl => rfl
  | tail _ turn ih => exact turn.shift.1.trans ih

theorem Turns.isRunning (h : Turns e e') : e'.isRunning = e.isRunning := by
  induction h with
  | refl => rfl
  | tail _ turn ih =>
    rw [← ih]
    obtain ⟨hp, hp'⟩ | ⟨p, p', hp, hp', -⟩ := turn.shift.2
    · simp [Engine.isRunning, hp, hp']
    · simp [Engine.isRunning, hp, hp']

theorem Staffed.of_eq (hs : e.Staffed) (hmax : e'.maxWorkers = e.maxWorkers)
    (hpool : e'.pool = e.pool) : e'.Staffed :=
  ⟨hmax ▸ hs.any, fun p hp => hmax ▸ hs.all p (hpool ▸ hp)⟩

theorem Staffed.start (hs : e.Staffed) : e.start.Staffed := by
  unfold Engine.start
  split
  · exact hs
  · exact ⟨hs.any, fun p hp => Option.some.inj hp ▸ Pool.staffed_ofSize _⟩

theorem Staffed.stop (hs : e.Staffed) : e.stop.Staffed := by
  obtain ⟨-, hstop⟩ | ⟨-, _, _, hstop⟩ := stop_cases e
  · rw [hstop]
    exact hs
  · rw [hstop]
    refine ⟨?_, fun p hp => by cases hp⟩
    rw [show e.drain.abandon.maxWorkers = e.maxWorkers from (drain_turns e).maxWorkers]
    exact hs.any

theorem Staffed.setMaxWorkers (hs : e.Staffed) (n : Nat) : (e.setMaxWorkers n).Staffed := by
  refine ⟨Nat.le_max_right _ _, fun p' hp' => ?_⟩
  obtain ⟨p, hp, rfl⟩ := Option.map_eq_some_iff.1 hp'
  exact (hs.all p hp).resize _

theorem Staffed.perform (hs : e.Staffed) (h : e.Sound log) (c : Command) :
    (e.perform c).2.Staffed := by
  cases performed e c with
  | start => exact hs.start
  | stop => exact hs.stop
  | wait id maxMs => exact hs.turns h (wait_turns e id maxMs)
  | setMaxWorkers n => exact hs.setMaxWorkers n
  | other pool maxWorkers => exact hs.of_eq maxWorkers pool

theorem Staffed.step (hs : e.Staffed) (h : e.Sound log) (c : Command)
    (hfresh : ∀ id, (e.step c).1.accepted? = some id → id ∉ submitted log) :
    (e.step c).2.Staffed := by
  obtain ⟨middle, new, hc, -⟩ := h.perform c hfresh
  exact (hs.perform h c).turns (hc.after hfresh) (settle_turns _)

end Engine

end RequestEngine
