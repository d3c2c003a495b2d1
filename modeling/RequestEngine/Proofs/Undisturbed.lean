import RequestEngine.Proofs.Settings
import RequestEngine.Proofs.Workforce

/-! Engines that are given requests and time, and nothing else. Nothing is cancelled and nothing is
evicted, so that every call is that of a request that runs, and the counters count the records. -/
namespace RequestEngine

open Ledger (submitted Tells)

namespace Ledger

/-- The counters count the records. -/
structure Reckoned (b : Ledger) : Prop where
  total : b.statistics.total = b.records.length
  completed : b.statistics.completed = b.records.countP (·.state ∈ [.completed])
  failed : b.statistics.failed = b.records.countP (·.state ∈ [.failed, .timeout])
  cancelled : b.statistics.cancelled = b.records.countP (·.state ∈ [.cancelled])

variable {b b' : Ledger} {new : List RequestEvent}

theorem Reckoned.tells (h : b.Reckoned) (ht : Tells b new b')
    (hlength : b'.records.length = b.records.length + (submitted new).length) : b'.Reckoned := by
  obtain ⟨htotal, hcompleted, hfailed, hcancelled⟩ := h
  obtain ⟨htotal', hcompleted', hfailed', -, hcancelled'⟩ := ht.conserves
  constructor <;> omega

end Ledger

theorem Store.cancelled_of_replace {s t : Store} {r : RequestRecord} (h : t = s.replace r) :
    t.cancelled = s.cancelled := by
  rw [h]
  rfl

namespace Engine

/-- What becomes of an engine that is only given requests and time. -/
structure Undisturbed (log : List RequestEvent) (e : Engine) : Prop where
  sound : e.Sound log
  regular : e.Regular
  staffed : e.Staffed
  uncancelled : e.store.cancelled = []
  reckoned : e.ledger.Reckoned

variable {e e' : Engine} {log new : List RequestEvent}

theorem cancelled_report {change : Option (RequestRecord × Store)}
    (hc : ∀ r store, change = some (r, store) → store = e.store.replace r) :
    (e.report change).store.cancelled = e.store.cancelled := by
  cases change with
  | none => rfl
  | some change => exact Store.cancelled_of_replace (hc change.1 change.2 rfl)

theorem cancelled_fail (e : Engine) (id : Uuid) (kind : FailureKind) (message : String) :
    (e.fail id kind message).store.cancelled = e.store.cancelled :=
  cancelled_report fun _ _ hc => Store.change?_replaces hc

theorem Turn.cancelled (h : Turn e e') : e'.store.cancelled = e.store.cancelled := by
  cases h with
  | @finish j _ _ =>
    unfold Engine.finish Engine.conclude
    simp only
    split
    · rfl
    · split
      · exact cancelled_report fun _ _ hc => Store.change?_replaces hc
      · exact cancelled_fail _ _ _ _
      · exact cancelled_fail _ _ _ _
      · exact cancelled_fail _ _ _ _
  | dispatch hd =>
    obtain ⟨p, w, id, queue, -, -, -, hcases⟩ := dispatch?_eq_some hd
    cases hcases with
    | stale _ => rfl
    | called begins _ _ => exact Store.cancelled_of_replace (Store.begin?_replaces begins).1
    | unknown begins _ =>
      rw [cancelled_fail]
      exact Store.cancelled_of_replace (Store.begin?_replaces begins).1
    | resting begins _ _ =>
      rw [cancelled_fail]
      exact Store.cancelled_of_replace (Store.begin?_replaces begins).1
  | pass _ => rfl

theorem Turns.cancelled (h : Turns e e') : e'.store.cancelled = e.store.cancelled := by
  induction h with
  | refl => rfl
  | tail _ turn ih => exact turn.cancelled.trans ih

/-- Some time passes. No request is added, refused or lost. -/
structure Elapses (log new : List RequestEvent) (e e' : Engine) : Prop where
  undisturbed : e'.Undisturbed (log ++ new)
  none : submitted new = []
  moves : List.Forall₂ RequestRecord.Becomes e.store.records e'.store.records
  rejected : e'.statistics.rejected = e.statistics.rejected
  settings : e'.settings = e.settings

theorem Undisturbed.turns (h : e.Undisturbed log) (ht : Turns e e') :
    ∃ new, Elapses log new e e' := by
  obtain ⟨new, hworks⟩ := h.sound.turns ht
  have hmoves := hworks.proceeds.tells.moves h.sound.ledger hworks.none
  refine ⟨new, ⟨hworks.sound h.sound, h.regular.turns ht, h.staffed.turns h.sound ht,
    ht.cancelled.trans h.uncancelled, ?_⟩, hworks.none, hmoves,
    hworks.proceeds.tells.statistics.1, ht.settings⟩
  apply h.reckoned.tells hworks.proceeds.tells
  rw [hworks.none]
  exact hmoves.length_eq.symm

theorem undisturbed_start (registry : Registry) (config : EngineConfig) (startMs : Nat)
    (table : FunctionTable) :
    ((Engine.new registry config startMs).load table).start.Undisturbed [] where
  sound := by
    have hinitial := initial_sound registry config startMs
    exact ⟨hinitial.store, hinitial.ledger,
      Calls.nil (by simp [Engine.start, Engine.new, load, Store.empty])⟩
  regular := ⟨rfl, fun _ hj => by cases hj⟩
  staffed := by
    apply Staffed.start
    exact ⟨Nat.le_max_right _ _, fun p hp => by cases hp⟩
  uncancelled := rfl
  reckoned := ⟨rfl, rfl, rfl, rfl⟩

theorem submit_eq_error {id : Uuid} {agent function : String} {parameters : Json}
    {timeout : Option UInt64} {reason : Rejection}
    (h : (e.submit id agent function parameters timeout).1 = .error reason) :
    e.submit id agent function parameters timeout =
      (.error reason, { e with statistics := e.statistics.recordRejected }) := by
  unfold Engine.submit at h ⊢
  split at h
  · cases h
  · cases h
    rfl

theorem submit_eq_ok {id i : Uuid} {agent function : String} {parameters : Json}
    {timeout : Option UInt64} (h : (e.submit id agent function parameters timeout).1 = .ok i) :
    ∃ e', e.enqueue id agent function parameters timeout = .ok e' ∧
      e.submit id agent function parameters timeout = (.ok id, e') := by
  unfold Engine.submit at h ⊢
  split at h
  · exact ⟨_, ‹_›, rfl⟩
  · cases h

/-- A refusal, or a change that is no matter to the requests. -/
theorem Undisturbed.of_eq (h : e.Undisturbed log) (refusals : Nat) (hs : e'.store = e.store)
    (hq : e'.queue.items = e.queue.items) (hp : e'.pool = e.pool)
    (hmax : e'.maxWorkers = e.maxWorkers) (ht : e'.startMs = e.startMs)
    (hc : e'.statistics = { e.statistics with rejected := e.statistics.rejected + refusals }) :
    e'.Undisturbed log := by
  have hjobs : e'.jobs = e.jobs := by simp [jobs, hp]
  have hrecords : e'.ledger.records = e.ledger.records := congrArg Store.records hs
  have hadjusted : e.ledger.Adjusted refusals e'.ledger :=
    ⟨hq, hc, by rw [hrecords], fun r hr _ => by rwa [hrecords]⟩
  refine ⟨⟨hs ▸ h.sound.store, h.sound.ledger.adjusted hadjusted, ?_⟩,
    h.regular.of_eq hs (hjobs ▸ List.Subset.refl _) ht, h.staffed.of_eq hmax hp,
    by rw [hs, h.uncancelled], ?_⟩
  · rw [hs, hjobs]
    exact h.sound.calls
  · obtain ⟨htotal, hcompleted, hfailed, hcancelled⟩ := h.reckoned
    have hstatistics : e'.ledger.statistics =
      { e.statistics with rejected := e.statistics.rejected + refusals } := hc
    constructor <;> rw [hstatistics, hrecords] <;> assumption

theorem Undisturbed.enqueue (h : e.Undisturbed log) {id : Uuid} {agent function : String}
    {parameters : Json} {timeout : Option UInt64} (hnew : id ∉ submitted log)
    (he : e.enqueue id agent function parameters timeout = .ok e') :
    e'.Undisturbed (log ++ [.submitted id agent function e.now]) ∧
      e'.store.records = e.store.records ++
        [.new id e.now agent function parameters (e.timeoutFor function timeout)] := by
  obtain ⟨hsound, hrecords⟩ := h.sound.enqueued hnew he
  have htells := (h.sound.enqueue hnew he).tells
  have hregular : (e.submit id agent function parameters timeout).2.Regular :=
    h.regular.submit h.sound fun _ _ => hnew
  rw [show (e.submit id agent function parameters timeout).2 = e' by simp [submit, he]] at hregular
  have hreckoned : e'.ledger.Reckoned := by
    apply h.reckoned.tells htells
    rw [show e'.ledger.records = _ from hrecords, List.length_append]
    rfl
  obtain ⟨-, -, -, rfl⟩ := enqueue_eq_ok he
  exact ⟨⟨hsound, hregular, h.staffed.of_eq rfl rfl, h.uncancelled, hreckoned⟩, hrecords⟩

theorem Undisturbed.runs (h : e.Undisturbed log) {j : Job} (hj : j ∈ e.jobs) : j.Runs e.store := by
  refine (h.sound.calls.each j hj).resolve_right fun hab => ?_
  have htoken := hab.token
  rw [h.uncancelled] at htoken
  cases htoken

theorem Undisturbed.jobs_eq_nil (h : e.Undisturbed log)
    (hover : ∀ r ∈ e.store.records, r.state ≠ .running) : e.jobs = [] := by
  rw [List.eq_nil_iff_forall_not_mem]
  intro j hj
  obtain ⟨hmem, hrun⟩ := h.runs hj
  exact hover j.record (List.mem_map_of_mem hmem) hrun

/-- If a request waits and nothing can be dispatched, another one runs. -/
theorem Undisturbed.exists_running (h : e.Undisturbed log) (hrunning : e.isRunning)
    (hstuck : e.dispatch? = none) {r : RequestRecord} (hr : r ∈ e.store.records)
    (hpending : r.state = .pending) : ∃ r' ∈ e.store.records, r'.state = .running := by
  obtain ⟨p, hp⟩ := Option.isSome_iff_exists.1 hrunning
  have hwaiting : e.queue.items ≠ [] :=
    List.ne_nil_of_mem ((h.sound.ledger.waiting r.id).2 ⟨r, hr, rfl, hpending⟩)
  have hidle := (dispatch?_eq_none.1 hstuck p hp).resolve_right hwaiting
  obtain ⟨j, hj, -⟩ := h.staffed.exists_busy hp hidle h.staffed.any
  obtain ⟨hmem, hrun⟩ := h.runs (by rw [jobs_of_pool hp]; exact List.mem_append_left _ hj)
  exact ⟨j.record, List.mem_map_of_mem hmem, hrun⟩

theorem dispatch?_advanceTo (e : Engine) (time : Nat) : (e.advanceTo time).dispatch? = none := by
  have hrests := run_rests (fun _ due => due ≤ time) e.work e (Nat.le_refl _)
  have hnone := (step?_eq_none hrests).1
  rw [dispatch?_eq_none] at hnone ⊢
  exact hnone

/-- Whoever waits for a request sees its record at the end of the wait. -/
theorem poll_fst (id : Uuid) (deadline times : Nat) :
    ∀ e : Engine, (poll id deadline times e).1 = (poll id deadline times e).2.status? id := by
  induction times with
  | zero => exact fun e => rfl
  | succ times ih =>
    intro e
    rw [poll]
    split
    · exact Eq.symm ‹_›
    · split
      · exact Eq.symm ‹_›
      · exact ih _

theorem wait_fst (e : Engine) (id : Uuid) (maxMs : Nat) :
    (e.wait id maxMs).1 = (e.wait id maxMs).2.status? id := poll_fst id _ _ e

/-- A stop that finds no call and no request that runs only lets the workers go. -/
theorem stop_of_idle (hjobs : e.jobs = [])
    (hover : ∀ r ∈ e.store.records, r.state ≠ .running) : e.stop = { e with pool := none } := by
  have hretired : ({ e with pool := e.pool.map Pool.retire } : Engine).jobs = [] :=
    ((jobs_retire e).trans (.of_eq hjobs)).eq_nil
  have hdrain : e.drain = { e with pool := e.pool.map Pool.retire } := by
    simp [drain, hretired, run]
  have hnone : e.store.entries.filter Store.Entry.isRunning = [] := by
    refine List.filter_eq_nil_iff.2 fun x hx => ?_
    simpa [Store.Entry.isRunning] using hover x.record (List.mem_map_of_mem hx)
  have hsame : e.store.entries.map (Store.failEntry e.now stoppedMessage) = e.store.entries := by
    refine (List.map_congr_left fun x hx => ?_).trans (List.map_id _)
    obtain ⟨hrun, -⟩ | ⟨-, hx'⟩ := Store.failEntry_cases e.now stoppedMessage x
    · exact absurd hrun (hover x.record (List.mem_map_of_mem hx))
    · exact hx'
  have hsweep : e.store.failRunning e.now stoppedMessage = ([], e.store) := by
    simp [Store.failRunning, hnone, hsame]
  cases hp : e.pool with
  | none =>
    obtain ⟨-, hstop⟩ | ⟨hsome, -⟩ := stop_cases e
    · rw [hstop, ← hp]
    · rw [hp] at hsome
      cases hsome
  | some p =>
    have hswept : e.drain.store.failRunning e.drain.now stoppedMessage = ([], e.store) := by
      rw [hdrain]
      exact hsweep
    rw [stop_eq (by simp [hp]), abandon, hswept, hdrain]
    rfl

end Engine

end RequestEngine
