import RequestEngine.Proofs.Dispatch
import RequestEngine.Proofs.Listing

/-! What a stop does to the requests that run. All of them wait at gates that stay closed, so that
during the time of grace nothing happens but that some of them run out of time, the earliest first.
Those that are left fail in the end. -/
namespace RequestEngine

namespace RequestRecord

variable {r : RequestRecord}

/-- The record of a request that has run out of time. -/
def expired (r : RequestRecord) (now : Instant) : RequestRecord :=
  { r with
    state := .timeout
    error := some ("Request timed out after " ++ Decimal.text r.timeout.toNat ++ " ms")
    finishedAt := some now }

/-- The record of a request that still ran when the engine stopped. -/
def stopped (r : RequestRecord) (now : Instant) : RequestRecord :=
  { r with state := .failed, error := some Engine.stoppedMessage, finishedAt := some now }

theorem fail?_expired (now : Instant) (h : r.state = .running) :
    r.fail? now .timeout ("Request timed out after " ++ Decimal.text r.timeout.toNat ++ " ms") =
      some (r.expired now) := by
  simp [fail?, expired, h, FailureKind.state]

theorem fail?_stopped (now : Instant) (h : r.state = .running) :
    r.fail? now .failed Engine.stoppedMessage = some (r.stopped now) := by
  simp [fail?, stopped, h, Engine.stoppedMessage, FailureKind.state]

end RequestRecord

namespace Engine

variable {e d d' : Engine} {limit : Nat} {log : List RequestEvent} {j : Job}
  {r r' r'' : RequestRecord}

/-- A call at a closed gate ends at its deadline, and not with a value. -/
theorem endOf_atGate {gate : String} {blocking : Bool} {value : Json}
    (hreply : j.reply = .atGate gate blocking value) (hclosed : gate ∉ d.openGates)
    (hblocking : d.isCancelled j = true → blocking = true) :
    d.endOf j = j.deadline ∧ d.ending? j = none := by
  have hopen : d.isOpen j = false := by simpa [isOpen, Job.gate?, hreply] using hclosed
  have hdrop : (d.isCancelled j && !j.isBlocking) = false := by
    cases hc : d.isCancelled j with
    | false => rfl
    | true => simp [Job.isBlocking, hreply, hblocking hc]
  exact ⟨by simp [endOf, hopen, hdrop, hreply], by simp [ending?, hopen, hreply]⟩

/-- A call without an ending runs out of time, unless its request was cancelled. -/
theorem conclude_expired (hs : d.store.Sound) (hj : j.Runs d.store ∨ j.Abandoned log d.store)
    (hnone : d.ending? j = none) :
    d.conclude j = d ∨ j.Runs d.store ∧ d.conclude j =
      d.report (some (j.record.expired d.now, d.store.replace (j.record.expired d.now))) := by
  by_cases hc : d.isCancelled j
  · exact .inl (by simp [conclude, hc])
  · have hruns : j.Runs d.store := hj.resolve_right fun hab => hc (isCancelled_iff.2 hab.token)
    obtain ⟨r, hr, hfail⟩ := fail_eq hs hruns.1 hruns.2 .timeout
      ("Request timed out after " ++ Decimal.text j.record.timeout.toNat ++ " ms")
    have hexpired := RequestRecord.fail?_expired d.now hruns.2
    obtain rfl := Option.some.inj (hexpired.symm.trans hr)
    refine .inr ⟨hruns, ?_⟩
    simp only [conclude, if_neg hc, hnone]
    exact hfail

/-- What becomes of a record until a time: a request that runs may run out of time. -/
inductive Expires (e : Engine) (limit : Nat) (r : RequestRecord) : RequestRecord → Prop
  | spared : Expires e limit r r
  | expired {j : Job} (goesOn : j ∈ e.jobs) (record : j.record = r) (running : r.state = .running)
      (within : j.deadline ≤ limit) :
      Expires e limit r (r.expired (.ofMillis (e.startMs + j.deadline)))

theorem Expires.trans (h : e.Expires limit r r') (h' : e.Expires limit r' r'') :
    e.Expires limit r r'' := by
  cases h with
  | spared => exact h'
  | expired goesOn record running within =>
    cases h' with
    | spared => exact .expired goesOn record running within
    | expired _ _ running' _ => cases running'

/-- An engine that was at rest is on its way through the time of grace. -/
structure Drains (e : Engine) (limit : Nat) (d : Engine) : Prop where
  sound : ∃ log, d.Sound log
  nobody : ∀ p, d.pool = some p → p.idle = [] ∧ p.busy = []
  jobs : d.jobs ⊆ e.jobs
  cancelled : d.store.cancelled = e.store.cancelled
  openGates : d.openGates = e.openGates
  startMs : d.startMs = e.startMs
  queue : d.queue = e.queue
  early : d.clock ≤ limit
  due : ∀ j ∈ d.jobs, d.clock ≤ j.deadline
  records : List.Forall₂ (e.Expires limit) e.store.records d.store.records

namespace Drains

theorem pass (h : e.Drains limit d) {time : Nat} (hearly : time ≤ limit)
    (hdue : ∀ j ∈ d.jobs, time ≤ j.deadline) : e.Drains limit { d with clock := time } := by
  obtain ⟨log, hsound⟩ := h.sound
  exact ⟨⟨log, hsound.store, hsound.ledger, hsound.calls⟩, h.nobody, h.jobs, h.cancelled,
    h.openGates, h.startMs, h.queue, hearly, hdue, h.records⟩

theorem endOf (h : e.Drains limit d) (hrest : e.AtRest) (hj : j ∈ d.jobs) :
    d.endOf j = j.deadline ∧ d.ending? j = none := by
  obtain ⟨gate, blocking, value, hreply, hclosed, hblocking⟩ := hrest.waits (h.jobs hj)
  apply endOf_atGate hreply (h.openGates ▸ hclosed)
  intro hc
  apply hblocking
  rw [isCancelled_iff] at hc ⊢
  exact h.cancelled ▸ hc

theorem finish (h : e.Drains limit d) (hrest : e.AtRest) (hj : j ∈ d.jobs)
    (hnow : d.clock = j.deadline) : e.Drains limit (d.finish j) := by
  obtain ⟨log, hsound⟩ := h.sound
  obtain ⟨new, hworks⟩ := hsound.finish hj
  obtain ⟨p, hp⟩ := exists_pool hj
  obtain ⟨hidle, hbusy⟩ := h.nobody p hp
  obtain ⟨store, statistics, events, hframe⟩ :=
    conclude_frame { d with pool := d.pool.map (·.finish j) } j
  have hjobs : (d.finish j).jobs ⊆ d.jobs := by
    rw [Engine.finish, hframe]
    exact jobs_finish_subset d j
  have hstore : (d.finish j).store.cancelled = d.store.cancelled ∧
      List.Forall₂ (e.Expires limit) d.store.records (d.finish j).store.records := by
    have hending : ({ d with pool := d.pool.map (·.finish j) } : Engine).ending? j = none :=
      (h.endOf hrest hj).2
    obtain hsame | ⟨hruns, hexpired⟩ := conclude_expired
      (d := { d with pool := d.pool.map (·.finish j) }) hsound.store (hsound.calls.each j hj) hending
    · rw [Engine.finish, hsame]
      exact ⟨rfl, List.forall₂_same.2 fun _ _ => .spared⟩
    · rw [Engine.finish, hexpired]
      have hswap := (Store.swapped_replace (r := j.record.expired d.now) hsound.store hruns.1
        rfl).map (·.record)
      refine ⟨rfl, hswap.forall₂ (fun _ => .spared) ?_⟩
      have hwithin : j.deadline ≤ limit := hnow ▸ h.early
      rw [Engine.now, h.startMs, hnow]
      exact .expired (h.jobs hj) rfl hruns.2 hwithin
  refine ⟨⟨_, hworks.sound hsound⟩, ?_, fun k hk => h.jobs (hjobs hk),
    hstore.1.trans h.cancelled, ?_, ?_, ?_, ?_, ?_, ?_⟩
  · intro p' hp'
    rw [Engine.finish, hframe] at hp'
    obtain rfl : p.finish j = p' := by simpa [hp] using hp'
    simp [Pool.finish, hidle, hbusy]
  · rw [Engine.finish, hframe]
    exact h.openGates
  · rw [Engine.finish, hframe]
    exact h.startMs
  · rw [Engine.finish, hframe]
    exact h.queue
  · rw [Engine.finish, hframe]
    exact h.early
  · intro k hk
    rw [Engine.finish, hframe]
    exact h.due k (hjobs hk)
  · exact forall₂_comp h.records hstore.2 fun _ _ _ => Expires.trans

theorem dispatch?_eq_none (h : e.Drains limit d) : d.dispatch? = none :=
  Engine.dispatch?_eq_none.2 fun p hp => .inl (h.nobody p hp).1

theorem length_finish (hj : j ∈ d.jobs) : (d.finish j).jobs.length < d.jobs.length := by
  have hless := work_finish hj
  have hqueue : (d.finish j).queue = d.queue := by
    obtain ⟨_, _, _, hframe⟩ := conclude_frame { d with pool := d.pool.map (·.finish j) } j
    rw [Engine.finish, hframe]
  rw [work, work, hqueue] at hless
  omega

theorem step (h : e.Drains limit d) (hrest : e.AtRest)
    (hs : d.step? (fun due => due ≤ limit) = some d') :
    e.Drains limit d' ∧ d'.jobs.length < d.jobs.length := by
  obtain ⟨j, hj, -, hdue, rfl⟩ | hd | ⟨j, hj, hleast, hlater, hpatient, rfl⟩ := step?_eq_some hs
  · rw [(h.endOf hrest hj).1] at hdue
    have hnow : d.clock = j.deadline := Nat.le_antisymm (h.due j hj) hdue
    exact ⟨h.finish hrest hj hnow, length_finish hj⟩
  · rw [h.dispatch?_eq_none] at hd
    cases hd
  · have hend := (h.endOf hrest hj).1
    rw [hend] at hpatient ⊢
    have hpassed : e.Drains limit { d with clock := j.deadline } := by
      refine h.pass (of_decide_eq_true hpatient) fun k hk => ?_
      rw [← hend, ← (h.endOf hrest hk).1]
      exact hleast k hk
    exact ⟨hpassed.finish hrest hj rfl, length_finish (d := { d with clock := j.deadline }) hj⟩

theorem later (h : e.Drains limit d) (hrest : e.AtRest)
    (hs : d.step? (fun due => due ≤ limit) = none) : ∀ j ∈ d.jobs, limit < j.deadline := by
  intro j hj
  obtain ⟨-, -, hpatient⟩ := step?_eq_none hs
  cases hfirst : d.firstToEnd? with
  | none =>
    rw [firstToEnd?_eq_none.1 hfirst] at hj
    cases hj
  | some k =>
    obtain ⟨hk, hleast⟩ := firstToEnd?_eq_some hfirst
    have hnot := of_decide_eq_false (hpatient k hk hleast)
    have hle := hleast j hj
    rw [(h.endOf hrest hk).1] at hnot hle
    rw [(h.endOf hrest hj).1] at hle
    omega

theorem run (hrest : e.AtRest) (room : Nat) : ∀ d, e.Drains limit d → d.jobs.length ≤ room →
    e.Drains limit (Engine.run (fun _ due => due ≤ limit) room d) ∧
      ∀ j ∈ (Engine.run (fun _ due => due ≤ limit) room d).jobs, limit < j.deadline := by
  induction room with
  | zero =>
    intro d h hroom
    rw [Engine.run]
    refine ⟨h, fun j hj => ?_⟩
    have hpos := List.length_pos_of_mem hj
    omega
  | succ room ih =>
    intro d h hroom
    rw [Engine.run]
    split
    · rename_i d' hs
      obtain ⟨h', hless⟩ := h.step hrest hs
      exact ih d' h' (by omega)
    · rename_i hs
      exact ⟨h, h.later hrest hs⟩

end Drains

theorem AtRest.retire (hrest : e.AtRest) (h : e.Sound log) (hlimit : e.clock ≤ limit) :
    e.Drains limit { e with pool := e.pool.map Pool.retire } := by
  have hjobs := jobs_retire e
  refine ⟨⟨log, h.store, h.ledger, h.calls.perm hjobs⟩, ?_, hjobs.subset, rfl, rfl, rfl, rfl,
    hlimit, ?_, List.forall₂_same.2 fun _ _ => .spared⟩
  · intro p' hp'
    obtain ⟨p, -, rfl⟩ := Option.map_eq_some_iff.1 hp'
    exact ⟨rfl, rfl⟩
  · intro j hj
    obtain ⟨gate, blocking, value, hreply, hclosed, hblocking⟩ := hrest.waits (hjobs.subset hj)
    obtain ⟨-, hlater, -⟩ := step?_eq_none hrest
    have hlater := hlater j (hjobs.subset hj)
    rw [(endOf_atGate hreply hclosed hblocking).1] at hlater
    exact Nat.le_of_lt hlater

/-- When the time of grace is over, calls that are left have more time than that. -/
theorem AtRest.drain (hrest : e.AtRest) (h : e.Sound log) :
    e.Drains (e.clock + e.shutdownGraceMs) e.drain ∧ ∀ j ∈ e.drain.jobs,
      e.clock + e.shutdownGraceMs < j.deadline ∧
        e.drain.clock = e.clock + e.shutdownGraceMs := by
  have hretired := hrest.retire h (Nat.le_add_right e.clock e.shutdownGraceMs)
  obtain ⟨hdrains, hlater⟩ := Drains.run hrest _ _ hretired (Nat.le_refl _)
  unfold Engine.drain
  simp only
  split
  · rename_i hempty
    refine ⟨hdrains, fun j hj => ?_⟩
    rw [hempty] at hj
    cases hj
  · rw [Nat.max_eq_right hdrains.early]
    exact ⟨hdrains.pass (Nat.le_refl _) fun j hj => Nat.le_of_lt (hlater j hj),
      fun j hj => ⟨hlater j hj, rfl⟩⟩

/-- What becomes of a record when the engine stops. A request that runs ends, by itself if its own
time is up within the time of grace. -/
inductive Halts (e : Engine) (r : RequestRecord) : RequestRecord → Prop
  | spared (waits : r.state ≠ .running) : Halts e r r
  | expired {j : Job} (goesOn : j ∈ e.jobs) (record : j.record = r) (running : r.state = .running)
      (within : j.deadline ≤ e.clock + e.shutdownGraceMs) :
      Halts e r (r.expired (.ofMillis (e.startMs + j.deadline)))
  | stopped {j : Job} (goesOn : j ∈ e.jobs) (record : j.record = r) (running : r.state = .running)
      (beyond : e.clock + e.shutdownGraceMs < j.deadline) :
      Halts e r (r.stopped (.ofMillis (e.startMs + (e.clock + e.shutdownGraceMs))))

/-- What still runs in the end fails, and all else stays as it is. -/
inductive Fails (e : Engine) (r : RequestRecord) : RequestRecord → Prop
  | spared (waits : r.state ≠ .running) : Fails e r r
  | stopped {j : Job} (goesOn : j ∈ e.jobs) (record : j.record = r) (running : r.state = .running)
      (beyond : e.clock + e.shutdownGraceMs < j.deadline) :
      Fails e r (r.stopped (.ofMillis (e.startMs + (e.clock + e.shutdownGraceMs))))

theorem Expires.halts (h : e.Expires (e.clock + e.shutdownGraceMs) r r') (h' : e.Fails r' r'') :
    e.Halts r r'' := by
  cases h with
  | spared =>
    cases h' with
    | spared waits => exact .spared waits
    | stopped goesOn record running beyond => exact .stopped goesOn record running beyond
  | expired goesOn record running within =>
    cases h' with
    | spared _ => exact .expired goesOn record running within
    | stopped _ _ running' _ => cases running'

theorem AtRest.fails (hrest : e.AtRest) (h : e.Sound log) : List.Forall₂ e.Fails
    e.drain.store.records (e.drain.store.failRunning e.drain.now stoppedMessage).2.records := by
  obtain ⟨hdrains, hlater⟩ := hrest.drain h
  obtain ⟨log', hsound⟩ := hdrains.sound
  simp only [Store.records, Store.failRunning, List.map_map]
  rw [List.forall₂_map_left_iff, List.forall₂_map_right_iff, List.forall₂_same]
  intro x hx
  simp only [Function.comp_apply]
  obtain ⟨hrun, r, hr, hfail⟩ | ⟨hwaits, hfail⟩ :=
    Store.failEntry_cases e.drain.now stoppedMessage x
  · obtain ⟨j, hj, rfl⟩ := hsound.calls.all x hx hrun
    obtain ⟨hbeyond, hclock⟩ := hlater j hj
    have hstopped := RequestRecord.fail?_stopped e.drain.now hrun
    obtain rfl := Option.some.inj (hstopped.symm.trans hr)
    rw [hfail, Engine.now, hdrains.startMs, hclock]
    exact .stopped (hdrains.jobs hj) rfl hrun hbeyond
  · rw [hfail]
    exact .spared hwaits

/-- A stop ends each request that runs, and leaves the others as they are. -/
theorem AtRest.halts (hrest : e.AtRest) (h : e.Sound log) :
    List.Forall₂ e.Halts e.store.records e.stop.store.records := by
  obtain ⟨hp, hstop⟩ | ⟨-, _, _, hstop⟩ := stop_cases e
  · rw [hstop, List.forall₂_same]
    intro r hr
    refine .spared fun hrun => ?_
    obtain ⟨x, hx, rfl⟩ := List.mem_map.1 hr
    obtain ⟨j, hj, -⟩ := h.calls.all x hx hrun
    rw [jobs_of_stopped hp] at hj
    cases hj
  · rw [hstop]
    exact forall₂_comp (hrest.drain h).1.records (hrest.fails h) fun _ _ _ => Expires.halts

end Engine

end RequestEngine
