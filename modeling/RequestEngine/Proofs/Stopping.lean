import RequestEngine.Proofs.Announcements
import RequestEngine.Proofs.Draining
import RequestEngine.Proofs.Workforce

/-! Stops and what comes after them. A stop ends what runs and leaves all else as it is, gates that
are opened later find nobody, and the next start goes on with the queue where it stood. -/
namespace RequestEngine

open Ledger (submitted started Tells)

namespace Engine

/-- An engine at rest was stopped. -/
structure Halted (e e' : Engine) : Prop where
  stopped : e'.isRunning = false ∧ e'.workers = 0 ∧ e'.store.count .running = 0
  records : List.Forall₂ e.Halts e.store.records e'.store.records
  /-- The deadline of a call is that of its request. -/
  punctual : ∀ j ∈ e.jobs, j.record.startedAt = some (.ofMillis (e.startMs + j.startedMs))
  queue : e'.queue = e.queue
  recent : ∀ limit, (e'.store.recent limit).map (·.id) = (e.store.recent limit).map (·.id)
  /-- The end of each request that ran is told once, and nothing else. -/
  told : ∃ new, e'.events = new.foldl EventBus.emit e.events ∧
    (∀ id r r', e.status? id = some r → e'.status? id = some r' → r.state = .running →
      Ledger.about id new = [.finished r'.state r'.error]) ∧
    ∀ id, (∀ r, e.status? id = some r → r.state ≠ .running) → Ledger.about id new = []
  submissions : e'.statistics.total = e.statistics.total ∧
    e'.statistics.rejected = e.statistics.rejected
  counted : e'.statistics.completed = e.statistics.completed ∧
    e'.statistics.failed = e.statistics.failed + e.store.count .running ∧
    e'.statistics.timeouts + e.store.count .timeout =
      e.statistics.timeouts + e'.store.count .timeout ∧
    e'.statistics.cancelled = e.statistics.cancelled
  same : e.isRunning = false → e' = e

variable {e e' : Engine} {log new : List RequestEvent} {r r' : RequestRecord} {c : Command}

theorem Halts.cases (h : e.Halts r r') :
    r.state ≠ .running ∧ r' = r ∨ r.state = .running ∧ r.Ends r' := by
  cases h with
  | spared waits => exact .inl ⟨waits, rfl⟩
  | expired _ _ running _ =>
    exact .inr ⟨running, .fail (.inl running) (RequestRecord.fail?_expired _ running)⟩
  | stopped _ _ running _ =>
    exact .inr ⟨running, .fail (.inl running) (RequestRecord.fail?_stopped _ running)⟩

theorem Halts.becomes (h : e.Halts r r') : r.Becomes r' := by
  obtain ⟨-, rfl⟩ | ⟨-, ends⟩ := h.cases
  · exact .refl r'
  · exact ends.becomes

theorem countP_halts {l l' : List RequestRecord} (h : List.Forall₂ e.Halts l l') :
    l'.countP (·.state ∈ [.completed]) = l.countP (·.state ∈ [.completed]) ∧
    l'.countP (·.state ∈ [.failed, .timeout]) =
      l.countP (·.state ∈ [.failed, .timeout]) + l.countP (·.state = .running) ∧
    l'.countP (·.state ∈ [.cancelled]) = l.countP (·.state ∈ [.cancelled]) := by
  induction h with
  | nil => simp
  | cons hone _ ih =>
    obtain ⟨hcompleted, hfailed, hcancelled⟩ := ih
    simp only [List.countP_cons, hcompleted, hfailed, hcancelled]
    cases hone with
    | spared waits => simp [waits, Nat.add_right_comm]
    | expired _ _ running _ =>
      simp [running, RequestRecord.expired, Nat.add_assoc]
    | stopped _ _ running _ =>
      simp [running, RequestRecord.stopped, Nat.add_assoc]

theorem step_stop (e : Engine) : (e.step .stop).2 = e.stop :=
  (atRest_of_stopped (pool_stop e)).settle

theorem AtRest.queue_stop (hrest : e.AtRest) (h : e.Sound log) : e.stop.queue = e.queue := by
  obtain ⟨-, hstop⟩ | ⟨-, _, _, hstop⟩ := stop_cases e
  · rw [hstop]
  · rw [hstop]
    exact (hrest.drain h).1.queue

/-- A stop tells of each request that ran how it ended. -/
theorem AtRest.about_stop (hrest : e.AtRest) (h : e.Sound log) (hheard : e.ledger.Heard log)
    (hnew : submitted new = []) (hp : Proceeds log new e e.stop) (hr : r ∈ e.store.records)
    (hr' : r' ∈ e.stop.store.records) (hid : r'.id = r.id) :
    Ledger.about r.id new =
      if r.state = .running then [.finished r'.state r'.error] else [] := by
  obtain ⟨x, hx, hhalts⟩ := exists_of_forall₂ (hrest.halts h) hr'
  obtain rfl : x = r := h.ledger.eq_of_id hx hr (hhalts.becomes.id.symm.trans hid)
  have hafter := hheard.tells hp.tells h.ledger (h.fresh_append hnew)
  have hstory := hafter.stories r' hr'
  rw [hid, Ledger.about_append, hheard.stories x hr] at hstory
  obtain ⟨hwaits, rfl⟩ | ⟨hrun, ends⟩ := hhalts.cases
  · rw [if_neg hwaits]
    exact List.append_right_eq_self.1 hstory
  · rw [if_pos hrun]
    rw [ends.story] at hstory
    exact List.append_cancel_left hstory

theorem AtRest.told_stop (hrest : e.AtRest) (h : e.Sound log) (hheard : e.ledger.Heard log) :
    ∃ new, e.stop.events = new.foldl EventBus.emit e.events ∧
      (∀ id r r', e.status? id = some r → e.stop.status? id = some r' → r.state = .running →
        Ledger.about id new = [.finished r'.state r'.error]) ∧
      ∀ id, (∀ r, e.status? id = some r → r.state ≠ .running) → Ledger.about id new = [] := by
  obtain ⟨new, hnew, hp⟩ := h.stop
  refine ⟨new, hp.tells.events, ?_, ?_⟩
  · intro id r r' hr hr' hrun
    obtain ⟨hmem, rfl⟩ := (Store.get?_eq_some h.store).1 hr
    obtain ⟨hmem', hid⟩ := (Store.get?_eq_some hp.store).1 hr'
    rw [hrest.about_stop h hheard hnew hp hmem hmem' hid, if_pos hrun]
  · intro id hid
    by_cases hmem : id ∈ e.stop.ledger.records.map (·.id)
    · obtain ⟨r', hr', rfl⟩ := List.mem_map.1 hmem
      obtain ⟨r, hr, hhalts⟩ := exists_of_forall₂ (hrest.halts h) hr'
      have hsame := hhalts.becomes.id
      have hwaits := hid r ((Store.get?_eq_some h.store).2 ⟨hr, hsame.symm⟩)
      rw [hsame, hrest.about_stop h hheard hnew hp hr hr' hsame, if_neg hwaits]
    · exact hp.tells.about_eq_nil hmem

theorem AtRest.counted_stop (hrest : e.AtRest) (h : e.Sound log) :
    e.stop.statistics.total = e.statistics.total ∧
    e.stop.statistics.rejected = e.statistics.rejected ∧
    e.stop.statistics.completed = e.statistics.completed ∧
    e.stop.statistics.failed = e.statistics.failed + e.store.count .running ∧
    e.stop.statistics.timeouts + e.store.count .timeout =
      e.statistics.timeouts + e.stop.store.count .timeout ∧
    e.stop.statistics.cancelled = e.statistics.cancelled := by
  obtain ⟨new, hnew, hp⟩ := h.stop
  obtain ⟨htotal, hcompleted, hfailed, htimeouts, hcancelled⟩ := hp.tells.conserves
  obtain ⟨hcompleted', hfailed', hcancelled'⟩ := countP_halts (hrest.halts h)
  simp only [Engine.ledger] at htotal hcompleted hfailed htimeouts hcancelled
  rw [hnew] at htotal
  simp only [List.mem_singleton] at htimeouts
  rw [Session.count_eq, Session.count_eq, Session.count_eq]
  exact ⟨htotal, hp.tells.statistics.1, by omega, by omega, htimeouts, by omega⟩

theorem AtRest.halted_stop (hrest : e.AtRest) (h : e.Sound log) (hheard : e.ledger.Heard log)
    (hregular : e.Regular) : e.Halted e.stop := by
  obtain ⟨new, hnew, hp⟩ := h.stop
  have hsound := hp.sound h (h.fresh_append hnew)
  have hpool := pool_stop e
  have hstopped : e.stop.isRunning = false := by simp [isRunning, hpool]
  have hworkers : e.stop.workers = 0 := by simp [Engine.workers, hpool]
  have hrecords := hrest.halts h
  have hids := RequestRecord.map_id_of_forall₂ (hrecords.imp fun _ _ hh => hh.becomes)
  obtain ⟨htotal, hrejected, hcounted⟩ := hrest.counted_stop h
  refine ⟨⟨hstopped, hworkers, hsound.running_of_stopped hstopped⟩, hrecords, hregular.punctual,
    hrest.queue_stop h, ?_, hrest.told_stop h hheard, ⟨htotal, hrejected⟩, hcounted, ?_⟩
  · intro limit
    rw [hregular.stop.listed.recent hsound.store, hregular.listed.recent h.store,
      List.map_take, List.map_take, List.map_reverse, List.map_reverse, hids]
  · intro hrunning
    exact if_pos (by simpa [isRunning] using hrunning)

theorem Turns.stopped (h : Turns e e') (hp : e.pool = none) : e'.pool = none := by
  have hsame := h.isRunning
  simpa [Engine.isRunning, hp] using hsame

theorem pool_step (hp : e.pool = none) (hc : c ≠ .start) : (e.step c).2.pool = none := by
  have hperform : (e.perform c).2.pool = none := by
    cases performed e c with
    | start => exact absurd rfl hc
    | stop => exact pool_stop e
    | wait id maxMs => exact (wait_turns e id maxMs).stopped hp
    | setMaxWorkers n => simp [Engine.perform, Engine.setMaxWorkers, hp]
    | other pool _ => exact pool.trans hp
  exact (settle_turns _).stopped hperform

theorem step_openGate (hp : e.pool = none) (gate : String) :
    (e.step (.openGate gate)).2 = { e with openGates := gate :: e.openGates } :=
  (atRest_of_stopped (e := e.openGate gate) hp).settle

theorem isRunning_start (e : Engine) : (e.step .start).2.isRunning = true := by
  have hstart : e.start.isRunning = true := by
    unfold Engine.start
    split
    · assumption
    · rfl
  exact (settle_turns e.start).isRunning.trans hstart

/-- A start takes requests from the front of the queue, in their order. -/
theorem Sound.step_start (h : e.Sound log) : ∃ new,
    (e.step .start).2.events = new.foldl EventBus.emit e.events ∧
      e.queue.items = started new ++ (e.step .start).2.queue.items := by
  obtain ⟨pool, hstart, hjobs⟩ := jobs_start e
  have hstarted : Works log [] e e.start := by
    rw [hstart]
    exact h.works rfl rfl (.of_eq hjobs)
  obtain ⟨new, hsettled⟩ := (hstarted.sound h).turns (settle_turns e.start)
  have hworks := hstarted.trans hsettled
  exact ⟨[] ++ new, hworks.proceeds.tells.events, hworks.served⟩

end Engine

namespace Session

def Unstarted (s : Session) (n k : Nat) : Prop :=
  ∀ i, n ≤ i → i < k → s.commands[i]? ≠ some .start

/-- A stop at a resting point, and what comes after it. -/
structure Halted (s : Session) (n : Nat) : Prop where
  stop : (s.engine n).Halted (s.engine (n + 1))
  /-- Requests that have ended by then are seen the same ever after. -/
  final : ∀ k id r, s.record? (n + 1) id = some r → r.state.isTerminal →
    s.lastSeen? (n + 1 + k) id = some r
  /-- A gate that is opened before the next start is all that changes. -/
  release : ∀ k gate, n < k → s.Unstarted (n + 1) k → s.commands[k]? = some (.openGate gate) →
    s.engine (k + 1) = { s.engine k with openGates := gate :: (s.engine k).openGates }
  /-- A start takes requests in the order of the queue, as long as there are workers. -/
  start : ∀ k, n < k → s.commands[k]? = some .start → ∃ new,
    (s.engine (k + 1)).events = new.foldl EventBus.emit (s.engine k).events ∧
      (s.engine k).queue.items = started new ++ (s.engine (k + 1)).queue.items ∧
      ((s.engine (k + 1)).queue.items = [] ∨ ∀ w < (s.engine (k + 1)).maxWorkers,
        ∃ j ∈ (s.engine (k + 1)).jobs, j.worker = w)

variable {s : Session} {n : Nat} {c : Command}

theorem pool_unstarted {k : Nat} (hp : (s.engine n).pool = none) (hk : n ≤ k)
    (h : s.Unstarted n k) : (s.engine k).pool = none := by
  induction k with
  | zero => exact Nat.le_zero.1 hk ▸ hp
  | succ k ih =>
    obtain hk | rfl := Nat.le_succ_iff.1 hk
    · have hbefore := ih hk fun i hi hik => h i hi (Nat.lt_succ_of_lt hik)
      obtain ⟨-, he, -⟩ | ⟨c, hc, he, -⟩ := s.engine_succ k
      · rw [he]
        exact hbefore
      · rw [he]
        refine Engine.pool_step hbefore ?_
        rintro rfl
        exact h k hk (Nat.lt_succ_self k) hc
    · exact hp

theorem stop_ends_running_keeps_pending (s : Session) (n : Nat)
    (hc : s.commands[n]? = some .stop) : s.Halted n := by
  obtain ⟨log, h⟩ := s.history n
  have hstop : s.engine (n + 1) = (s.engine n).stop :=
    (engine_step hc).trans (Engine.step_stop _)
  have hpool : (s.engine (n + 1)).pool = none := hstop ▸ Engine.pool_stop _
  refine ⟨?_, fun k id r hr ht => lastSeen?_add hr ht k, ?_, ?_⟩
  · rw [hstop]
    exact (s.atRest n).halted_stop h.sound.1 h.heard (s.regular n)
  · intro k gate hk hunstarted hgate
    rw [engine_step hgate]
    exact Engine.step_openGate (pool_unstarted hpool hk hunstarted) gate
  · intro k _ hstart
    obtain ⟨log', h'⟩ := s.history k
    obtain ⟨new, hevents, hqueue⟩ := h'.sound.1.step_start
    rw [← engine_step hstart] at hevents hqueue
    refine ⟨new, hevents, hqueue, ?_⟩
    by_cases hempty : (s.engine (k + 1)).queue.items = []
    · exact .inl hempty
    · right
      intro w hw
      have hrunning := Engine.isRunning_start (s.engine k)
      rw [← engine_step hstart] at hrunning
      obtain ⟨p, hp⟩ := Option.isSome_iff_exists.1 hrunning
      have hidle := (s.atRest (k + 1)).idle_eq_nil hp hempty
      obtain ⟨j, hj, hjw⟩ := (s.staffed (k + 1)).exists_busy hp hidle hw
      exact ⟨j, by rw [Engine.jobs_of_pool hp]; exact List.mem_append_left _ hj, hjw⟩

/-- Two workers with a call each, of which one runs out of time during the time of grace, and a
request behind them. -/
def interrupted : Session where
  registry := Registry.empty.register .nil (.plain "a" fun _ _ => .atGate "g" false .null)
  config := ⟨2, 10, 60000, 5000, 8⟩
  startMs := 0
  commands := [.start, .submit (.ofNat 1) "a" "f" .null (some 2000),
    .submit (.ofNat 2) "a" "f" .null none, .submit (.ofNat 3) "a" "f" .null none, .stop,
    .openGate "g", .start]
  fresh := by decide

theorem stop_ends_running_keeps_pending_interrupted :
    interrupted.commands[4]? = some .stop ∧ interrupted.Halted 4 ∧
    (interrupted.record? 5 (.ofNat 1)).map (·.state) = some .timeout ∧
    (interrupted.record? 5 (.ofNat 2)).map (·.state) = some .failed ∧
    (interrupted.engine 5).queue.items = [.ofNat 3] := by
  refine ⟨rfl, stop_ends_running_keeps_pending interrupted 4 rfl, ?_, ?_, ?_⟩
  · decide +kernel
  · decide +kernel
  · decide +kernel

end Session

end RequestEngine
