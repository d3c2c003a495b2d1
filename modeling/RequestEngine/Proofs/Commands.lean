import RequestEngine.Engine.Session
import RequestEngine.Proofs.Runs

/-! What a command does to the ledger. A refusal is only counted, a cleanup only evicts, and all
else that a command and the rest after it do is entered. -/
namespace RequestEngine

open Ledger (submitted Tells)

namespace Answer

def accepted? : Answer → Option Uuid
  | .submission (.ok id) => some id
  | _ => none

def isRefusal : Answer → Bool
  | .submission (.error _) => true
  | _ => false

end Answer

/-- What a command does with the subscribers. The events that it leads to come after that. -/
def Command.attend (b : EventBus RequestEvent) : Command → EventBus RequestEvent
  | .subscribe name => b.subscribe name
  | .receive name => ((b.drain? name).map (·.2)).getD b
  | _ => b

theorem Pool.jobs_resize (p : Pool) (n : Nat) : (p.resize n).jobs.Perm p.jobs := by
  have hsplit : p.busy.filter (n ≤ ·.worker) = p.busy.filter fun j => !(j.worker < n) := by
    refine List.filter_congr fun j _ => ?_
    rw [← decide_not, decide_eq_decide]
    exact Nat.not_lt.symm
  calc (p.resize n).jobs
      = p.busy.filter (·.worker < n) ++ (p.retired ++ p.busy.filter (n ≤ ·.worker)) := rfl
    List.Perm _ (p.busy.filter (·.worker < n) ++ (p.busy.filter (n ≤ ·.worker) ++ p.retired)) :=
        List.perm_append_comm.append_left _
    List.Perm _ (p.busy.filter (·.worker < n) ++ p.busy.filter (n ≤ ·.worker) ++ p.retired) := by
        rw [List.append_assoc]
    List.Perm _ (p.busy ++ p.retired) := by
        rw [hsplit]
        exact (List.filter_append_perm _ _).append_right _

namespace Engine

variable {e e' : Engine} {log : List RequestEvent}

theorem enqueue_eq_ok {id : Uuid} {agent function : String} {parameters : Json}
    {timeout : Option UInt64} (h : e.enqueue id agent function parameters timeout = .ok e') :
    (e.registry.resolve? agent).isSome ∧
    e.functions.missingParameter? function parameters = none ∧
    e.queue.items.length < e.queue.capacity ∧
    e' = { e with
      store := e.store.insert
        (.new id e.now agent function parameters (e.timeoutFor function timeout))
      queue := { e.queue with items := e.queue.items ++ [id] }
      statistics := e.statistics.recordSubmitted
      events := e.events.emit (.submitted id agent function e.now) } := by
  unfold enqueue at h
  cases ha : e.registry.resolve? agent with
  | none => simp [ha, throw, throwThe, MonadExceptOf.throw, bind, Except.bind] at h
  | some a =>
    cases hm : e.functions.missingParameter? function parameters with
    | some name => simp [ha, hm, throw, throwThe, MonadExceptOf.throw, bind, Except.bind] at h
    | none =>
      by_cases hq : e.queue.capacity ≤ e.queue.items.length
      · simp [ha, hm, Store.insertIf, WorkQueue.push, hq, bind, Except.bind] at h
      · simp [ha, hm, Store.insertIf, WorkQueue.push, hq, bind, Except.bind, pure, Except.pure] at h
        refine ⟨rfl, rfl, by omega, ?_⟩
        rw [← h]
        rfl

theorem Sound.records_insert (h : e.Sound log) {r : RequestRecord} (hnew : r.id ∉ submitted log) :
    (e.store.insert r).records = e.store.records ++ [r] := by
  have hentries := Store.insert_entries (s := e.store) (r := r) fun x hx hid =>
    hnew (hid ▸ h.ledger.known x.record (List.mem_map_of_mem hx))
  exact (congrArg (List.map (·.record)) hentries).trans List.map_append

theorem Sound.enqueue (h : e.Sound log) {id : Uuid} {agent function : String} {parameters : Json}
    {timeout : Option UInt64} (hnew : id ∉ submitted log)
    (he : e.enqueue id agent function parameters timeout = .ok e') :
    Proceeds log [.submitted id agent function e.now] e e' := by
  obtain ⟨-, -, -, rfl⟩ := enqueue_eq_ok he
  have hknown : ∀ x ∈ e.store.entries, x.record.id ∈ submitted log :=
    fun x hx => h.ledger.known x.record (List.mem_map_of_mem hx)
  refine ⟨Ledger.Step.tells (.submit id e.now agent function parameters
    (e.timeoutFor function timeout) ?_ rfl rfl rfl), h.store.insert _, ?_⟩
  · exact h.records_insert hnew
  · exact Calls.append (h.calls.insert hknown hnew RequestState.noConfusion) _

theorem Sound.cancel (h : e.Sound log) (id : Uuid) :
    ∃ new, submitted new = [] ∧ Proceeds log new e (e.cancel id).2 := by
  unfold Engine.cancel
  split
  · rename_i r store hc
    obtain ⟨x, hfound, hc⟩ := Option.bind_eq_some_iff.1 hc
    obtain ⟨⟨r₁, store₁⟩, hf, hc⟩ := Option.bind_eq_some_iff.1 hc
    obtain ⟨hx, rfl⟩ := (Store.entry?_eq_some h.store).1 hfound
    obtain ⟨old, hold, hf⟩ := Option.bind_eq_some_iff.1 hf
    obtain ⟨hold, hid⟩ := (Store.get?_eq_some h.store).1 hold
    obtain rfl : old = x.record := h.ledger.eq_of_id hold (List.mem_map_of_mem hx) hid
    obtain ⟨r₂, hr, hf⟩ := Option.bind_eq_some_iff.1 hf
    obtain ⟨rfl, rfl⟩ := Prod.mk.inj (Option.some.inj hf)
    obtain ⟨rfl, rfl⟩ := Prod.mk.inj (Option.some.inj hc)
    have ends : x.record.Ends r₂ := .fail (.inr rfl) hr
    have hstate : r₂.state = .cancelled := by rw [(RequestRecord.fail?_eq_some hr).2]; rfl
    refine ⟨_, rfl, Ledger.Step.tells (.finish e.now ends ?_ rfl rfl rfl), ?_, ?_⟩
    · exact (Store.swapped_replace h.store hx ends.becomes.id).map (·.record)
    · exact (h.store.replace hx ends.becomes.id fun _ => ends.terminal).cancelled
        (x := { x with record := r₂ })
        ((Store.mem_replace h.store hx ends.becomes.id).2 (.inl rfl)) ends.terminal
    · exact Calls.append (h.calls.cancel h.store hx ends.not_terminal
        (h.ledger.known _ (List.mem_map_of_mem hx)) ends.becomes.id hstate) _
  · exact ⟨[], rfl, h.stays rfl rfl (.refl _)⟩

theorem foldl_recordEnd_frame (records : List RequestRecord) : ∀ e : Engine,
    ∃ statistics events,
      records.foldl recordEnd e = { e with statistics := statistics, events := events } := by
  induction records with
  | nil => exact fun e => ⟨_, _, rfl⟩
  | cons r records ih => exact fun e => ih (e.recordEnd r)

theorem tells_failRunning (now : Instant) (message : String) (rest : List Entry) :
    ∀ (done : List RequestRecord) (e : Engine),
    (∀ x ∈ rest, x.record.state = .running → x.record.id ∉ e.queue.items) →
    ∀ e', e' = ((rest.filter Store.Entry.isRunning).map
      fun x => (Store.failEntry now message x).record).foldl recordEnd e →
    ∃ new, submitted new = [] ∧
      Tells ⟨done ++ rest.map (·.record), e.queue.items, e.statistics, e.events⟩ new
        ⟨done ++ rest.map fun x => (Store.failEntry now message x).record,
          e.queue.items, e'.statistics, e'.events⟩ := by
  induction rest with
  | nil =>
    rintro done e - e' rfl
    exact ⟨[], rfl, .nil⟩
  | cons x rest ih =>
    rintro done e hnot e' rfl
    have hrest : ∀ y ∈ rest, y.record.state = .running → y.record.id ∉ e.queue.items :=
      fun y hy => hnot y (List.mem_cons_of_mem x hy)
    obtain ⟨hrun, r, hr, hx⟩ | ⟨hrun, hx⟩ := Store.failEntry_cases now message x
    · have ends : x.record.Ends r := .fail (.inl hrun) hr
      have hisRunning : Store.Entry.isRunning x = true := by simp [Store.Entry.isRunning, hrun]
      obtain ⟨new, hnew, htells⟩ := ih (done ++ [r]) (e.recordEnd r) hrest _ rfl
      have hstep : Ledger.Step
          ⟨done ++ x.record :: rest.map (·.record), e.queue.items, e.statistics, e.events⟩
          (.finished r.id r.state r.error (r.executionMs.getD 0) e.now)
          ⟨done ++ r :: rest.map (·.record), e.queue.items, (e.recordEnd r).statistics,
            (e.recordEnd r).events⟩ :=
        .finish e.now ends ⟨done, _, rfl, rfl⟩
          (List.erase_of_not_mem (hnot x List.mem_cons_self hrun)).symm rfl rfl
      rw [List.append_assoc, List.append_assoc] at htells
      rw [List.filter_cons_of_pos hisRunning, List.map_cons, List.map_cons, List.map_cons, hx]
      exact ⟨.finished r.id r.state r.error (r.executionMs.getD 0) e.now :: new, hnew,
        .cons hstep htells⟩
    · have hisRunning : ¬ Store.Entry.isRunning x = true := by simp [Store.Entry.isRunning, hrun]
      obtain ⟨new, hnew, htells⟩ := ih (done ++ [x.record]) e hrest _ rfl
      refine ⟨new, hnew, ?_⟩
      rw [List.filter_cons_of_neg hisRunning, List.map_cons, List.map_cons, hx]
      simpa using htells

/-- The workers are gone, and what still ran has failed. -/
def abandon (e : Engine) : Engine :=
  { e with pool := none, store := (e.store.failRunning e.now stoppedMessage).2 }

theorem stop_eq (h : e.pool.isSome) :
    e.stop = (e.drain.store.failRunning e.drain.now stoppedMessage).1.foldl recordEnd
      e.drain.abandon := by
  have hsome : ¬ e.pool.isNone = true := by simpa [Option.isSome_iff_ne_none] using h
  rw [stop, if_neg hsome]
  rfl

theorem Sound.sweep (h : e.Sound log) : ∃ new, submitted new = [] ∧
    Proceeds log new e
      ((e.store.failRunning e.now stoppedMessage).1.foldl recordEnd e.abandon) := by
  obtain ⟨new, hnew, htells⟩ := tells_failRunning e.now stoppedMessage e.store.entries [] e.abandon
    (fun x hx hrun => h.ledger.not_waiting (List.mem_map_of_mem hx)
      (by rw [hrun]; exact RequestState.noConfusion)) _ rfl
  obtain ⟨statistics, events, hswept⟩ :=
    foldl_recordEnd_frame (e.store.failRunning e.now stoppedMessage).1 e.abandon
  refine ⟨new, hnew, ?_, ?_, ?_⟩
  · rw [show ((e.store.entries.filter Store.Entry.isRunning).map
      fun x => (Store.failEntry e.now stoppedMessage x).record).foldl recordEnd e.abandon =
      { e.abandon with statistics := statistics, events := events } from hswept] at htells
    rw [hswept]
    have hrecords : ({ e.abandon with statistics := statistics, events := events } : Engine).ledger =
        ⟨e.store.entries.map fun x => (Store.failEntry e.now stoppedMessage x).record, e.queue.items,
          statistics, events⟩ := by
      simp [Engine.ledger, Store.records, abandon, Store.failRunning, Function.comp_def]
    rw [hrecords]
    exact htells
  · rw [hswept]
    exact h.store.failRunning e.now stoppedMessage
  · rw [hswept]
    refine Calls.nil fun y hy => ?_
    obtain ⟨x, -, rfl⟩ := List.mem_map.1 hy
    exact Store.failEntry_not_running _ _ x

theorem stop_cases (e : Engine) : e.pool = none ∧ e.stop = e ∨
    e.pool.isSome ∧ ∃ statistics events,
      e.stop = { e.drain.abandon with statistics := statistics, events := events } := by
  cases hp : e.pool with
  | none => exact .inl ⟨rfl, by simp [stop, hp]⟩
  | some p =>
    rw [stop_eq (by simp [hp])]
    exact .inr ⟨rfl, foldl_recordEnd_frame _ e.drain.abandon⟩

theorem pool_stop (e : Engine) : e.stop.pool = none := by
  obtain ⟨hp, hstop⟩ | ⟨-, _, _, hstop⟩ := stop_cases e
  · rw [hstop]
    exact hp
  · rw [hstop]
    rfl

theorem jobs_retire (e : Engine) :
    ({ e with pool := e.pool.map Pool.retire } : Engine).jobs.Perm e.jobs := by
  cases hp : e.pool with
  | none => simp [jobs, hp]
  | some p => simpa [jobs, hp] using p.jobs_retire

theorem Sound.stop (h : e.Sound log) : ∃ new, submitted new = [] ∧ Proceeds log new e e.stop := by
  by_cases hpool : e.pool.isSome
  · have hretired : Proceeds log [] e { e with pool := e.pool.map Pool.retire } :=
      h.stays rfl rfl (jobs_retire e)
    have hsound := hretired.sound h (h.fresh_append rfl)
    obtain ⟨new, hdrained⟩ := hsound.turns (drain_turns e)
    have hd := hdrained.sound hsound
    obtain ⟨new', hnew', hswept⟩ := hd.sweep
    rw [stop_eq hpool]
    refine ⟨[] ++ new ++ new', by simp [hdrained.none, hnew'],
      (hretired.trans hdrained.proceeds).trans ?_⟩
    simpa using hswept
  · have hstop : e.stop = e := if_pos (by simpa using hpool)
    exact ⟨[], rfl, h.stays (by rw [hstop]) (by rw [hstop]) (by rw [hstop])⟩

/-- A command is carried out with an answer: the ledger is corrected, and then come some entries,
with the submission that was accepted. -/
structure Carries (log new : List RequestEvent) (answer : Answer) (e middle e' : Engine) :
    Prop where
  adjusted : e.ledger.Adjusted answer.isRefusal.toNat middle.ledger
  sound : middle.Sound log
  proceeds : Proceeds log new middle e'
  accepted : submitted new = answer.accepted?.toList

theorem Carries.after {new : List RequestEvent} {answer : Answer} {middle : Engine}
    (h : Carries log new answer e middle e')
    (hfresh : ∀ id, answer.accepted? = some id → id ∉ submitted log) : e'.Sound (log ++ new) := by
  refine h.proceeds.sound h.sound ?_
  rw [Ledger.submitted_append, h.accepted, List.nodup_append]
  refine ⟨h.sound.ledger.fresh, Option.toList_nodup _, ?_⟩
  rintro id hid id' hid' rfl
  exact hfresh id (Option.mem_toList.1 hid') hid

theorem Sound.carries (h : e.Sound log) {answer : Answer} (hs : e'.store = e.store)
    (hq : e'.queue.items = e.queue.items)
    (hc : e'.statistics =
      { e.statistics with rejected := e.statistics.rejected + answer.isRefusal.toNat })
    (hj : e'.jobs.Perm e.jobs) (ha : answer.accepted? = none) :
    Carries log [] answer e e' e' := by
  have hadjusted : e.ledger.Adjusted answer.isRefusal.toNat e'.ledger :=
    ⟨hq, hc, by rw [Engine.ledger, hs]; exact List.Sublist.refl _,
      fun r hr _ => by rw [Engine.ledger, hs]; exact hr⟩
  have hsound : e'.Sound log :=
    ⟨hs ▸ h.store, h.ledger.adjusted hadjusted, hs ▸ h.calls.perm hj⟩
  exact ⟨hadjusted, hsound, hsound.stays rfl rfl (.refl _), by rw [ha]; rfl⟩

theorem jobs_start (e : Engine) :
    ∃ pool, e.start = { e with pool := pool } ∧ ({ e with pool := pool } : Engine).jobs = e.jobs := by
  unfold start
  split
  · exact ⟨e.pool, rfl, rfl⟩
  · rename_i hnone
    have hpool : e.pool = none := by simpa [Option.isSome_iff_ne_none] using hnone
    exact ⟨_, rfl, by simp [jobs, hpool, Pool.ofSize, Pool.jobs]⟩

theorem jobs_setMaxWorkers (e : Engine) (n : Nat) : (e.setMaxWorkers n).jobs.Perm e.jobs := by
  cases hp : e.pool with
  | none => simp [setMaxWorkers, jobs, hp]
  | some p => simpa [setMaxWorkers, jobs, hp] using p.jobs_resize (max n 1)

/-- What a command does to the workers. -/
inductive Performed (e : Engine) : Command → Engine → Prop
  | start : Performed e .start e.start
  | stop : Performed e .stop e.stop
  | wait (id : Uuid) (maxMs : Nat) : Performed e (.wait id maxMs) (e.wait id maxMs).2
  | setMaxWorkers (n : Nat) : Performed e (.setMaxWorkers n) (e.setMaxWorkers n)
  | other {c : Command} {e' : Engine} (pool : e'.pool = e.pool)
      (maxWorkers : e'.maxWorkers = e.maxWorkers) : Performed e c e'

theorem performed (e : Engine) (c : Command) : e.Performed c (e.perform c).2 := by
  cases c with
  | start => exact .start
  | stop => exact .stop
  | submit id agent function parameters timeout =>
    simp only [perform, submit]
    split
    · rename_i he
      obtain ⟨-, -, -, rfl⟩ := enqueue_eq_ok he
      exact .other rfl rfl
    · exact .other rfl rfl
  | cancel id =>
    simp only [perform, cancel]
    split <;> exact .other rfl rfl
  | wait id maxMs => exact .wait id maxMs
  | setMaxWorkers n => exact .setMaxWorkers n
  | loadFile path content =>
    simp only [perform]
    split <;> exact .other rfl rfl
  | receive name =>
    simp only [perform]
    split <;> exact .other rfl rfl
  | _ => exact .other rfl rfl

/-- A cleanup evicts requests that have ended, and changes nothing else. -/
theorem Sound.cleanup (h : e.Sound log) (keep : Nat) :
    e.ledger.Adjusted 0 (e.cleanup keep).2.ledger ∧ (e.cleanup keep).2.Sound log := by
  have hadjusted : e.ledger.Adjusted 0 (e.cleanup keep).2.ledger := by
    refine ⟨rfl, rfl, List.filter_sublist.map _, ?_⟩
    intro r hr ha
    obtain ⟨x, hx, rfl⟩ := List.mem_map.1 hr
    exact List.mem_map_of_mem (Store.mem_cleanup h.store keep hx ha)
  exact ⟨hadjusted, h.store.cleanup keep, h.ledger.adjusted hadjusted,
    h.calls.cleanup h.store keep⟩

theorem Sound.perform (h : e.Sound log) (c : Command)
    (hfresh : ∀ id, (e.perform c).1.accepted? = some id → id ∉ submitted log) :
    ∃ middle new, Carries log new (e.perform c).1 e middle (e.perform c).2 ∧
      middle.events = c.attend e.events := by
  have entered : ∀ {answer : Answer} {new}, Proceeds log new e (e.perform c).2 →
      submitted new = answer.accepted?.toList → answer.isRefusal = false →
      c.attend e.events = e.events →
      ∃ middle new, Carries log new answer e middle (e.perform c).2 ∧
        middle.events = c.attend e.events :=
    fun hp ha hr hb => ⟨e, _, ⟨by rw [hr]; exact .refl _, h, hp, ha⟩, hb.symm⟩
  cases c with
  | start =>
    obtain ⟨pool, hstart, hjobs⟩ := jobs_start e
    simp only [Engine.perform, hstart]
    exact ⟨_, [], h.carries rfl rfl rfl (.of_eq hjobs) rfl, rfl⟩
  | stop =>
    obtain ⟨new, hnew, hp⟩ := h.stop
    exact entered hp hnew rfl rfl
  | submit id agent function parameters timeout =>
    cases he : e.enqueue id agent function parameters timeout with
    | ok e' =>
      have hperform : e.perform (.submit id agent function parameters timeout) =
          (.submission (.ok id), e') := by simp [Engine.perform, Engine.submit, he]
      rw [hperform] at hfresh ⊢
      exact ⟨e, _, ⟨.refl _, h, h.enqueue (hfresh id rfl) he, rfl⟩, rfl⟩
    | error r =>
      have hperform : e.perform (.submit id agent function parameters timeout) =
          (.submission (.error r), { e with statistics := e.statistics.recordRejected }) := by
        simp [Engine.perform, Engine.submit, he]
      rw [hperform]
      exact ⟨_, [], h.carries rfl rfl rfl (.refl _) rfl, rfl⟩
  | cancel id =>
    obtain ⟨new, hnew, hp⟩ := h.cancel id
    exact entered hp hnew rfl rfl
  | wait id maxMs =>
    obtain ⟨new, hw⟩ := h.turns (wait_turns e id maxMs)
    exact entered hw.proceeds hw.none rfl rfl
  | cleanup keep =>
    obtain ⟨hadjusted, hsound⟩ := h.cleanup keep
    exact ⟨_, [], ⟨hadjusted, hsound, hsound.stays rfl rfl (.refl _), rfl⟩, rfl⟩
  | setMaxWorkers n => exact ⟨_, [], h.carries rfl rfl rfl (jobs_setMaxWorkers e n) rfl, rfl⟩
  | setMaxQueueSize n => exact ⟨_, [], h.carries rfl rfl rfl (.refl _) rfl, rfl⟩
  | setDefaultTimeout ms => exact ⟨_, [], h.carries rfl rfl rfl (.refl _) rfl, rfl⟩
  | load table => exact ⟨_, [], h.carries rfl rfl rfl (.refl _) rfl, rfl⟩
  | loadFile path content =>
    simp only [Engine.perform]
    split <;> exact ⟨_, [], h.carries rfl rfl rfl (.refl _) rfl, rfl⟩
  | openGate gate => exact ⟨_, [], h.carries rfl rfl rfl (.refl _) rfl, rfl⟩
  | setRunning agent running => exact ⟨_, [], h.carries rfl rfl rfl (.refl _) rfl, rfl⟩
  | forget agent => exact ⟨_, [], h.carries rfl rfl rfl (.refl _) rfl, rfl⟩
  | subscribe name => exact ⟨_, [], h.carries rfl rfl rfl (.refl _) rfl, rfl⟩
  | receive name =>
    cases hd : e.events.drain? name <;> simp only [Engine.perform, hd] <;>
      exact ⟨_, [], h.carries rfl rfl rfl (.refl _) rfl, by simp [Command.attend, hd]⟩

/-- After a command the engine comes to rest by itself. -/
theorem Sound.step (h : e.Sound log) (c : Command)
    (hfresh : ∀ id, (e.step c).1.accepted? = some id → id ∉ submitted log) :
    ∃ middle new, Carries log new (e.step c).1 e middle (e.step c).2 ∧
      middle.events = c.attend e.events := by
  obtain ⟨middle, new, hc, hattend⟩ := h.perform c hfresh
  obtain ⟨new', hsettled⟩ := (hc.after hfresh).turns (settle_turns _)
  exact ⟨middle, new ++ new', ⟨hc.adjusted, hc.sound, hc.proceeds.trans hsettled.proceeds,
    by rw [Ledger.submitted_append, hsettled.none, List.append_nil]; exact hc.accepted⟩, hattend⟩

end Engine

end RequestEngine
