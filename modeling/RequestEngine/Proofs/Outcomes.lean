import RequestEngine.Proofs.Fates
import RequestEngine.Proofs.Operations
import RequestEngine.Proofs.Stopping

/-! How requests end in a session. When a worker takes up a request it goes by the registry as it is
then: either no agent answers and the request fails, or the agent is called with what was submitted,
and the request ends as the call does, if nobody interferes. -/
namespace RequestEngine

open Ledger (submitted)

namespace RequestRecord

variable {r : RequestRecord}

/-- The record of a request that was cancelled. -/
def cancelled (r : RequestRecord) (now : Instant) : RequestRecord :=
  { r with
    state := .cancelled
    error := some Engine.cancelledMessage
    finishedAt := some now }

theorem fail?_cancelled (now : Instant) (h : r.state.isTerminal = false) :
    r.fail? now .cancelled Engine.cancelledMessage = some (r.cancelled now) := by
  simp [fail?, cancelled, h, Engine.cancelledMessage, FailureKind.state]

/-- The record shows how the call of its request ended. -/
structure Shows (r : RequestRecord) (state : RequestState) (result : Option Json)
    (error : Option String) : Prop where
  state : r.state = state
  result : r.result = result
  error : r.error = error

/-- What the record shows at the end of a call. Without an ending its time was up. -/
def Reflects (r : RequestRecord) : Option Ending → Prop
  | some (.value v) => r.Shows .completed (some v) none
  | some (.error err) => r.Shows .failed none (some err.message)
  | some .panic =>
    r.Shows .failed none (some ("Agent " ++ r.agent ++ " panicked during " ++ r.function))
  | none =>
    r.Shows .timeout none
      (some ("Request timed out after " ++ Decimal.text r.timeout.toNat ++ " ms"))

theorem reflects_concluded (hblank : r.result = none ∧ r.error = none) (now : Instant)
    (ending : Option Ending) : (r.concluded now ending).Reflects ending := by
  obtain ⟨hresult, herror⟩ := hblank
  cases ending with
  | none => exact ⟨rfl, hresult, rfl⟩
  | some ending =>
    cases ending with
    | value v => exact ⟨rfl, rfl, herror⟩
    | error err => exact ⟨rfl, hresult, rfl⟩
    | panic => exact ⟨rfl, hresult, rfl⟩

theorem Reflects.terminal {ending : Option Ending} (h : r.Reflects ending) :
    r.state.isTerminal := by
  cases ending with
  | none =>
    rw [h.state]
    rfl
  | some ending =>
    cases ending <;>
    · rw [h.state]
      rfl

theorem ends_concluded (h : r.state = .running) (now : Instant) (ending : Option Ending) :
    r.Ends (r.concluded now ending) := by
  cases ending with
  | none => exact .fail (.inl h) (fail?_expired now h)
  | some ending =>
    cases ending with
    | value v => exact .complete h (show r.complete? now v = _ by simp [complete?, h, concluded])
    | error err => exact .fail (.inl h) (fail?_failed h err.message_ne_empty)
    | panic => exact .fail (.inl h) (fail?_failed h (by simp))

theorem finishedAt_concluded (r : RequestRecord) (now : Instant) (ending : Option Ending) :
    (r.concluded now ending).finishedAt = some now := by
  cases ending with
  | none => rfl
  | some ending => cases ending <;> rfl

end RequestRecord

namespace Engine

variable {e e' m : Engine} {log : List RequestEvent} {c : Command} {j : Job}
  {r r₀ : RequestRecord}

def revoked (e : Engine) (x : Entry) : Engine :=
  { e with
    store := { e.store.replace (x.record.cancelled e.now) with
      cancelled := x.token :: e.store.cancelled }
    queue := e.queue.remove x.record.id }.recordEnd (x.record.cancelled e.now)

/-- A request that has not ended is cancelled, and nothing else can be. -/
theorem Sound.cancel_cases (h : e.Sound log) (id : Uuid) :
    ((∀ r ∈ e.store.records, r.id = id → r.state.isTerminal) ∧ e.cancel id = (false, e)) ∨
    ∃ x ∈ e.store.entries, x.record.id = id ∧ x.record.state.isTerminal = false ∧
      e.cancel id = (true, e.revoked x) := by
  have hchange : ∀ x ∈ e.store.entries, x.record.id = id →
      e.store.cancel? e.now id cancelledMessage =
        (x.record.fail? e.now .cancelled cancelledMessage).map fun r =>
          (r, { e.store.replace r with cancelled := x.token :: e.store.cancelled }) := by
    rintro x hx rfl
    have hentry : e.store.entry? x.record.id = some x := (Store.entry?_eq_some h.store).2 ⟨hx, rfl⟩
    cases hr : x.record.fail? e.now .cancelled cancelledMessage with
    | none => simp [Store.cancel?, Store.fail?, Store.change?_eq, Store.get?_eq, hentry, hr]
    | some r =>
      simp [Store.cancel?, Store.fail?, Store.change?_eq, Store.get?_eq, hentry, hr]
      rfl
  by_cases hactive : ∃ x ∈ e.store.entries, x.record.id = id ∧ x.record.state.isTerminal = false
  · obtain ⟨x, hx, hid, hactive⟩ := hactive
    have hcancelled := hchange x hx hid
    rw [RequestRecord.fail?_cancelled e.now hactive, Option.map_some] at hcancelled
    refine .inr ⟨x, hx, hid, hactive, ?_⟩
    rw [Engine.cancel, hcancelled, revoked, hid]
  · have hended : ∀ r ∈ e.store.records, r.id = id → r.state.isTerminal := by
      intro r hr hid
      obtain ⟨x, hx, rfl⟩ := List.mem_map.1 hr
      by_contra hn
      exact hactive ⟨x, hx, hid, by simpa using hn⟩
    have hnone : e.store.cancel? e.now id cancelledMessage = none := by
      cases hentry : e.store.entry? id with
      | none => simp [Store.cancel?, hentry]
      | some x =>
        obtain ⟨hx, hid⟩ := (Store.entry?_eq_some h.store).1 hentry
        rw [hchange x hx hid, RequestRecord.fail?,
          if_pos (hended x.record (List.mem_map_of_mem hx) hid), Option.map_none]
    refine .inl ⟨hended, ?_⟩
    rw [Engine.cancel, hnone]

/-- A record as a command leaves it before the engine goes on. -/
inductive Ready (e : Engine) (c : Command) : RequestRecord → Prop
  | kept {r : RequestRecord} (before : r ∈ e.store.records) : Ready e c r
  | added {r : RequestRecord} (submits : c.submission? = some r.id) (pending : r.state = .pending)
      (fresh : ∀ x ∈ e.store.records, x.id ≠ r.id) : Ready e c r
  | cancelled {r : RequestRecord} (cancels : c = .cancel r.id) (before : r ∈ e.store.records)
      (active : r.state.isTerminal = false) : Ready e c (r.cancelled e.now)

/-- A command other than a stop or a wait, before the engine goes on. -/
structure Readied (e : Engine) (c : Command) (m : Engine) : Prop where
  sound : ∃ log, m.Sound log
  jobs : m.jobs ⊆ e.jobs
  clock : m.clock = e.clock
  startMs : m.startMs = e.startMs
  records : ∀ r ∈ m.store.records, Ready e c r

theorem Ready.running (h : Ready e c r) (hr : r.state = .running) : r ∈ e.store.records := by
  cases h with
  | kept before => exact before
  | added _ pending _ =>
    rw [hr] at pending
    cases pending
  | cancelled _ _ _ => cases hr

theorem Ready.pending (h : Ready e c r) (hr : r.state = .pending) :
    r ∈ e.store.records ∨ ∀ x ∈ e.store.records, x.id ≠ r.id := by
  cases h with
  | kept before => exact .inl before
  | added _ _ fresh => exact .inr fresh
  | cancelled _ _ _ => cases hr

theorem readied_of_eq (hm : ∃ log, m.Sound log) (hs : m.store = e.store) (hj : m.jobs ⊆ e.jobs)
    (hc : m.clock = e.clock) (ht : m.startMs = e.startMs) : Readied e c m :=
  ⟨hm, hj, hc, ht, fun _ hr => .kept (hs ▸ hr)⟩

theorem Sound.readied (h : e.Sound log)
    (hfresh : ∀ id, (e.perform c).1.accepted? = some id → id ∉ submitted log)
    (hstop : c ≠ .stop) (hwait : ∀ id maxMs, c ≠ .wait id maxMs) :
    Readied e c (e.perform c).2 := by
  obtain ⟨middle, new, hcarries, -⟩ := h.perform c hfresh
  have hsound : ∃ log, (e.perform c).2.Sound log := ⟨_, hcarries.after hfresh⟩
  cases c with
  | start =>
    obtain ⟨pool, hstart, hjobs⟩ := jobs_start e
    simp only [Engine.perform, hstart] at hsound ⊢
    exact readied_of_eq hsound rfl (fun _ hj => hjobs ▸ hj) rfl rfl
  | stop => exact absurd rfl hstop
  | submit id agent function parameters timeout =>
    cases he : e.enqueue id agent function parameters timeout with
    | ok e' =>
      have hperform : e.perform (.submit id agent function parameters timeout) =
          (.submission (.ok id), e') := by simp [Engine.perform, Engine.submit, he]
      rw [hperform] at hfresh hsound ⊢
      obtain ⟨-, hrecords⟩ := h.enqueued (hfresh id rfl) he
      obtain ⟨-, -, -, rfl⟩ := enqueue_eq_ok he
      refine ⟨hsound, List.Subset.refl _, rfl, rfl, fun r hr => ?_⟩
      rw [hrecords] at hr
      obtain hr | hr := List.mem_append.1 hr
      · exact .kept hr
      · obtain rfl := List.mem_singleton.1 hr
        refine .added rfl rfl fun x hx hid => hfresh id rfl ?_
        exact (show x.id = id from hid) ▸ h.ledger.known x hx
    | error reason =>
      have hperform : e.perform (.submit id agent function parameters timeout) =
          (.submission (.error reason), { e with statistics := e.statistics.recordRejected }) := by
        simp [Engine.perform, Engine.submit, he]
      rw [hperform] at hsound ⊢
      exact readied_of_eq hsound rfl (List.Subset.refl _) rfl rfl
  | cancel id =>
    obtain ⟨-, hcancel⟩ | ⟨x, hx, rfl, hactive, hcancel⟩ := h.cancel_cases id
    · simp only [Engine.perform, hcancel] at hsound ⊢
      exact readied_of_eq hsound rfl (List.Subset.refl _) rfl rfl
    · simp only [Engine.perform, hcancel] at hsound ⊢
      refine ⟨hsound, List.Subset.refl _, rfl, rfl, fun r hr => ?_⟩
      obtain rfl | ⟨hr, -⟩ := mem_records_replace hr
      · exact .cancelled rfl (List.mem_map_of_mem hx) hactive
      · exact .kept hr
  | wait id maxMs => exact absurd rfl (hwait id maxMs)
  | cleanup keep =>
    exact ⟨hsound, List.Subset.refl _, rfl, rfl,
      fun r hr => .kept ((List.filter_sublist.map _).subset hr)⟩
  | setMaxWorkers n =>
    exact readied_of_eq hsound rfl (jobs_setMaxWorkers e n).subset rfl rfl
  | loadFile path content =>
    simp only [Engine.perform] at hsound ⊢
    split at hsound <;> exact readied_of_eq hsound rfl (List.Subset.refl _) rfl rfl
  | receive name =>
    simp only [Engine.perform] at hsound ⊢
    split at hsound <;> exact readied_of_eq hsound rfl (List.Subset.refl _) rfl rfl
  | _ => exact readied_of_eq hsound rfl (List.Subset.refl _) rfl rfl

/-- What has become of a record by the next rest. -/
inductive Comes (c : Command) (m e : Engine) : RequestRecord → Prop
  | fares {r : RequestRecord} (fares : Fares m e r) : Comes c m e r
  | stopped {j : Job} (stops : c = .stop) (origin : Origin m j) (started : j.startedMs ≤ e.clock) :
      Comes c m e (j.record.stopped e.now)

theorem Origin.blank (h : Origin m j) (hm : m.Sound log) :
    j.record.result = none ∧ j.record.error = none := by
  cases h with
  | before _ runs =>
    apply (hm.ledger.proper _ (List.mem_map_of_mem runs.1)).blank
    rw [runs.state]
    rfl
  | since waited pending _ _ _ record _ =>
    rw [record]
    apply (hm.ledger.proper _ waited).blank
    rw [pending]
    rfl

/-- From one rest to the next. -/
structure Leads (e : Engine) (c : Command) (m e' : Engine) : Prop where
  readied : Readied e c m
  later : m.Later e'
  punctual : e'.Punctual
  records : ∀ r ∈ e'.store.records, Comes c m e' r

theorem leads_of_ticks (hm : Readied e c m) (hp : m.Punctual) (ht : Ticks m e') :
    Leads e c m e' := by
  obtain ⟨log, hsound⟩ := hm.sound
  exact ⟨hm, Turns.later (Ticks.turns ht), hp.ticks ht,
    fun r hr => .fares (hsound.fares_ticks hp ht r hr)⟩

theorem drain_ticks (hrest : e.AtRest) (h : e.Sound log) :
    Ticks { e with pool := e.pool.map Pool.retire } e.drain := by
  have hretired := hrest.retire h (Nat.le_add_right e.clock e.shutdownGraceMs)
  obtain ⟨hdrains, hlater⟩ := Drains.run hrest _ _ hretired (Nat.le_refl _)
  unfold Engine.drain
  simp only
  split
  · exact run_ticks _ _ _
  · refine (run_ticks _ _ _).tail ⟨.pass (Nat.le_max_left _ _), fun j hj => ?_⟩
    rw [(hdrains.endOf hrest hj).1]
    have hbeyond := hlater j hj
    exact Nat.max_le.2 ⟨Nat.le_max_left _ _,
      Nat.le_trans (Nat.le_of_lt hbeyond) (Nat.le_max_right _ _)⟩

theorem AtRest.leads_stop (hrest : e.AtRest) (hp : e.Punctual) (h : e.Sound log) :
    ∃ m, Leads e .stop m e.stop := by
  obtain ⟨-, hstop⟩ | ⟨-, statistics, events, hstop⟩ := stop_cases e
  · rw [hstop]
    exact ⟨e, leads_of_ticks (readied_of_eq ⟨log, h⟩ rfl (List.Subset.refl _) rfl rfl) hp .refl⟩
  · have hjobs := jobs_retire e
    have hsound : ({ e with pool := e.pool.map Pool.retire } : Engine).Sound log :=
      ⟨h.store, h.ledger, h.calls.perm hjobs⟩
    have hretired := hrest.punctual (m := { e with pool := e.pool.map Pool.retire }) hp
      hjobs.subset rfl
    have hticks := drain_ticks hrest h
    have hlater := Turns.later (Ticks.turns hticks)
    have hfares := hsound.fares_ticks hretired hticks
    rw [hstop]
    refine ⟨_, readied_of_eq ⟨log, hsound⟩ rfl hjobs.subset rfl rfl,
      ⟨hlater.settings, hlater.clock⟩, (fun j hj => by cases hj), fun r hr => ?_⟩
    obtain ⟨y, hy, rfl⟩ := List.mem_map.1 hr
    obtain ⟨x, hx, rfl⟩ := List.mem_map.1 hy
    obtain ⟨hrun, r, hfails, hx'⟩ | ⟨hwaits, hx'⟩ :=
      Store.failEntry_cases e.drain.now stoppedMessage x
    · obtain ⟨j, hj, hrecord, origin⟩ := (hfares _ (List.mem_map_of_mem hx)).running hrun
      obtain rfl := Option.some.inj ((RequestRecord.fail?_stopped e.drain.now hrun).symm.trans hfails)
      rw [hx', ← hrecord]
      exact .stopped rfl origin (hretired.ticks hticks j hj).started
    · rw [hx']
      exact .fares ((hfares _ (List.mem_map_of_mem hx)).mono hwaits (Nat.le_refl _))

theorem AtRest.leads (hrest : e.AtRest) (hp : e.Punctual) (h : e.Sound log) (c : Command)
    (hfresh : ∀ id, (e.step c).1.accepted? = some id → id ∉ submitted log) :
    ∃ m, Leads e c m (e.step c).2 := by
  by_cases hwait : ∃ id maxMs, c = .wait id maxMs
  · obtain ⟨id, maxMs, rfl⟩ := hwait
    exact ⟨e, leads_of_ticks (readied_of_eq ⟨log, h⟩ rfl (List.Subset.refl _) rfl rfl) hp
      ((wait_ticks e id maxMs).trans (settle_ticks _))⟩
  · by_cases hstop : c = .stop
    · subst hstop
      rw [step_stop]
      exact hrest.leads_stop hp h
    · have hready := h.readied hfresh hstop fun id maxMs hc => hwait ⟨id, maxMs, hc⟩
      exact ⟨_, leads_of_ticks hready (hrest.punctual hp hready.jobs hready.clock) (settle_ticks _)⟩

end Engine

namespace Session

open Engine (Comes Fares Leads Origin Ready)

/-- A request is taken up by a worker during a command: it was submitted before, or with this very
command, and had not begun. -/
structure Begins (s : Session) (k t : Nat) (r : RequestRecord) : Prop where
  submitted : ∃ i ≤ k, ∃ given,
    s.commands[i]? = some (.submit r.id r.agent r.function r.parameters given) ∧
      r.timeout = s.timeoutFor i r.function given
  waited : ∀ r₀, s.record? k r.id = some r₀ → r₀.state = .pending
  since : (s.engine k).clock ≤ t
  reached : t ≤ (s.engine (k + 1)).clock
  startedAt : r.startedAt = some (.ofMillis (s.startMs + t))

/-- What has become, until a resting point, of a request whose agent was called at some time during
some command. -/
inductive Fate (s : Session) (n k t : Nat) (reply : Reply) (r : RequestRecord) : Prop
  /-- The call goes on at a gate that is closed, and has time left. -/
  | goesOn {j : Job} (goesOn : j ∈ (s.engine n).jobs) (record : j.record = r)
      (same : j.reply = reply) (started : j.startedMs = t) (running : r.state = .running)
      (waits : (s.engine n).AtClosedGate j) (early : (s.engine n).clock < t + r.timeout.toNat)
  /-- The call has ended as it was to end, during some command. -/
  | ended {i elapsed : Nat} {ending : Option Ending} (since : k ≤ i) (before : i < n)
      (ends : reply.Ends (s.engine (i + 1)).openGates r.timeout.toNat elapsed ending)
      (later : (s.engine i).clock ≤ t + elapsed)
      (reached : t + elapsed ≤ (s.engine (i + 1)).clock) (reflects : r.Reflects ending)
      (finished : r.finishedAt = some (.ofMillis (s.startMs + (t + elapsed))))
  | cancelled {i : Nat} (since : k < i) (before : i < n)
      (command : s.commands[i]? = some (.cancel r.id))
      (shows : r.Shows .cancelled none (some Engine.cancelledMessage))
  | stopped {i : Nat} (since : k ≤ i) (before : i < n) (command : s.commands[i]? = some .stop)
      (shows : r.Shows .failed none (some Engine.stoppedMessage))

/-- What has become, until a resting point, of a request that was taken up at some time during some
command. It goes by the registry of that time. -/
inductive Outcome (s : Session) (n k t : Nat) (r : RequestRecord) : Prop
  | refused {message : String} (refuses : (s.engine (k + 1)).registry.Refuses r.agent message)
      (shows : r.Shows .failed none (some message))
      (finished : r.finishedAt = some (.ofMillis (s.startMs + t)))
  | called {a : Agent} (found : (s.engine (k + 1)).registry.resolve? r.agent = some a)
      (running : a.running = true) (fate : s.Fate n k t (a.call r.function r.parameters) r)

/-- A request has begun and goes its way. -/
def Proceeds (s : Session) (n : Nat) (r : RequestRecord) : Prop :=
  ∃ k t, k < n ∧ s.Begins k t r ∧ s.Outcome n k t r

/-- The requests that have begun go the ways that their agents dictate. -/
structure Dictated (s : Session) (n : Nat) : Prop where
  proceeds : ∀ id r, s.lastSeen? n id = some r → r.startedAt.isSome → s.Proceeds n r
  text : ∀ id r, s.lastSeen? n id = some r → r.error ≠ some ""
  /-- What a call comes to after its time makes no difference: the engine has given up the call, and
  the record stays as it is. -/
  late : ∀ id r, s.record? n id = some r → r.state = .timeout →
    (∀ j ∈ (s.engine n).jobs, j.record.id ≠ id) ∧ ∀ k, s.lastSeen? (n + k) id = some r

variable {s : Session} {n n' k t : Nat} {c : Command} {j : Job} {r r₀ r' : RequestRecord}
  {reply : Reply} {id : Uuid} {m : Engine} {log : List RequestEvent}

theorem exists_submission (hid : id ∈ s.accepted n) :
    ∃ i < n, ∃ agent function parameters given,
      s.commands[i]? = some (.submit id agent function parameters given) ∧
        id ∈ s.accepted (i + 1) := by
  induction n with
  | zero => cases hid
  | succ n ih =>
    by_cases hbefore : id ∈ s.accepted n
    · obtain ⟨i, hi, hsubmission⟩ := ih hbefore
      exact ⟨i, Nat.lt_succ_of_lt hi, hsubmission⟩
    · obtain ⟨-, -, ha⟩ | ⟨c, hc, -, ha⟩ := s.engine_succ n
      · rw [accepted, ha] at hid
        exact absurd hid hbefore
      · have hnew := hid
        rw [accepted_succ ha] at hnew
        have haccepted := Option.mem_toList.1 ((List.mem_append.1 hnew).resolve_left hbefore)
        have hsubmits := Engine.submission?_of_accepted? haccepted
        cases c with
        | submit id' agent function parameters given =>
          obtain rfl := Option.some.inj hsubmits
          exact ⟨n, Nat.lt_succ_self n, agent, function, parameters, given, hc, hid⟩
        | _ => cases hsubmits

theorem submitted_of_record? (hr : s.record? n id = some r) :
    ∃ i < n, ∃ given, s.commands[i]? = some (.submit r.id r.agent r.function r.parameters given) ∧
      r.timeout = s.timeoutFor i r.function given := by
  obtain ⟨log, h⟩ := s.history n
  obtain ⟨i, hi, agent, function, parameters, given, hc, hid⟩ := exists_submission (h.known hr)
  obtain ⟨r₁, hr₁, hnew⟩ := becomes_of_submit hc hid
  obtain ⟨k, rfl⟩ := Nat.exists_eq_add_of_le hi
  obtain ⟨r₂, hr₂, hlater⟩ := s.record?_add (i + 1) k hid r hr
  obtain rfl := Option.some.inj (hr₁.symm.trans hr₂)
  have hbecomes := hnew.trans hlater
  refine ⟨i, hi, given, ?_, ?_⟩
  · rw [hbecomes.id, hbecomes.agent, hbecomes.function, hbecomes.parameters]
    exact hc
  · rw [hbecomes.timeout, hbecomes.function]
    rfl

theorem leads_of_punctual (hp : (s.engine n).Punctual) (hc : s.commands[n]? = some c) :
    ∃ m, Leads (s.engine n) c m (s.engine (n + 1)) := by
  obtain ⟨log, h⟩ := s.history n
  obtain ⟨hsound, hlog⟩ := h.sound
  obtain ⟨hnone, -⟩ | ⟨c', hc', he, ha⟩ := s.engine_succ n
  · rw [hc] at hnone
    cases hnone
  · obtain rfl := Option.some.inj (hc.symm.trans hc')
    rw [he]
    exact (s.atRest n).leads hp hsound c (fresh_of_accepted (accepted_succ ha) hlog)

/-- At every resting point the calls are on time, and the clock has begun when it was to begin. -/
theorem timed (s : Session) (n : Nat) :
    (s.engine n).Punctual ∧ (s.engine n).startMs = s.startMs := by
  induction n with
  | zero => exact ⟨(fun j hj => by cases hj), rfl⟩
  | succ n ih =>
    obtain ⟨-, he, -⟩ | ⟨c, hc, -, -⟩ := s.engine_succ n
    · rw [he]
      exact ih
    · obtain ⟨m, hleads⟩ := leads_of_punctual ih.1 hc
      exact ⟨hleads.punctual, hleads.later.startMs.trans (hleads.readied.startMs.trans ih.2)⟩

theorem leads (hc : s.commands[n]? = some c) : ∃ m, Leads (s.engine n) c m (s.engine (n + 1)) :=
  leads_of_punctual (s.timed n).1 hc

theorem proper_of_mem (hr : r ∈ (s.engine n).store.records) : r.Proper := by
  obtain ⟨log, h⟩ := s.history n
  exact h.sound.1.ledger.proper r hr

theorem Begins.becomes (h : s.Begins k t r) (hr : r.Becomes r') : s.Begins k t r' := by
  obtain ⟨hsubmitted, hwaited, hsince, hreached, hstarted⟩ := h
  refine ⟨?_, ?_, hsince, hreached, ?_⟩
  · rw [hr.id, hr.agent, hr.function, hr.parameters, hr.timeout]
    exact hsubmitted
  · rw [hr.id]
    exact hwaited
  · rw [hr.started (by simp [hstarted])]
    exact hstarted

theorem fate_goesOn (hj : j ∈ (s.engine n).jobs) (hrun : j.record.state = .running) :
    s.Fate n k j.startedMs j.reply j.record :=
  .goesOn hj rfl rfl rfl hrun ((s.atRest n).atClosedGate hj) ((s.atRest n).clock_lt hj)

theorem Proceeds.running (h : s.Proceeds n r) (hr : r.state = .running) :
    ∃ k a j, k < n ∧ s.Begins k j.startedMs r ∧
      (s.engine (k + 1)).registry.resolve? r.agent = some a ∧ a.running = true ∧
      j ∈ (s.engine n).jobs ∧ j.record = r ∧ j.reply = a.call r.function r.parameters := by
  obtain ⟨k, t, hk, hbegins, houtcome⟩ := h
  have hnot : ∀ {state result error}, r.Shows state result error → state = .running := by
    intro state result error hshows
    rw [← hshows.state, hr]
  cases houtcome with
  | refused _ shows _ => cases hnot shows
  | called found running fate =>
    cases fate with
    | goesOn goesOn record same started _ _ _ =>
      subst started
      exact ⟨k, _, _, hk, hbegins, found, running, goesOn, record, same⟩
    | ended _ _ _ _ _ reflects _ =>
      have hend := reflects.terminal
      rw [hr] at hend
      cases hend
    | cancelled _ _ _ shows => cases hnot shows
    | stopped _ _ _ shows => cases hnot shows

theorem Proceeds.mono (h : s.Proceeds n r) (hr : r.state ≠ .running) (hn : n ≤ n') :
    s.Proceeds n' r := by
  obtain ⟨k, t, hk, hbegins, houtcome⟩ := h
  refine ⟨k, t, Nat.lt_of_lt_of_le hk hn, hbegins, ?_⟩
  cases houtcome with
  | refused refuses shows finished => exact .refused refuses shows finished
  | called found running fate =>
    refine .called found running ?_
    cases fate with
    | goesOn _ _ _ _ running _ _ => exact absurd running hr
    | ended since before ends later reached reflects finished =>
      exact .ended since (Nat.lt_of_lt_of_le before hn) ends later reached reflects finished
    | cancelled since before command shows =>
      exact .cancelled since (Nat.lt_of_lt_of_le before hn) command shows
    | stopped since before command shows =>
      exact .stopped since (Nat.lt_of_lt_of_le before hn) command shows

/-- A request that waited is taken up during a command. -/
theorem begins_of_waited (h : Leads (s.engine n) c m (s.engine (n + 1)))
    (waited : r₀ ∈ m.store.records) (pending : r₀.state = .pending)
    (hr : r ∈ (s.engine (n + 1)).store.records) (hid : r.id = r₀.id)
    (started : r.startedAt = some (.ofMillis (m.startMs + t))) (since : m.clock ≤ t)
    (reached : t ≤ (s.engine (n + 1)).clock) : s.Begins n t r where
  submitted := by
    obtain ⟨i, hi, hsubmitted⟩ := submitted_of_record? (record?_eq_some.2 ⟨hr, rfl⟩)
    exact ⟨i, Nat.le_of_lt_succ hi, hsubmitted⟩
  waited r₁ hr₁ := by
    obtain ⟨log, hlog⟩ := s.history n
    obtain ⟨hmem, hid₁⟩ := record?_eq_some.1 hr₁
    obtain hkept | hfresh := (h.readied.records r₀ waited).pending pending
    · rw [hlog.sound.1.ledger.eq_of_id hmem hkept (hid₁.trans hid)]
      exact pending
    · exact absurd (hid₁.trans hid) (hfresh r₁ hmem)
  since := h.readied.clock ▸ since
  reached := reached
  startedAt := by rw [started, h.readied.startMs, (s.timed n).2]

theorem called_of_origin (h : Leads (s.engine n) c m (s.engine (n + 1)))
    (before : ∀ r ∈ (s.engine n).store.records, r.startedAt.isSome → s.Proceeds n r)
    (origin : Origin m j) (hr : r ∈ (s.engine (n + 1)).store.records)
    (hbecomes : j.record.Becomes r) (reached : j.startedMs ≤ (s.engine (n + 1)).clock) :
    ∃ k a, k ≤ n ∧ s.Begins k j.startedMs r ∧
      (s.engine (k + 1)).registry.resolve? r.agent = some a ∧ a.running = true ∧
      j.reply = a.call r.function r.parameters := by
  rw [hbecomes.agent, hbecomes.function, hbecomes.parameters]
  cases origin with
  | before goesOn runs =>
    obtain ⟨log, hlog⟩ := s.history n
    have hkept := (h.readied.records _ (List.mem_map_of_mem runs.1)).running runs.2
    have hstarted := (proper_of_mem hkept).started (.inl runs.2)
    obtain ⟨k, a, i, hk, hbegins, found, running, hi, hrecord, hreply⟩ :=
      (before _ hkept hstarted).running runs.2
    obtain rfl := hlog.sound.1.eq_of_running (h.readied.jobs goesOn) hi hkept runs.2
      (by rw [hrecord]; rfl)
    exact ⟨k, a, Nat.le_of_lt hk, hbegins.becomes hbecomes, found, running, hreply⟩
  | @since r₀ a waited pending found running since record reply =>
    have hstarted := hbecomes.started
    rw [record] at hstarted ⊢
    refine ⟨n, a, Nat.le_refl n, ?_, h.later.registry ▸ found, running, reply⟩
    refine begins_of_waited h waited pending hr ?_ (hstarted rfl) since reached
    rw [hbecomes.id, record]
    rfl

theorem proceeds_of_fares (h : Leads (s.engine n) c m (s.engine (n + 1)))
    (hc : s.commands[n]? = some c)
    (before : ∀ r ∈ (s.engine n).store.records, r.startedAt.isSome → s.Proceeds n r)
    (fares : Fares m (s.engine (n + 1)) r) (hr : r ∈ (s.engine (n + 1)).store.records)
    (hstarted : r.startedAt.isSome) : s.Proceeds (n + 1) r := by
  obtain ⟨log, hm⟩ := h.readied.sound
  have hstart : m.startMs = s.startMs := h.readied.startMs.trans (s.timed n).2
  cases fares with
  | rests hmem idle =>
    cases h.readied.records r hmem with
    | kept hkept => exact (before r hkept hstarted).mono idle (Nat.le_succ n)
    | added _ pending _ =>
      rw [(proper_of_mem hr).waits pending] at hstarted
      cases hstarted
    | @cancelled r₀ cancels hkept active =>
      have hproper := proper_of_mem hkept
      have hrun : r₀.state = .running := by
        refine (RequestState.pending_or_running active).resolve_left fun hpending => ?_
        rw [show (r₀.cancelled _).startedAt = r₀.startedAt from rfl, hproper.waits hpending]
          at hstarted
        cases hstarted
      obtain ⟨k, a, j, hk, hbegins, found, running, -, -, -⟩ :=
        (before r₀ hkept hstarted).running hrun
      have ends : r₀.Ends (r₀.cancelled (s.engine n).now) :=
        .fail (.inr rfl) (RequestRecord.fail?_cancelled _ active)
      refine ⟨k, j.startedMs, Nat.lt_succ_of_lt hk, hbegins.becomes ends.becomes,
        .called found running (.cancelled hk (Nat.lt_succ_self n) (cancels ▸ hc) ?_)⟩
      exact ⟨rfl, (hproper.blank active).1, rfl⟩
  | @refused r₀ time message waited pending since reached refuses =>
    have hblank := (hm.ledger.proper r₀ waited).blank (by rw [pending]; rfl)
    refine ⟨n, time, Nat.lt_succ_self n, begins_of_waited h waited pending hr rfl rfl since reached,
      .refused (h.later.registry ▸ refuses) ⟨rfl, hblank.1, rfl⟩ ?_⟩
    rw [hstart]
    rfl
  | @call j _ origin settled =>
    have hrun := origin.running
    cases settled with
    | goesOn goesOn =>
      obtain ⟨k, a, hk, hbegins, found, running, hreply⟩ := called_of_origin h before origin hr
        (.refl _) ((s.timed (n + 1)).1 j goesOn).started
      exact ⟨k, j.startedMs, Nat.lt_succ_of_le hk, hbegins, .called found running
        (hreply ▸ fate_goesOn goesOn hrun)⟩
    | @ended elapsed ending since reached ends =>
      have hbecomes := (RequestRecord.ends_concluded hrun
        (.ofMillis (m.startMs + (j.startedMs + elapsed))) ending).becomes
      obtain ⟨k, a, hk, hbegins, found, running, hreply⟩ := called_of_origin h before origin hr
        hbecomes (Nat.le_trans (Nat.le_add_right _ _) reached)
      refine ⟨k, j.startedMs, Nat.lt_succ_of_le hk, hbegins, .called found running
        (.ended hk (Nat.lt_succ_self n) ?_ (h.readied.clock ▸ since) reached
          (RequestRecord.reflects_concluded (origin.blank hm) _ ending) ?_)⟩
      · rw [hbecomes.timeout, ← hreply, h.later.openGates]
        exact ends
      · rw [hstart, RequestRecord.finishedAt_concluded]

/-- Every request that has begun goes its way. -/
theorem proceeds (s : Session) (n : Nat) :
    ∀ r ∈ (s.engine n).store.records, r.startedAt.isSome → s.Proceeds n r := by
  induction n with
  | zero => exact fun r hr => by cases hr
  | succ n ih =>
    intro r hr hstarted
    obtain ⟨-, he, -⟩ | ⟨c, hc, -, -⟩ := s.engine_succ n
    · rw [he] at hr
      by_cases hrun : r.state = .running
      · obtain ⟨k, a, j, hk, hbegins, found, running, hj, rfl, hreply⟩ :=
          (ih r hr hstarted).running hrun
        rw [← he] at hj
        exact ⟨k, j.startedMs, Nat.lt_succ_of_lt hk, hbegins, .called found running
          (hreply ▸ fate_goesOn hj hrun)⟩
      · exact (ih r hr hstarted).mono hrun (Nat.le_succ n)
    · obtain ⟨m, h⟩ := leads hc
      obtain ⟨log, hm⟩ := h.readied.sound
      cases h.records r hr with
      | fares fares => exact proceeds_of_fares h hc ih fares hr hstarted
      | @stopped j stops origin started =>
        subst stops
        have hbecomes : j.record.Becomes (j.record.stopped (s.engine (n + 1)).now) :=
          (RequestRecord.Ends.fail (.inl origin.running)
            (RequestRecord.fail?_stopped _ origin.running)).becomes
        obtain ⟨k, a, hk, hbegins, found, running, hreply⟩ :=
          called_of_origin h ih origin hr hbecomes started
        exact ⟨k, j.startedMs, Nat.lt_succ_of_le hk, hbegins, .called found running
          (.stopped hk (Nat.lt_succ_self n) hc ⟨rfl, (origin.blank hm).1, rfl⟩)⟩

theorem exists_record?_of_lastSeen? (h : s.lastSeen? n id = some r) :
    ∃ m ≤ n, s.record? m id = some r := by
  induction n with
  | zero => exact ⟨0, Nat.le_refl 0, h⟩
  | succ n ih =>
    cases hr : s.record? (n + 1) id with
    | some r' =>
      rw [lastSeen?_of_record? hr] at h
      exact ⟨n + 1, Nat.le_refl _, hr.trans h⟩
    | none =>
      rw [lastSeen?_succ_of_none hr] at h
      obtain ⟨m, hm, hseen⟩ := ih h
      exact ⟨m, Nat.le_succ_of_le hm, hseen⟩

theorem outcome_follows_agent (s : Session) (n : Nat) : s.Dictated n := by
  refine ⟨?_, ?_, ?_⟩
  · intro id r hr hstarted
    obtain hnow | hended := lastSeen?_eq_some hr
    · exact s.proceeds n r (record?_eq_some.1 hnow).1 hstarted
    · obtain ⟨m, hm, hseen⟩ := exists_record?_of_lastSeen? hr
      refine (s.proceeds m r (record?_eq_some.1 hseen).1 hstarted).mono (fun hrun => ?_) hm
      rw [hrun] at hended
      cases hended
  · intro id r hr
    obtain ⟨m, -, hseen⟩ := exists_record?_of_lastSeen? hr
    exact (proper_of_mem (record?_eq_some.1 hseen).1).text
  · intro id r hr hlate
    refine ⟨fun j hj hid => ?_, lastSeen?_add hr (by rw [hlate]; rfl)⟩
    obtain ⟨log, h⟩ := s.history n
    obtain ⟨hmem, hid'⟩ := record?_eq_some.1 hr
    obtain hruns | habandoned := h.sound.1.calls.each j hj
    · have hsame := h.sound.1.ledger.eq_of_id (List.mem_map_of_mem hruns.1) hmem
        (hid.trans hid'.symm)
      have hrun := hruns.2
      rw [show j.record = r from hsame, hlate] at hrun
      cases hrun
    · have hcancelled := habandoned.cancelled r hmem (hid'.trans hid.symm)
      rw [hlate] at hcancelled
      cases hcancelled

/-- While a worker is held up, an agent is forgotten to which a request was submitted. -/
def reconsidered : Session where
  registry := (Registry.empty.register .nil (.plain "a" fun _ _ => .atGate "g" false .null)).register
    (.ofNat 1) (.plain "b" fun _ _ => .value .null)
  config := ⟨1, 10, 60000, 100, 8⟩
  startMs := 0
  commands := [.start, .submit (.ofNat 1) "a" "f" .null none,
    .submit (.ofNat 2) "b" "f" .null none, .forget "b", .openGate "g"]
  fresh := by decide

example : (reconsidered.record? 5 (.ofNat 2)).map (·.error) = some (some "Agent not found: b") := by
  decide +kernel

end Session

end RequestEngine
