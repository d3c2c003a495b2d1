import Mathlib.Logic.Relation
import RequestEngine.Engine.Running
import RequestEngine.Proofs.Calls

/-! What an engine does by itself: a call ends, a request is dispatched, or time passes. Each of
these keeps the store, the ledger and the calls in agreement. -/
namespace RequestEngine

open Ledger (submitted started Tells)

namespace Pool

variable {p : Pool} {j : Job}

theorem jobs_finish (hn : (p.jobs.map (·.token)).Nodup) :
    (p.finish j).jobs = Calls.others j p.jobs := by
  rw [jobs, List.map_append, List.nodup_append] at hn
  have keep : ∀ {l : List Job}, (∀ k ∈ l, k.token ≠ j.token) → Calls.others j l = l :=
    fun h => List.filter_eq_self.2 fun k hk => by simpa using h k hk
  unfold finish
  split
  · rename_i hbusy
    obtain ⟨k, hk, hkj⟩ := List.any_eq_true.1 hbusy
    have hretired : Calls.others j p.retired = p.retired := by
      refine keep fun k' hk' heq => ?_
      exact hn.2.2 k.token (List.mem_map_of_mem hk) k'.token (List.mem_map_of_mem hk')
        ((of_decide_eq_true hkj).trans heq.symm)
    simp only [jobs, Calls.others, List.filter_append]
    rw [show p.retired.filter (·.token ≠ j.token) = p.retired from hretired]
  · rename_i hbusy
    have hbusy' : Calls.others j p.busy = p.busy :=
      keep fun k hk heq => hbusy (List.any_eq_true.2 ⟨k, hk, by simpa using heq⟩)
    simp only [jobs, Calls.others, List.filter_append]
    rw [show p.busy.filter (·.token ≠ j.token) = p.busy from hbusy']

theorem jobs_assign (p : Pool) (j : Job) : (p.assign j).jobs.Perm (j :: p.jobs) := by
  simp only [assign, jobs, List.append_assoc, List.singleton_append]
  exact List.perm_middle

theorem jobs_retire (p : Pool) : p.retire.jobs.Perm p.jobs := by
  simpa [retire, jobs] using List.perm_append_comm

end Pool

namespace Engine

/-- The store, the ledger and the calls agree with each other and with a history. -/
structure Sound (log : List RequestEvent) (e : Engine) : Prop where
  store : e.store.Sound
  ledger : e.ledger.Sound log
  calls : Calls log e.store e.jobs

/-- One engine comes from another through some entries in the ledger. -/
structure Proceeds (log new : List RequestEvent) (e e' : Engine) : Prop where
  tells : Tells e.ledger new e'.ledger
  store : e'.store.Sound
  calls : Calls (log ++ new) e'.store e'.jobs

/-- One engine comes from another by itself: nothing is submitted, and requests are taken from the
front of the queue in the order in which they begin. -/
structure Works (log new : List RequestEvent) (e e' : Engine) : Prop where
  proceeds : Proceeds log new e e'
  none : submitted new = []
  served : e.queue.items = started new ++ e'.queue.items

/-- What happens by itself. -/
inductive Turn : Engine → Engine → Prop
  | finish {e : Engine} {j : Job} (goesOn : j ∈ e.jobs) (due : e.endOf j ≤ e.clock) :
      Turn e (e.finish j)
  | dispatch {e e' : Engine} (h : e.dispatch? = some e') : Turn e e'
  | pass {e : Engine} {time : Nat} (later : e.clock ≤ time) : Turn e { e with clock := time }

def Turns : Engine → Engine → Prop := Relation.ReflTransGen Turn

variable {e e' e'' : Engine} {log new new' : List RequestEvent} {x : Entry} {j : Job}

theorem Proceeds.sound (h : Proceeds log new e e') (he : e.Sound log)
    (hfresh : (submitted (log ++ new)).Nodup) : e'.Sound (log ++ new) :=
  ⟨h.store, h.tells.sound he.ledger hfresh, h.calls⟩

theorem Proceeds.trans (h : Proceeds log new e e') (h' : Proceeds (log ++ new) new' e' e'') :
    Proceeds log (new ++ new') e e'' :=
  ⟨h.tells.append h'.tells, h'.store, by rw [← List.append_assoc]; exact h'.calls⟩

theorem Sound.stays (h : e.Sound log) (hl : e'.ledger = e.ledger) (hs : e'.store = e.store)
    (hj : e'.jobs.Perm e.jobs) : Proceeds log [] e e' := by
  refine ⟨hl ▸ .nil, hs ▸ h.store, ?_⟩
  rw [List.append_nil, hs]
  exact h.calls.perm hj

theorem Sound.fresh_append (h : e.Sound log) (hnew : submitted new = []) :
    (submitted (log ++ new)).Nodup := by
  rw [Ledger.submitted_append, hnew, List.append_nil]
  exact h.ledger.fresh

theorem Works.sound (h : Works log new e e') (he : e.Sound log) : e'.Sound (log ++ new) :=
  h.proceeds.sound he (he.fresh_append h.none)

theorem Works.trans (h : Works log new e e') (h' : Works (log ++ new) new' e' e'') :
    Works log (new ++ new') e e'' where
  proceeds := h.proceeds.trans h'.proceeds
  none := by simp [h.none, h'.none]
  served := by simp [h.served, h'.served]

/-- Nothing is entered in the ledger, and the queue stays as it is. -/
theorem Sound.works (h : e.Sound log) (hl : e'.ledger = e.ledger) (hs : e'.store = e.store)
    (hj : e'.jobs.Perm e.jobs) : Works log [] e e' :=
  ⟨h.stays hl hs hj, rfl, (congrArg Ledger.waiting hl).symm⟩

theorem Calls.append {s : Store} {jobs : List Job} (h : Calls log s jobs)
    (new : List RequestEvent) : Calls (log ++ new) s jobs :=
  h.mono (by rw [Ledger.submitted_append]; exact List.subset_append_left _ _)

theorem jobs_of_pool {p : Pool} (h : e.pool = some p) : e.jobs = p.jobs := by
  simp [jobs, h]

theorem jobs_of_stopped (h : e.pool = none) : e.jobs = [] := by simp [jobs, h]

theorem exists_pool (hj : j ∈ e.jobs) : ∃ p, e.pool = some p := by
  cases hp : e.pool with
  | some p => exact ⟨p, rfl⟩
  | none =>
    rw [jobs_of_stopped hp] at hj
    cases hj

theorem isCancelled_iff : e.isCancelled j = true ↔ j.token ∈ e.store.cancelled := by
  simp [isCancelled, Store.isCancelled]

/-- A request that has ended has an entry of its own in the ledger. -/
theorem report_step (hs : e.store.Sound) (hx : x ∈ e.store.entries) {r : RequestRecord}
    (ends : x.record.Ends r) (hw : x.record.id ∉ e.queue.items) :
    Ledger.Step e.ledger
      (.finished r.id r.state r.error (r.executionMs.getD 0) e.now)
      (e.report (some (r, e.store.replace r))).ledger := by
  refine .finish e.now ends ?_ ?_ rfl rfl
  · exact (Store.swapped_replace hs hx ends.becomes.id).map (·.record)
  · exact (List.erase_of_not_mem hw).symm

theorem complete_eq (hs : e.store.Sound) (hx : x ∈ e.store.entries)
    (hrun : x.record.state = .running) (v : Json) :
    ∃ r, x.record.complete? e.now v = some r ∧
      e.complete x.record.id v = e.report (some (r, e.store.replace r)) := by
  have hc : ∃ r, x.record.complete? e.now v = some r := by
    simp [RequestRecord.complete?, hrun]
  obtain ⟨r, hr⟩ := hc
  refine ⟨r, hr, ?_⟩
  rw [complete, Store.complete?, Store.change?_eq_some hs hx (f := (·.complete? e.now v)) hr]

theorem fail_eq (hs : e.store.Sound) (hx : x ∈ e.store.entries)
    (hrun : x.record.state = .running) (kind : FailureKind) (message : String) :
    ∃ r, x.record.fail? e.now kind message = some r ∧
      e.fail x.record.id kind message = e.report (some (r, e.store.replace r)) := by
  have hf : ∃ r, x.record.fail? e.now kind message = some r := by
    simp [RequestRecord.fail?, hrun]
  obtain ⟨r, hr⟩ := hf
  refine ⟨r, hr, ?_⟩
  rw [fail, Store.fail?, Store.change?_eq_some hs hx (f := (·.fail? e.now kind message)) hr]

/-- The end of a call ends its request, unless that was cancelled. -/
theorem conclude_cases (hs : e.store.Sound) (hj : j.Runs e.store ∨ j.Abandoned log e.store) :
    (j.token ∈ e.store.cancelled ∧ e.conclude j = e) ∨
    (j.Runs e.store ∧ ∃ r, j.record.Ends r ∧
      e.conclude j = e.report (some (r, e.store.replace r))) := by
  by_cases hc : e.isCancelled j
  · exact .inl ⟨isCancelled_iff.1 hc, by simp [conclude, hc]⟩
  · have hruns : j.Runs e.store := hj.resolve_right fun hab => hc (isCancelled_iff.2 hab.token)
    obtain ⟨hx, hrun⟩ := hruns
    refine .inr ⟨⟨hx, hrun⟩, ?_⟩
    have hfail : ∀ kind message, ∃ r, j.record.Ends r ∧
        e.fail j.record.id kind message = e.report (some (r, e.store.replace r)) := by
      intro kind message
      obtain ⟨r, hr, he⟩ := fail_eq hs hx hrun kind message
      exact ⟨r, .fail (.inl hrun) hr, he⟩
    simp only [conclude, if_neg hc]
    split
    · rename_i v _
      obtain ⟨r, hr, he⟩ := complete_eq hs hx hrun v
      exact ⟨r, .complete hrun hr, he⟩
    · exact hfail _ _
    · exact hfail _ _
    · exact hfail _ _

theorem Sound.not_waiting_of_runs (h : e.Sound log) (hruns : j.Runs e.store) :
    j.entry.record.id ∉ e.queue.items := by
  refine h.ledger.not_waiting (List.mem_map_of_mem hruns.1) ?_
  rw [hruns.state]
  exact RequestState.noConfusion

theorem Sound.jobs_finish (h : e.Sound log) (hj : j ∈ e.jobs) :
    ({ e with pool := e.pool.map (·.finish j) } : Engine).jobs = Calls.others j e.jobs := by
  obtain ⟨p, hp⟩ := exists_pool hj
  have htokens := h.calls.tokens
  rw [jobs_of_pool hp] at htokens ⊢
  rw [jobs_of_pool (p := p.finish j) (by simp [hp])]
  exact Pool.jobs_finish htokens

theorem Sound.finish (h : e.Sound log) (hj : j ∈ e.jobs) :
    ∃ new, Works log new e (e.finish j) := by
  have hjobs := h.jobs_finish hj
  rw [Engine.finish]
  obtain ⟨hc, he⟩ | ⟨hruns, r, ends, he⟩ :=
    conclude_cases (e := { e with pool := e.pool.map (·.finish j) }) h.store (h.calls.each j hj)
  · rw [he]
    refine ⟨[], ⟨.nil, h.store, ?_⟩, rfl, rfl⟩
    rw [hjobs, List.append_nil]
    exact h.calls.drop h.store hc
  · rw [he]
    have hw := h.not_waiting_of_runs hruns
    have hcalls := h.calls.finish h.store hj hruns ends
    rw [← hjobs] at hcalls
    exact ⟨_, ⟨(report_step (e := { e with pool := e.pool.map (·.finish j) }) h.store hruns.1
      ends hw).tells, h.store.replace hruns.1 ends.becomes.id fun _ => ends.terminal,
      Calls.append hcalls _⟩, rfl, rfl⟩

/-- The request at the front of the queue has begun to run. -/
def begun (e : Engine) (id : Uuid) (worker : Nat) (queue : WorkQueue) (store : Store)
    (pool : Pool) : Engine :=
  { e with
    queue := queue
    store := store
    events := e.events.emit (.started id worker e.now)
    pool := some pool }

/-- What becomes of the request at the front of the queue when a worker takes it. -/
inductive Dispatched (e : Engine) (p : Pool) (w : Nat) (id : Uuid) (queue : WorkQueue) :
    Engine → Prop
  | stale (h : e.store.begin? e.now id = none) : Dispatched e p w id queue { e with queue := queue }
  | called {r : RequestRecord} {token : Token} {store : Store} {a : Agent}
      (begins : e.store.begin? e.now id = some (r, token, store))
      (found : e.registry.resolve? r.agent = some a) (running : a.running = true) :
      Dispatched e p w id queue (e.begun id w queue store
        (p.assign ⟨w, r, token, a.call r.function r.parameters, e.clock⟩))
  | unknown {r : RequestRecord} {token : Token} {store : Store}
      (begins : e.store.begin? e.now id = some (r, token, store))
      (missing : e.registry.resolve? r.agent = none) :
      Dispatched e p w id queue ((e.begun id w queue store p.rotate).fail id .failed
        ("Agent not found: " ++ r.agent))
  | resting {r : RequestRecord} {token : Token} {store : Store} {a : Agent}
      (begins : e.store.begin? e.now id = some (r, token, store))
      (found : e.registry.resolve? r.agent = some a) (rests : a.running = false) :
      Dispatched e p w id queue ((e.begun id w queue store p.rotate).fail id .failed
        ("Agent " ++ r.agent ++ " is not running"))

theorem dispatch?_eq_some (h : e.dispatch? = some e') :
    ∃ p w id queue, e.pool = some p ∧ p.idle.head? = some w ∧
      e.queue.pop? = some (id, queue) ∧ Dispatched e p w id queue e' := by
  obtain ⟨p, hp, h⟩ := Option.bind_eq_some_iff.1 h
  obtain ⟨w, hw, h⟩ := Option.bind_eq_some_iff.1 h
  obtain ⟨⟨id, queue⟩, hq, h⟩ := Option.bind_eq_some_iff.1 h
  refine ⟨p, w, id, queue, hp, hw, hq, ?_⟩
  dsimp only at h
  split at h
  · rw [← Option.some.inj h]
    exact .stale ‹_›
  · split at h
    · rw [← Option.some.inj h]
      exact .unknown ‹_› ‹_›
    · split at h
      · rw [← Option.some.inj h]
        exact .called ‹_› ‹_› ‹_›
      · rename_i hn
        rw [← Option.some.inj h]
        exact .resting ‹_› ‹_› (by simpa using hn)

theorem Sound.front (h : e.Sound log) {id : Uuid} {rest : List Uuid}
    (hq : e.queue.items = id :: rest) :
    ∃ x ∈ e.store.entries, x.record.id = id ∧ x.record.state = .pending ∧ id ∉ rest := by
  have hn := h.ledger.waiting_nodup
  rw [show e.ledger.waiting = id :: rest from hq] at hn
  obtain ⟨r, hr, hid, hp⟩ :=
    (h.ledger.waiting id).1 (by rw [show e.ledger.waiting = id :: rest from hq]; simp)
  obtain ⟨x, hx, rfl⟩ := List.mem_map.1 hr
  exact ⟨x, hx, hid, hp, (List.nodup_cons.1 hn).1⟩

/-- The request at the front of the queue begins to run, with a call or, for the moment, without. -/
theorem Sound.begin (h : e.Sound log) {queue : WorkQueue} (w : Nat) (hx : x ∈ e.store.entries)
    (hp : x.record.state = .pending) (hq : e.queue.items = x.record.id :: queue.items)
    {r : RequestRecord} (begins : x.record.begin? e.now = some r) :
    (∀ pool, Ledger.Step e.ledger (.started x.record.id w e.now)
      (e.begun x.record.id w queue (e.store.replace r) pool).ledger) ∧
    (e.store.replace r).Sound ∧
    ∀ j : Job, j.record = r → j.token = x.token → Calls log (e.store.replace r) (j :: e.jobs) := by
  obtain ⟨-, hr⟩ := RequestRecord.begin?_eq_some begins
  have hid : r.id = x.record.id := by rw [hr]
  refine ⟨fun _ => ?_, ?_, ?_⟩
  · exact .start w begins ((Store.swapped_replace h.store hx hid).map (·.record)) hq rfl rfl
  · exact h.store.replace hx hid fun ht => by rw [hp] at ht; cases ht
  · exact fun j hj ht => h.calls.start h.store hx hp hid (by rw [hr]) ⟨hj, ht⟩

theorem pop?_eq_some {q q' : WorkQueue} {id : Uuid} (h : q.pop? = some (id, q')) :
    q.items = id :: q'.items := by
  unfold WorkQueue.pop? at h
  split at h
  · cases h
  · obtain ⟨rfl, rfl⟩ := Prod.mk.inj (Option.some.inj h)
    assumption

theorem Sound.dispatch (h : e.Sound log) (hd : e.dispatch? = some e') :
    ∃ new, Works log new e e' := by
  obtain ⟨p, w, id, queue, hpool, -, hpop, hcases⟩ := dispatch?_eq_some hd
  have hq := pop?_eq_some hpop
  obtain ⟨x, hx, rfl, hpending, hnot⟩ := h.front hq
  obtain ⟨r, begins⟩ : ∃ r, x.record.begin? e.now = some r := by
    simp [RequestRecord.begin?, hpending]
  have hbegin := Store.begin?_eq_some h.store hx begins
  obtain ⟨hstep, hstore, hcalls⟩ := h.begin w hx hpending hq begins
  have hjobs := jobs_of_pool hpool
  have hfail : ∀ message, ∃ new, Works log new e
      ((e.begun x.record.id w queue (e.store.replace r) p.rotate).fail x.record.id .failed
        message) := by
    intro message
    have hr := (RequestRecord.begin?_eq_some begins).2
    have hid : r.id = x.record.id := by rw [hr]
    have hrun : r.state = .running := by rw [hr]
    let j : Job := ⟨w, r, x.token, .unknownFunction "", e.clock⟩
    have hc := hcalls j rfl rfl
    have hruns : j.Runs (e.store.replace r) :=
      ⟨(Store.mem_replace h.store hx hid).2 (.inl rfl), hrun⟩
    obtain ⟨r', hr', he⟩ := fail_eq
      (e := e.begun x.record.id w queue (e.store.replace r) p.rotate) hstore hruns.1 hrun .failed
      message
    have ends : r.Ends r' := .fail (.inl hrun) hr'
    rw [show j.entry.record.id = x.record.id from hid] at he
    rw [he]
    refine ⟨_, ⟨.cons (hstep _) (report_step hstore hruns.1 ends ?_).tells, ?_, ?_⟩, rfl, hq⟩
    · exact fun hmem => hnot (hid ▸ hmem)
    · exact hstore.replace hruns.1 ends.becomes.id fun _ => ends.terminal
    · have hover := hc.finish hstore List.mem_cons_self hruns ends
      rw [Calls.others_cons hc.tokens, hjobs] at hover
      exact Calls.append hover _
  cases hcases with
  | stale hnone => rw [hbegin] at hnone; cases hnone
  | @called _ _ _ a hsome _ _ =>
    obtain ⟨rfl, rfl, rfl⟩ : _ ∧ _ ∧ _ := by simpa [hbegin] using hsome
    refine ⟨_, ⟨(hstep _).tells, hstore, ?_⟩, rfl, hq⟩
    have hcall := hcalls ⟨w, r, x.token, a.call r.function r.parameters, e.clock⟩ rfl rfl
    rw [hjobs] at hcall
    exact Calls.append (hcall.perm (Pool.jobs_assign p _)) _
  | unknown hsome _ =>
    obtain ⟨rfl, rfl, rfl⟩ : _ ∧ _ ∧ _ := by simpa [hbegin] using hsome
    exact hfail _
  | resting hsome _ _ =>
    obtain ⟨rfl, rfl, rfl⟩ : _ ∧ _ ∧ _ := by simpa [hbegin] using hsome
    exact hfail _

theorem Sound.turn (h : e.Sound log) (ht : Turn e e') : ∃ new, Works log new e e' := by
  cases ht with
  | finish goesOn _ => exact h.finish goesOn
  | dispatch hd => exact h.dispatch hd
  | pass _ => exact ⟨[], h.works rfl rfl (.refl _)⟩

theorem Sound.turns (h : e.Sound log) (ht : Turns e e') : ∃ new, Works log new e e' := by
  induction ht with
  | refl => exact ⟨[], h.works rfl rfl (.refl _)⟩
  | tail _ turn ih =>
    obtain ⟨new, hw⟩ := ih
    obtain ⟨new', hw'⟩ := (hw.sound h).turn turn
    exact ⟨new ++ new', hw.trans hw'⟩

end Engine

end RequestEngine
