import RequestEngine.Proofs.Outcomes
import RequestEngine.Proofs.Undisturbed
import RequestEngine.Proofs.Waiting

/-! Cancellations. A request that waits leaves the queue, and nothing else happens. The call of one
that runs is dropped, so that its worker takes up the next request, unless the call blocks; and
however such a call ends, nobody hears of it. -/
namespace RequestEngine

open Ledger (submitted)

namespace Pool

variable {p : Pool} {j : Job}

theorem finish_of_busy (hj : j ∈ p.busy) : (p.finish j).idle = p.idle ++ [j.worker] := by
  have hany : p.busy.any (·.token = j.token) = true :=
    List.any_eq_true.2 ⟨j, hj, by simp⟩
  rw [finish, if_pos hany]

theorem finish_of_retired (hn : (p.jobs.map (·.token)).Nodup) (hj : j ∈ p.jobs)
    (hb : j ∉ p.busy) : (p.finish j).idle = p.idle := by
  have hany : ¬ p.busy.any (·.token = j.token) = true := by
    rw [List.any_eq_true]
    rintro ⟨k, hk, htoken⟩
    have hsame := List.inj_on_of_nodup_map hn (List.mem_append_left _ hk) hj (of_decide_eq_true htoken)
    exact hb (hsame ▸ hk)
  rw [finish, if_neg hany]

theorem Staffed.apart {n : Nat} (h : p.Staffed n) (hj : j ∈ p.busy) :
    j.worker ∉ p.idle ∧ ∀ i ∈ p.busy, i.worker = j.worker → i = j := by
  have hnodup : (p.idle ++ p.busy.map (·.worker)).Nodup := h.nodup_iff.2 List.nodup_range
  obtain ⟨-, hbusy, happart⟩ := List.nodup_append.1 hnodup
  refine ⟨fun hidle => happart _ hidle _ (List.mem_map_of_mem hj) rfl, fun i hi hworker => ?_⟩
  exact List.inj_on_of_nodup_map hbusy hi hj hworker

end Pool

namespace Engine

variable {e e' : Engine} {log : List RequestEvent} {x : Entry} {j k : Job} {p : Pool} {c : Command}
  {gate : String} {v : Json} {id : Uuid} {queue : List Uuid}

theorem atRest_of (hdispatch : e.dispatch? = none) (hlater : ∀ j ∈ e.jobs, e.clock < e.endOf j)
    (hidle : ∀ j ∈ e.jobs, e.isRestless j = false) : e.AtRest := by
  have hpatient : e.jobs.any e.isRestless = false := by
    rw [List.any_eq_false]
    exact fun j hj => by simp [hidle j hj]
  unfold AtRest step?
  cases hfirst : e.firstToEnd? with
  | none => exact hdispatch
  | some j =>
    have hdue := hlater j (firstToEnd?_eq_some hfirst).1
    simp only [if_neg (Nat.not_le.2 hdue), hdispatch, hpatient, Bool.false_eq_true, if_false]

theorem settle_of_step? (h : e.step? (fun _ => e.jobs.any e.isRestless) = some e') :
    e.settle = e'.settle := by
  have hless := work_step? h
  obtain ⟨room, hroom⟩ : ∃ room, e.work = room + 1 := ⟨e.work - 1, by omega⟩
  rw [settle, hroom, run, h]
  exact run_eq_of_work_le _ _ _ (by omega)

theorem step?_of_dispatch? (hlater : ∀ j ∈ e.jobs, e.clock < e.endOf j)
    (h : e.dispatch? = some e') (patient : Nat → Bool) : e.step? patient = some e' := by
  unfold step?
  cases hfirst : e.firstToEnd? with
  | none => exact h
  | some j =>
    have hdue := hlater j (firstToEnd?_eq_some hfirst).1
    simp only [if_neg (Nat.not_le.2 hdue), h]

theorem step?_of_due (hj : j ∈ e.jobs) (hdue : e.endOf j ≤ e.clock)
    (hothers : ∀ k ∈ e.jobs, k ≠ j → e.clock < e.endOf k) (patient : Nat → Bool) :
    e.step? patient = some (e.finish j) := by
  unfold step?
  cases hfirst : e.firstToEnd? with
  | none =>
    rw [firstToEnd?_eq_none.1 hfirst] at hj
    cases hj
  | some k =>
    obtain ⟨hk, hleast⟩ := firstToEnd?_eq_some hfirst
    have hle := hleast j hj
    have hkj : k = j := by
      by_contra hne
      have hlt := hothers k hk hne
      omega
    subst hkj
    simp only [if_pos hdue]

theorem queue_dispatch (h : e.dispatch? = some e') : ∃ id, e.queue.items = id :: e'.queue.items := by
  obtain ⟨p, w, id, queue, -, -, hpop, hcases⟩ := dispatch?_eq_some h
  refine ⟨id, (pop?_eq_some hpop).trans ?_⟩
  have hfail : ∀ {d : Engine} {message : String}, (d.fail id .failed message).queue = d.queue := by
    intro d message
    obtain ⟨_, _, _, hframe⟩ := fail_frame d id .failed message
    rw [hframe]
  cases hcases with
  | stale _ => rfl
  | called _ _ _ => rfl
  | unknown _ _ => rw [hfail]; rfl
  | resting _ _ _ => rw [hfail]; rfl

theorem isCancelled_revoked :
    (e.revoked x).isCancelled j ↔ j.token = x.token ∨ e.isCancelled j := by
  rw [isCancelled_iff, isCancelled_iff]
  exact List.mem_cons

theorem Sound.isCancelled_other (h : e.Sound log) (hx : x ∈ e.store.entries)
    (hactive : x.record.state.isTerminal = false) (hj : j ∈ e.jobs) (hne : j.entry ≠ x) :
    (e.revoked x).isCancelled j = e.isCancelled j := by
  have htoken := Job.token_ne h.store (h.calls.each j hj) hx hactive hne
  rw [Bool.eq_iff_iff, isCancelled_revoked]
  exact ⟨fun hc => hc.resolve_left htoken, .inr⟩

theorem endOf_revoked (h : (e.revoked x).isCancelled j = e.isCancelled j) :
    (e.revoked x).endOf j = e.endOf j := by
  unfold endOf
  rw [h]
  rfl

theorem isRestless_revoked (h : (e.revoked x).isCancelled j = e.isCancelled j) :
    (e.revoked x).isRestless j = e.isRestless j := by
  unfold isRestless
  rw [h]

theorem Sound.cancel_eq (h : e.Sound log) (hx : x ∈ e.store.entries)
    (hactive : x.record.state.isTerminal = false) :
    e.cancel x.record.id = (true, e.revoked x) := by
  obtain ⟨hended, -⟩ | ⟨y, hy, hid, -, hcancel⟩ := h.cancel_cases x.record.id
  · rw [hended x.record (List.mem_map_of_mem hx) rfl] at hactive
    cases hactive
  · rwa [h.store.eq_of_id hy hx hid] at hcancel

theorem Sound.revoked (h : e.Sound log) (hx : x ∈ e.store.entries)
    (hactive : x.record.state.isTerminal = false) : ∃ log', (e.revoked x).Sound log' := by
  obtain ⟨new, hnew, hproceeds⟩ := h.cancel x.record.id
  rw [h.cancel_eq hx hactive] at hproceeds
  exact ⟨_, hproceeds.sound h (h.fresh_append hnew)⟩

/-- A cancellation changes nothing else, unless there is a call that it drops. -/
theorem AtRest.revoked (hrest : e.AtRest) (h : e.Sound log) (hx : x ∈ e.store.entries)
    (hactive : x.record.state.isTerminal = false)
    (hblocks : ∀ j ∈ e.jobs, j.entry = x → j.isBlocking = true) : (e.revoked x).AtRest := by
  obtain ⟨hdispatch, hlater, -⟩ := step?_eq_none hrest
  refine atRest_of ?_ ?_ ?_
  · rw [dispatch?_eq_none] at hdispatch ⊢
    intro p hp
    refine (hdispatch p hp).imp_right fun hempty => ?_
    rw [show (e.revoked x).queue.items = e.queue.items.erase x.record.id from rfl, hempty]
    rfl
  · intro j hj
    by_cases hjx : j.entry = x
    · obtain ⟨gate, blocking, v, hreply, hclosed, -⟩ := hrest.waits hj
      have hblocking : blocking = true := by simpa [Job.isBlocking, hreply] using hblocks j hj hjx
      rw [(endOf_atGate (d := e.revoked x) hreply hclosed fun _ => hblocking).1]
      exact hrest.clock_lt hj
    · rw [endOf_revoked (h.isCancelled_other hx hactive hj hjx)]
      exact hlater j hj
  · intro j hj
    by_cases hjx : j.entry = x
    · have hcancelled : (e.revoked x).isCancelled j := isCancelled_revoked.2 (.inl (hjx ▸ rfl))
      simp [isRestless, hcancelled]
    · rw [isRestless_revoked (h.isCancelled_other hx hactive hj hjx)]
      exact hrest.not_restless hj

/-- The request of a call was cancelled, and the call is dropped. -/
def dropped (e : Engine) (j : Job) : Engine :=
  { e.revoked j.entry with pool := e.pool.map (·.finish j) }

theorem endOf_dropped (hc : e.isCancelled j) (hj : j.isBlocking = false) :
    e.endOf j = e.clock := by simp [endOf, hc, hj]

section

variable (hrest : e.AtRest) (h : e.Sound log) (hj : j ∈ e.jobs) (hruns : j.Runs e.store)
  (hdrops : j.isBlocking = false)

include h hruns in
theorem queue_dropped : (e.dropped j).queue.items = e.queue.items :=
  List.erase_of_not_mem (h.not_waiting_of_runs hruns)

include hrest h hj hruns hdrops in
/-- What else happens after a cancellation happens after the call was dropped. -/
theorem settle_revoked : (e.revoked j.entry).settle = (e.dropped j).settle := by
  have hc : (e.revoked j.entry).isCancelled j := isCancelled_revoked.2 (.inl rfl)
  obtain ⟨-, hlater, -⟩ := step?_eq_none hrest
  have hfinish := step?_of_due (e := e.revoked j.entry) hj
    (Nat.le_of_eq (endOf_dropped hc hdrops)) (fun k hk hne => ?_)
  · rw [settle_of_step? (hfinish _), finish_of_cancelled hc]
    rfl
  · rw [endOf_revoked (h.isCancelled_other hruns.1 hruns.active hk fun heq => hne ?_)]
    · exact hlater k hk
    · exact h.calls.eq_of_token hk hj (congrArg Entry.token heq)

include hrest h hj hruns in
theorem later_dropped : ∀ k ∈ (e.dropped j).jobs,
    (e.dropped j).clock < (e.dropped j).endOf k ∧ (e.dropped j).isRestless k = false := by
  intro k hk
  rw [show (e.dropped j).jobs = Calls.others j e.jobs from h.jobs_finish hj] at hk
  obtain ⟨hk, htoken⟩ := Calls.mem_others.1 hk
  have hsame := h.isCancelled_other hruns.1 hruns.active hk fun heq =>
    htoken (congrArg Entry.token heq)
  obtain ⟨-, hlater, -⟩ := step?_eq_none hrest
  have hend : (e.dropped j).endOf k = e.endOf k := endOf_revoked hsame
  have hrestless : (e.dropped j).isRestless k = e.isRestless k := isRestless_revoked hsame
  rw [hend, hrestless]
  exact ⟨hlater k hk, hrest.not_restless hk⟩

include hrest h hj hruns in
/-- Nothing else happens if nobody waits, or if the worker of the call was let go. -/
theorem atRest_dropped
    (hidle : e.queue.items = [] ∨ ∀ p, e.pool = some p → j ∉ p.busy) : (e.dropped j).AtRest := by
  have hlater := later_dropped hrest h hj hruns
  refine atRest_of ?_ (fun k hk => (hlater k hk).1) fun k hk => (hlater k hk).2
  rw [dispatch?_eq_none, queue_dropped h hruns]
  intro p' hp'
  obtain ⟨p, hp, rfl⟩ := Option.map_eq_some_iff.1 hp'
  obtain hempty | hretired := hidle
  · exact .inr hempty
  · have htokens := h.calls.tokens
    rw [jobs_of_pool hp] at htokens hj
    rw [Pool.finish_of_retired htokens hj (hretired p hp)]
    exact dispatch?_eq_none.1 (step?_eq_none hrest).1 p hp

include hrest h hj hruns in
/-- A worker whose call is dropped takes up the request at the front of the queue. -/
theorem served_dropped (hp : e.pool = some p) (hbusy : j ∈ p.busy)
    (hqueue : e.queue.items = id :: queue) : id ∉ (e.dropped j).settle.queue.items := by
  have hlater := later_dropped hrest h hj hruns
  have hitems := queue_dropped h hruns
  obtain ⟨e', hd⟩ : ∃ e', (e.dropped j).dispatch? = some e' := by
    rw [← Option.isSome_iff_exists, Option.isSome_iff_ne_none]
    intro hnone
    obtain hidle | hempty := dispatch?_eq_none.1 hnone (p.finish j) (by simp [dropped, hp])
    · rw [Pool.finish_of_busy hbusy] at hidle
      exact List.append_ne_nil_of_right_ne_nil _ (by simp) hidle
    · rw [hitems, hqueue] at hempty
      cases hempty
  obtain ⟨log₁, hrevoked⟩ := h.revoked hruns.1 hruns.active
  have hc : (e.revoked j.entry).isCancelled j := isCancelled_revoked.2 (.inl rfl)
  obtain ⟨new₁, hfinished⟩ := hrevoked.finish (show j ∈ (e.revoked j.entry).jobs from hj)
  rw [finish_of_cancelled hc] at hfinished
  have hdropped : (e.dropped j).Sound (log₁ ++ new₁) := hfinished.sound hrevoked
  obtain ⟨new₂, hdispatched⟩ := hdropped.dispatch hd
  obtain ⟨new₃, hsettled⟩ := (hdispatched.sound hdropped).turns (settle_turns e')
  obtain ⟨front, hfront⟩ := queue_dispatch hd
  rw [hitems, hqueue] at hfront
  obtain ⟨-, hrest'⟩ := List.cons.inj hfront
  have hnot : id ∉ queue := by
    have hnodup := h.ledger.waiting_nodup
    rw [show e.ledger.waiting = id :: queue from hqueue] at hnodup
    exact (List.nodup_cons.1 hnodup).1
  rw [settle_of_step? (step?_of_dispatch? (fun k hk => (hlater k hk).1) hd _)]
  intro hmem
  rw [hrest', hsettled.served] at hnot
  exact hnot (List.mem_append_right _ hmem)

end

section

variable (hreply : j.reply = .atGate gate true v)

include hreply

/-- A call that blocks goes on until its time is up, as long as its gate is closed. -/
theorem goesOn_tick (h : e.Sound log) (hj : j ∈ e.jobs) (hclosed : gate ∉ e.openGates)
    (ht : Tick e e') : j ∈ e'.jobs ∨ j.deadline ≤ e'.clock := by
  obtain ⟨hturn, -⟩ := ht
  cases hturn with
  | @finish k hk hdue =>
    by_cases htoken : j.token = k.token
    · obtain rfl := h.calls.eq_of_token hj hk htoken
      rw [(endOf_atGate hreply hclosed fun _ => rfl).1] at hdue
      exact .inr ((clock_finish e j).symm ▸ hdue)
    · rw [jobs_finish_eq h hk]
      exact .inl (Calls.mem_others.2 ⟨hj, htoken⟩)
  | dispatch hd =>
    obtain hsame | ⟨k, -, hperm⟩ := jobs_dispatch hd
    · exact .inl (hsame ▸ hj)
    · exact .inl (hperm.mem_iff.2 (List.mem_cons_of_mem k hj))
  | pass _ => exact .inl hj

theorem goesOn_ticks (h : e.Sound log) (hj : j ∈ e.jobs) (hclosed : gate ∉ e.openGates)
    (ht : Ticks e e') : j ∈ e'.jobs ∨ j.deadline ≤ e'.clock := by
  induction ht with
  | refl => exact .inl hj
  | @tail d e' ticks tick ih =>
    obtain hj | hover := ih
    · obtain ⟨_, hworks⟩ := h.turns (Ticks.turns ticks)
      have hlater := Turns.later (Ticks.turns ticks)
      exact goesOn_tick hreply (hworks.sound h) hj (hlater.openGates ▸ hclosed) tick
    · exact .inr (Nat.le_trans hover tick.turn.clock_le)

end

theorem jobs_perform (hstop : c ≠ .stop) (hwait : ∀ id maxMs, c ≠ .wait id maxMs) :
    e.jobs ⊆ (e.perform c).2.jobs := by
  cases performed e c with
  | start =>
    obtain ⟨pool, hstart, hjobs⟩ := jobs_start e
    change e.jobs ⊆ e.start.jobs
    rw [hstart, hjobs]
    exact List.Subset.refl _
  | stop => exact absurd rfl hstop
  | wait id maxMs => exact absurd rfl (hwait id maxMs)
  | setMaxWorkers n => exact (jobs_setMaxWorkers e n).symm.subset
  | other pool _ =>
    rw [jobs, jobs, pool]
    exact List.Subset.refl _

theorem openGates_perform (e : Engine) (c : Command) (hgate : gate ∈ (e.perform c).2.openGates) :
    gate ∈ e.openGates ∨ c = .openGate gate := by
  have hsame : ∀ {e' : Engine}, e'.settings = e.settings → gate ∈ e'.openGates →
      gate ∈ e.openGates := by
    intro e' h hgate
    have hgates : e'.openGates = e.openGates := congrArg Settings.openGates h
    exact hgates ▸ hgate
  cases c with
  | start => exact .inl (hsame (settings_start e) hgate)
  | stop => exact .inl (hsame (settings_stop e) hgate)
  | submit id agent function parameters timeout => exact .inl (hsame (settings_submit e ..) hgate)
  | cancel id => exact .inl (hsame (settings_cancel e id) hgate)
  | wait id maxMs => exact .inl (hsame (wait_turns e id maxMs).settings hgate)
  | loadFile path content =>
    simp only [perform] at hgate
    split at hgate <;> exact .inl hgate
  | openGate other =>
    obtain rfl | hgate := List.mem_cons.1 hgate
    · exact .inr rfl
    · exact .inl hgate
  | receive name =>
    simp only [perform] at hgate
    split at hgate <;> exact .inl hgate
  | _ => exact .inl hgate

theorem Sound.cancelled_step (h : e.Sound log) (c : Command) :
    e.store.cancelled ⊆ (e.step c).2.store.cancelled := by
  rw [show (e.step c).2.store.cancelled = (e.perform c).2.store.cancelled from
    (settle_turns _).cancelled]
  cases c with
  | start =>
    obtain ⟨pool, hstart, -⟩ := jobs_start e
    simp only [Engine.perform, hstart]
    exact List.Subset.refl _
  | stop =>
    obtain ⟨-, hstop⟩ | ⟨-, _, _, hstop⟩ := stop_cases e
    · simp only [Engine.perform, hstop]
      exact List.Subset.refl _
    · simp only [Engine.perform, hstop]
      rw [← show e.drain.store.cancelled = e.store.cancelled from (drain_turns e).cancelled]
      exact List.subset_append_right _ _
  | submit id agent function parameters timeout =>
    simp only [Engine.perform, Engine.submit]
    split
    · rename_i he
      obtain ⟨-, -, -, rfl⟩ := enqueue_eq_ok he
      exact List.Subset.refl _
    · exact List.Subset.refl _
  | cancel id =>
    obtain ⟨-, hcancel⟩ | ⟨x, -, -, -, hcancel⟩ := h.cancel_cases id
    · simp only [Engine.perform, hcancel]
      exact List.Subset.refl _
    · simp only [Engine.perform, hcancel]
      exact List.subset_cons_self _ _
  | wait id maxMs =>
    rw [show (e.perform (.wait id maxMs)).2.store.cancelled = e.store.cancelled from
      (wait_turns e id maxMs).cancelled]
    exact List.Subset.refl _
  | loadFile path content =>
    simp only [Engine.perform]
    split <;> exact List.Subset.refl _
  | receive name =>
    simp only [Engine.perform]
    split <;> exact List.Subset.refl _
  | _ => exact List.Subset.refl _

theorem goesOn_step (h : e.Sound log)
    (hfresh : ∀ id, (e.perform c).1.accepted? = some id → id ∉ submitted log)
    (hreply : j.reply = .atGate gate true v) (hj : j ∈ e.jobs) (hclosed : gate ∉ e.openGates)
    (hstop : c ≠ .stop) (hopens : c ≠ .openGate gate) :
    j ∈ (e.step c).2.jobs ∨ j.deadline ≤ (e.step c).2.clock := by
  by_cases hwait : ∃ id maxMs, c = .wait id maxMs
  · obtain ⟨id, maxMs, rfl⟩ := hwait
    exact goesOn_ticks hreply h hj hclosed ((wait_ticks e id maxMs).trans (settle_ticks _))
  · have hwait : ∀ id maxMs, c ≠ .wait id maxMs := fun id maxMs hc => hwait ⟨id, maxMs, hc⟩
    obtain ⟨log', hsound⟩ := (h.readied hfresh hstop hwait).sound
    refine goesOn_ticks hreply hsound (jobs_perform hstop hwait hj) ?_ (settle_ticks _)
    exact fun hgate => (openGates_perform e c hgate).elim hclosed hopens

end Engine

namespace Session

/-- A request that waited was cancelled. Its place in the queue is free at once, and nothing else
happens. -/
structure Withdrawn (s : Session) (n : Nat) (id : Uuid) : Prop where
  queue : (s.engine (n + 1)).queue =
    { (s.engine n).queue with items := (s.engine n).queue.items.erase id }
  shorter : (s.engine (n + 1)).queue.size + 1 = (s.engine n).queue.size
  free : ∀ other agent function parameters given,
    (s.engine n).queue.size ≤ (s.engine n).queue.capacity →
    ((s.engine n).registry.resolve? agent).isSome →
    ¬ (s.engine n).functions.Lacks function parameters →
    ((s.engine (n + 1)).step (.submit other agent function parameters given)).1 =
      .submission (.ok other)
  pool : (s.engine (n + 1)).pool = (s.engine n).pool
  others : ∀ other, other ≠ id → s.record? (n + 1) other = s.record? n other

/-- The request of a call was cancelled. However the call ends, nothing comes of it but that its
worker is free. -/
structure Unheard (s : Session) (n : Nat) (j : Job) : Prop where
  cancelled : ∀ k, j.token ∈ (s.engine (n + 1 + k)).store.cancelled
  finish : ∀ e : Engine, j.token ∈ e.store.cancelled →
    e.finish j = { e with pool := e.pool.map (·.finish j) }

/-- A call was dropped, and its worker takes up the request that has waited longest, unless it was
let go. -/
structure Dropped (s : Session) (n : Nat) (j : Job) : Prop where
  gone : j ∉ (s.engine (n + 1)).jobs
  serves : ∀ p, (s.engine n).pool = some p → j ∈ p.busy → ∀ oldest others,
    (s.accepted n).filter (s.isPending n) = oldest :: others →
    ∃ r, s.record? (n + 1) oldest = some r ∧ r.startedAt.isSome
  rests : ((s.engine n).queue.items = [] ∨ ∀ p, (s.engine n).pool = some p → j ∉ p.busy) →
    s.engine (n + 1) = { ((s.engine n).cancel j.record.id).2 with
      pool := (s.engine n).pool.map (·.finish j) }

/-- A call blocks although its request was cancelled. It keeps its worker until its gate is opened,
its time is up, or the engine is stopped. -/
structure Detains (s : Session) (n : Nat) (j : Job) (gate : String) : Prop where
  rests : s.engine (n + 1) = ((s.engine n).cancel j.record.id).2
  stays : j ∈ (s.engine (n + 1)).jobs
  lasts : ∀ k, n < k → j ∈ (s.engine k).jobs → (j ∈ (s.engine (k + 1)).jobs ↔
    ¬ (s.commands[k]? = some (.openGate gate) ∨ j.deadline ≤ (s.engine (k + 1)).clock ∨
      s.commands[k]? = some .stop))
  keeps : ∀ k p, (s.engine k).pool = some p → j ∈ p.busy →
    j.worker ∉ p.idle ∧ ∀ i ∈ p.busy, i.worker = j.worker → i = j

/-- A request was cancelled, for good. -/
structure Cancelled (s : Session) (n : Nat) (r : RequestRecord) : Prop where
  record : s.record? (n + 1) r.id = some (r.cancelled (s.engine n).now)
  final : ∀ k, s.lastSeen? (n + 1 + k) r.id = some (r.cancelled (s.engine n).now) ∧
    s.story (n + 1 + k) r.id = (r.cancelled (s.engine n).now).story
  uncounted : ∀ k, s.wasIn k [.completed, .failed, .timeout] r.id = false
  waited : r.state = .pending → s.Withdrawn n r.id
  ran : r.state = .running → ∃ j ∈ (s.engine n).jobs, j.record = r ∧ s.Unheard n j ∧
    (j.isBlocking = false → s.Dropped n j) ∧
    ∀ gate v, j.reply = .atGate gate true v → s.Detains n j gate

/-- What comes of a cancellation. -/
structure Cancellation (s : Session) (n : Nat) (id : Uuid) : Prop where
  answer : ∃ b, ((s.engine n).step (.cancel id)).1 = .truth b ∧
    (b = true ↔ ∃ r, s.record? n id = some r ∧ (r.state = .pending ∨ r.state = .running))
  futile : ((s.engine n).step (.cancel id)).1 = .truth false → s.engine (n + 1) = s.engine n
  cancelled : ∀ r, s.record? n id = some r → r.state = .pending ∨ r.state = .running →
    s.Cancelled n r

variable {s : Session} {n k : Nat} {id : Uuid} {x : Entry} {j : Job} {r : RequestRecord}
  {gate : String} {v : Json}

/-- A request that has not ended is cancelled, and else nothing happens. -/
theorem engine_cancel (hc : s.commands[n]? = some (.cancel id)) :
    ((∀ r, s.record? n id = some r → r.state.isTerminal) ∧
      ((s.engine n).step (.cancel id)).1 = .truth false ∧ s.engine (n + 1) = s.engine n) ∨
    ∃ x ∈ (s.engine n).store.entries, x.record.id = id ∧ x.record.state.isTerminal = false ∧
      ((s.engine n).step (.cancel id)).1 = .truth true ∧
      s.engine (n + 1) = ((s.engine n).revoked x).settle := by
  obtain ⟨log, h⟩ := s.history n
  rw [engine_step hc]
  obtain ⟨hended, hcancel⟩ | ⟨x, hx, hid, hactive, hcancel⟩ := h.sound.1.cancel_cases id
  · refine .inl ⟨fun r hr => ?_, ?_, ?_⟩
    · obtain ⟨hmem, hid⟩ := record?_eq_some.1 hr
      exact hended r hmem hid
    · simp only [Engine.step, Engine.perform, hcancel]
    · simp only [Engine.step, Engine.perform, hcancel]
      exact (s.atRest n).settle
  · refine .inr ⟨x, hx, hid, hactive, ?_, ?_⟩
    · simp only [Engine.step, Engine.perform, hcancel]
    · simp only [Engine.step, Engine.perform, hcancel]

theorem record?_cancelled (hx : x ∈ (s.engine n).store.entries)
    (hactive : x.record.state.isTerminal = false)
    (he : s.engine (n + 1) = ((s.engine n).revoked x).settle) :
    s.record? (n + 1) x.record.id = some (x.record.cancelled (s.engine n).now) := by
  obtain ⟨log, h⟩ := s.history n
  obtain ⟨log', hrevoked⟩ := h.sound.1.revoked hx hactive
  obtain ⟨new, hsettled⟩ := hrevoked.turns (Engine.settle_turns _)
  have hmem : x.record.cancelled (s.engine n).now ∈
      ((s.engine n).revoked x).ledger.records := by
    refine List.mem_map.2 ⟨{ x with record := x.record.cancelled (s.engine n).now }, ?_, rfl⟩
    exact (Store.mem_replace (r := x.record.cancelled (s.engine n).now) h.sound.1.store hx
      rfl).2 (.inl rfl)
  obtain ⟨r, hr, hbecomes⟩ := hsettled.proceeds.tells.becomes hrevoked.ledger
    (hrevoked.fresh_append hsettled.none) hmem
  rw [hbecomes.final rfl, ← he] at hr
  exact record?_eq_some.2 ⟨hr, rfl⟩

/-- A request that was cancelled is never seen to end otherwise. -/
theorem wasIn_cancelled (hactive : r.state.isTerminal = false) (hr : s.record? n r.id = some r)
    {now : Instant} (hcancelled : s.record? (n + 1) r.id = some (r.cancelled now)) (k : Nat) :
    s.wasIn k [.completed, .failed, .timeout] r.id = false := by
  rw [← Bool.not_eq_true, wasIn_iff]
  rintro ⟨m, -, r', hr', hstate⟩
  have hended : r'.state.isTerminal := by
    simp only [List.mem_cons, List.not_mem_nil, or_false] at hstate
    obtain hs | hs | hs := hstate <;> rw [hs] <;> rfl
  obtain ⟨log, h⟩ := s.history m
  obtain hlt | hle := Nat.lt_or_ge n m
  · obtain ⟨d, rfl⟩ := Nat.exists_eq_add_of_le hlt
    have hseen := lastSeen?_add hcancelled rfl d
    rw [show n + 1 + d = n.succ + d from rfl, lastSeen?_of_record? hr'] at hseen
    rw [Option.some.inj hseen] at hstate
    simp [RequestRecord.cancelled] at hstate
  · obtain ⟨d, rfl⟩ := Nat.exists_eq_add_of_le hle
    obtain ⟨r₁, hr₁, hbecomes⟩ := s.record?_add m d (h.known hr') r hr
    obtain rfl := Option.some.inj (hr'.symm.trans hr₁)
    rw [hbecomes.final hended, hended] at hactive
    cases hactive

theorem cancelled_mono (s : Session) (n k : Nat) :
    (s.engine n).store.cancelled ⊆ (s.engine (n + k)).store.cancelled := by
  induction k with
  | zero => exact List.Subset.refl _
  | succ k ih =>
    obtain ⟨log, h⟩ := s.history (n + k)
    obtain ⟨-, he, -⟩ | ⟨c, -, he, -⟩ := s.engine_succ (n + k)
    · rw [← Nat.add_assoc, he]
      exact ih
    · rw [← Nat.add_assoc, he]
      exact List.Subset.trans ih (h.sound.1.cancelled_step c)

theorem withdrawn (hx : x ∈ (s.engine n).store.entries) (hp : x.record.state = .pending)
    (he : s.engine (n + 1) = ((s.engine n).revoked x).settle) : s.Withdrawn n x.record.id := by
  obtain ⟨log, h⟩ := s.history n
  have hsound := h.sound.1
  have hactive : x.record.state.isTerminal = false := by rw [hp]; rfl
  have hmem : x.record.id ∈ (s.engine n).queue.items :=
    (s.mem_items n x.record.id).2 ⟨x.record, List.mem_map_of_mem hx, rfl, hp⟩
  have hnobody := hsound.calls.entry_ne_of_pending hsound.store hx hp
  have hrest := (s.atRest n).revoked hsound hx hactive fun j hj hjx => absurd hjx (hnobody j hj)
  rw [hrest.settle] at he
  have hshorter : (s.engine (n + 1)).queue.size + 1 = (s.engine n).queue.size := by
    rw [he]
    exact List.length_erase_add_one hmem
  refine ⟨by rw [he]; rfl, hshorter, ?_, by rw [he]; rfl, ?_⟩
  · intro other agent function parameters given hroom hagent hlacks
    have hmissing : (s.engine n).functions.missingParameter? function parameters = none := by
      rw [FunctionTable.lacks_iff] at hlacks
      simpa using hlacks
    have hroom' : ¬ (s.engine (n + 1)).queue.capacity ≤ (s.engine (n + 1)).queue.items.length := by
      have hcapacity : (s.engine (n + 1)).queue.capacity = (s.engine n).queue.capacity := by
        rw [he]
        rfl
      simp only [WorkQueue.size] at hshorter hroom
      omega
    have hfst := Engine.submit_fst (s.engine (n + 1)) other agent function parameters given
    rw [if_neg hroom', he, show ((s.engine n).revoked x).registry = (s.engine n).registry from rfl,
      show ((s.engine n).revoked x).functions = (s.engine n).functions from rfl, if_pos hagent,
      hmissing] at hfst
    rw [he]
    exact congrArg Answer.submission hfst
  · intro other hother
    have hentry : Store.entry? (s.engine n).store x.record.id = some x :=
      (Store.entry?_eq_some hsound.store).2 ⟨hx, rfl⟩
    have hother' := Store.get?_replace (r := x.record.cancelled (s.engine n).now) hentry rfl other
    rw [if_neg hother] at hother'
    rw [record?, he]
    exact hother'

theorem items_eq_filter (s : Session) (n : Nat) :
    (s.engine n).queue.items = (s.accepted n).filter (s.isPending n) := by
  obtain ⟨log, h⟩ := s.history n
  obtain ⟨hsound, hlog⟩ := h.sound
  have hsub : (s.engine n).queue.items.Sublist (s.accepted n) := hlog ▸ hsound.ledger.waiting_sublist
  rw [eq_filter_of_sublist hsub (s.accepted_nodup n)]
  refine List.filter_congr fun id _ => ?_
  simp only [s.mem_items n id, ← isPending_iff, Bool.decide_eq_true]

/-- Who waited when another request was cancelled, and waits no more, has begun. -/
theorem startedAt_of_not_waiting (hx : x ∈ (s.engine n).store.entries)
    (hactive : x.record.state.isTerminal = false)
    (he : s.engine (n + 1) = ((s.engine n).revoked x).settle)
    (hr : r ∈ (s.engine n).store.records) (hpending : r.state = .pending)
    (hne : r.id ≠ x.record.id) (hserved : r.id ∉ (s.engine (n + 1)).queue.items) :
    ∃ r', s.record? (n + 1) r.id = some r' ∧ r'.startedAt.isSome := by
  obtain ⟨log, h⟩ := s.history n
  have hsound := h.sound.1
  obtain ⟨log', hrevoked⟩ := hsound.revoked hx hactive
  have hpunctual : ((s.engine n).revoked x).Punctual :=
    (s.atRest n).punctual (s.timed n).1 (List.Subset.refl _) rfl
  obtain ⟨r', hr', hbecomes⟩ := h.stays (record?_eq_some.2 ⟨hr, rfl⟩) (by rw [hpending]; rfl)
  obtain ⟨hmem, -⟩ := record?_eq_some.1 hr'
  have hsettled := hmem
  rw [he] at hsettled
  have hfares := hrevoked.fares_ticks hpunctual (Engine.settle_ticks _) r' hsettled
  refine ⟨r', hr', (hfares.startedAt hrevoked).resolve_left fun hkept => ?_⟩
  obtain rfl | ⟨hkept, -⟩ := Engine.mem_records_replace hkept
  · exact hne hbecomes.id.symm
  · rw [hsound.ledger.eq_of_id hkept hr hbecomes.id] at hmem
    exact hserved ((s.mem_items (n + 1) r.id).2 ⟨r, hmem, rfl, hpending⟩)

theorem unheard (he : s.engine (n + 1) = ((s.engine n).revoked j.entry).settle) :
    s.Unheard n j where
  cancelled k := by
    apply s.cancelled_mono (n + 1) k
    rw [he, (Engine.settle_turns _).cancelled]
    exact List.mem_cons_self
  finish e hc := Engine.finish_of_cancelled (Engine.isCancelled_iff.2 hc)

theorem dropped (hj : j ∈ (s.engine n).jobs) (hruns : j.Runs (s.engine n).store)
    (hdrops : j.isBlocking = false)
    (he : s.engine (n + 1) = ((s.engine n).revoked j.entry).settle) : s.Dropped n j := by
  obtain ⟨log, h⟩ := s.history n
  have hsound := h.sound.1
  have hrest := s.atRest n
  have hsettled := Engine.settle_revoked hrest hsound hj hruns hdrops
  refine ⟨?_, ?_, ?_⟩
  · intro hmem
    obtain ⟨gate, blocking, v, hreply, -, hblocking⟩ := (s.atRest (n + 1)).waits hmem
    have htoken := (unheard he).cancelled 0
    rw [Job.isBlocking, hreply] at hdrops
    rw [hblocking (Engine.isCancelled_iff.2 htoken)] at hdrops
    cases hdrops
  · intro p hp hbusy oldest others hline
    have hitems : (s.engine n).queue.items = oldest :: others := (s.items_eq_filter n).trans hline
    have hserved : oldest ∉ (s.engine (n + 1)).queue.items := by
      rw [he, hsettled]
      exact Engine.served_dropped hrest hsound hj hruns hp hbusy hitems
    obtain ⟨r₀, hr₀, rfl, hpending⟩ := (s.mem_items n oldest).1 (hitems ▸ List.mem_cons_self)
    refine startedAt_of_not_waiting hruns.1 hruns.active he hr₀ hpending (fun hid => ?_) hserved
    have hsame := hsound.ledger.eq_of_id hr₀ (List.mem_map_of_mem hruns.1) hid
    rw [hsame, hruns.state] at hpending
    cases hpending
  · intro hidle
    have hcancel := hsound.cancel_eq hruns.1 hruns.active
    rw [show j.entry.record.id = j.record.id from rfl] at hcancel
    rw [he, hsettled, (Engine.atRest_dropped hrest hsound hj hruns hidle).settle, hcancel]
    rfl

theorem gate_closed (hj : j ∈ (s.engine n).jobs) {blocking : Bool}
    (hreply : j.reply = .atGate gate blocking v) : gate ∉ (s.engine n).openGates := by
  obtain ⟨gate', blocking', v', hreply', hclosed, -⟩ := (s.atRest n).waits hj
  obtain ⟨rfl, -, -⟩ := Reply.atGate.inj (hreply.symm.trans hreply')
  exact hclosed

theorem not_mem_of_releases (hreply : j.reply = .atGate gate true v)
    (hreleases : s.commands[k]? = some (.openGate gate) ∨ j.deadline ≤ (s.engine (k + 1)).clock ∨
      s.commands[k]? = some .stop) : j ∉ (s.engine (k + 1)).jobs := by
  intro hmem
  obtain hopen | hdue | hstop := hreleases
  · apply gate_closed hmem hreply
    have hsettled := Engine.settle_turns ((s.engine k).openGate gate)
    rw [engine_step hopen, show ((s.engine k).step (.openGate gate)).2.openGates =
      ((s.engine k).openGate gate).openGates from congrArg Settings.openGates hsettled.settings]
    exact List.mem_cons_self
  · exact Nat.not_le.2 ((s.atRest (k + 1)).clock_lt hmem) hdue
  · rw [engine_step hstop, Engine.step_stop, Engine.jobs_of_stopped (Engine.pool_stop _)] at hmem
    cases hmem

theorem mem_of_not_releases (hreply : j.reply = .atGate gate true v)
    (hj : j ∈ (s.engine k).jobs)
    (hnot : ¬ (s.commands[k]? = some (.openGate gate) ∨
      j.deadline ≤ (s.engine (k + 1)).clock ∨ s.commands[k]? = some .stop)) :
    j ∈ (s.engine (k + 1)).jobs := by
  obtain ⟨log, h⟩ := s.history k
  obtain ⟨hsound, hlog⟩ := h.sound
  obtain ⟨-, he, -⟩ | ⟨c, hc, he, ha⟩ := s.engine_succ k
  · rw [he]
    exact hj
  · rw [he, hc] at hnot
    have hstop : c ≠ .stop := fun hstop => hnot (.inr (.inr (congrArg some hstop)))
    have hopens : c ≠ .openGate gate := fun hopens => hnot (.inl (congrArg some hopens))
    have hgoesOn := Engine.goesOn_step hsound (fresh_of_accepted (accepted_succ ha) hlog) hreply hj
      (gate_closed hj hreply) hstop hopens
    rw [he]
    exact hgoesOn.resolve_right fun hdue => hnot (.inr (.inl hdue))

theorem detains (hj : j ∈ (s.engine n).jobs) (hruns : j.Runs (s.engine n).store)
    (hreply : j.reply = .atGate gate true v)
    (he : s.engine (n + 1) = ((s.engine n).revoked j.entry).settle) : s.Detains n j gate := by
  obtain ⟨log, h⟩ := s.history n
  have hsound := h.sound.1
  have hblocks : ∀ i ∈ (s.engine n).jobs, i.entry = j.entry → i.isBlocking = true := by
    intro i hi hij
    rw [hsound.calls.eq_of_token hi hj (congrArg Entry.token hij), Job.isBlocking, hreply]
  have hcancel := hsound.cancel_eq hruns.1 hruns.active
  rw [show j.entry.record.id = j.record.id from rfl] at hcancel
  rw [((s.atRest n).revoked hsound hruns.1 hruns.active hblocks).settle] at he
  refine ⟨by rw [he, hcancel], by rw [he]; exact hj, ?_, ?_⟩
  · exact fun k _ hjk => ⟨fun hmem hreleases => not_mem_of_releases hreply hreleases hmem,
      mem_of_not_releases hreply hjk⟩
  · intro k p hp hbusy
    exact ((s.staffed k).all p hp).apart hbusy

theorem cancelled_of_entry (hx : x ∈ (s.engine n).store.entries)
    (hactive : x.record.state.isTerminal = false)
    (he : s.engine (n + 1) = ((s.engine n).revoked x).settle) : s.Cancelled n x.record := by
  obtain ⟨log, h⟩ := s.history n
  have hrecord := record?_cancelled hx hactive he
  have hbefore : s.record? n x.record.id = some x.record :=
    record?_eq_some.2 ⟨List.mem_map_of_mem hx, rfl⟩
  refine ⟨hrecord, fun k => ?_, wasIn_cancelled hactive hbefore hrecord,
    fun hp => withdrawn hx hp he, fun hrun => ?_⟩
  · have hseen := lastSeen?_add hrecord rfl k
    exact ⟨hseen, by rw [story, hseen]; rfl⟩
  · obtain ⟨j, hj, rfl⟩ := h.sound.1.calls.all x hx hrun
    exact ⟨j, hj, rfl, unheard he, fun hdrops => dropped hj ⟨hx, hrun⟩ hdrops he,
      fun gate v hreply => detains hj ⟨hx, hrun⟩ hreply he⟩

theorem cancel_ends_active (s : Session) (n : Nat) (id : Uuid)
    (hc : s.commands[n]? = some (.cancel id)) : s.Cancellation n id := by
  obtain ⟨hended, hanswer, he⟩ | ⟨x, hx, rfl, hactive, hanswer, he⟩ := engine_cancel hc
  · have hnot : ¬ ∃ r, s.record? n id = some r ∧ (r.state = .pending ∨ r.state = .running) := by
      rintro ⟨r, hr, hstate⟩
      have hend := hended r hr
      obtain hs | hs := hstate <;> rw [hs] at hend <;> cases hend
    refine ⟨⟨false, hanswer, ?_⟩, fun _ => he, fun r hr hstate => absurd ⟨r, hr, hstate⟩ hnot⟩
    simpa using hnot
  · have hbefore : s.record? n x.record.id = some x.record :=
      record?_eq_some.2 ⟨List.mem_map_of_mem hx, rfl⟩
    refine ⟨⟨true, hanswer, ?_⟩, fun hfalse => ?_, fun r hr _ => ?_⟩
    · simpa using ⟨x.record, hbefore, RequestState.pending_or_running hactive⟩
    · rw [hanswer] at hfalse
      cases hfalse
    · obtain rfl := Option.some.inj (hbefore.symm.trans hr)
      exact cancelled_of_entry hx hactive he

/-- One worker, held by a call that blocks, and a request behind it. -/
def detained : Session where
  registry := Registry.empty.register .nil (.plain "a" fun function _ =>
    if function = "block" then .atGate "g" true .null else .value .null)
  config := ⟨1, 10, 60000, 100, 8⟩
  startMs := 0
  commands := [.start, .submit (.ofNat 1) "a" "block" .null (some 1500), .cancel (.ofNat 1),
    .submit (.ofNat 2) "a" "f" .null none, .wait (.ofNat 2) 3000]
  fresh := by decide

theorem cancel_ends_active_detained : detained.commands[2]? = some (.cancel (.ofNat 1)) ∧
    detained.Cancellation 2 (.ofNat 1) ∧
    (detained.record? 2 (.ofNat 1)).map (·.state) = some .running ∧
    ((detained.engine 4).jobs.map (·.record.id)) = [.ofNat 1] := by
  refine ⟨rfl, cancel_ends_active detained 2 (.ofNat 1) rfl, ?_, ?_⟩
  · decide +kernel
  · decide +kernel

/-- The deadline of a call that blocks frees its worker, although no gate is opened and the engine
is not stopped. -/
theorem released_by_deadline :
    (∀ c ∈ detained.commands, c ≠ .stop ∧ ∀ gate, c ≠ .openGate gate) ∧
    ((detained.engine 4).jobs.map fun j => (j.worker, j.record.id, j.isBlocking)) =
      [(0, .ofNat 1, true)] ∧
    (detained.record? 4 (.ofNat 1)).map (·.state) = some .cancelled ∧
    (detained.record? 4 (.ofNat 2)).map (·.state) = some .pending ∧
    (detained.engine 5).jobs.length = 0 ∧
    (detained.record? 5 (.ofNat 2)).map (·.state) = some .completed := by
  refine ⟨by simp [detained], ?_, ?_, ?_, ?_, ?_⟩ <;> decide +kernel

end Session

end RequestEngine
