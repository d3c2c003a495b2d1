import RequestEngine.Proofs.Punctual

/-! What becomes of requests while an engine works by itself. A request that is dispatched is
refused at once, if its agent is missing or does not run, or its agent is called; and the record of
a call that is over shows how the call ended. -/
namespace RequestEngine

/-- Why no agent answers to a text. -/
inductive Registry.Refuses (registry : Registry) (text : String) : String → Prop
  | missing (none : registry.resolve? text = none) :
      Refuses registry text ("Agent not found: " ++ text)
  | resting {a : Agent} (found : registry.resolve? text = some a) (rests : a.running = false) :
      Refuses registry text ("Agent " ++ text ++ " is not running")

namespace RequestRecord

variable {r : RequestRecord} {now : Instant}

def begun (r : RequestRecord) (now : Instant) : RequestRecord :=
  { r with state := .running, startedAt := some now }

def failed (r : RequestRecord) (now : Instant) (message : String) : RequestRecord :=
  { r with state := .failed, error := some message, finishedAt := some now }

/-- The record of a request after the end of its call. -/
def concluded (r : RequestRecord) (now : Instant) : Option Ending → RequestRecord
  | some (.value v) => { r with state := .completed, result := some v, finishedAt := some now }
  | some (.error err) => r.failed now err.message
  | some .panic => r.failed now ("Agent " ++ r.agent ++ " panicked during " ++ r.function)
  | none => r.expired now

theorem fail?_failed (h : r.state = .running) {message : String} (hm : message ≠ "") :
    r.fail? now .failed message = some (r.failed now message) := by
  have hactive : ¬ r.state.isTerminal := by simp [h]
  unfold fail?
  rw [if_neg hactive, if_neg hm]
  rfl

@[simp] theorem id_concluded (r : RequestRecord) (now : Instant) (ending : Option Ending) :
    (r.concluded now ending).id = r.id := by
  cases ending with
  | none => rfl
  | some ending => cases ending <;> rfl

@[simp] theorem startedAt_concluded (r : RequestRecord) (now : Instant)
    (ending : Option Ending) : (r.concluded now ending).startedAt = r.startedAt := by
  cases ending with
  | none => rfl
  | some ending => cases ending <;> rfl

theorem terminal_concluded (r : RequestRecord) (now : Instant) (ending : Option Ending) :
    (r.concluded now ending).state.isTerminal := by
  cases ending with
  | none => rfl
  | some ending => cases ending <;> rfl

end RequestRecord

theorem append_ne_empty {a : String} (h : a ≠ "") (b : String) : a ++ b ≠ "" :=
  fun hab => h (String.append_eq_empty_iff.1 hab).1

theorem AgentError.message_ne_empty (err : AgentError) : err.message ≠ "" := by
  cases err with
  | unknownFunction name => exact append_ne_empty (by decide) name
  | invalidParameters reason => exact append_ne_empty (by decide) reason
  | executionFailed reason => exact append_ne_empty (by decide) reason

theorem Registry.Refuses.ne_empty {registry : Registry} {text message : String}
    (h : registry.Refuses text message) : message ≠ "" := by
  cases h <;> simp

namespace Engine

variable {e e' m : Engine} {log : List RequestEvent} {j k : Job} {r r₀ : RequestRecord}
  {x : Entry}

/-- The end of a call that was cancelled only frees its worker. -/
theorem finish_of_cancelled (h : e.isCancelled j) :
    e.finish j = { e with pool := e.pool.map (·.finish j) } := by
  have hc : ({ e with pool := e.pool.map (·.finish j) } : Engine).isCancelled j := h
  rw [finish, conclude]
  simp only [if_pos hc]

/-- A call that nobody has cancelled puts its ending into the record. -/
theorem conclude_eq (hs : e.store.Sound) (hj : j.Runs e.store) :
    e.conclude j = e.report (some (j.record.concluded e.now (e.ending? j),
      e.store.replace (j.record.concluded e.now (e.ending? j)))) := by
  have hclear : ¬ e.isCancelled j := by
    rw [isCancelled_iff]
    exact hj.not_cancelled hs
  have hfailed : ∀ message, message ≠ "" → e.fail j.record.id .failed message =
      e.report (some (j.record.failed e.now message,
        e.store.replace (j.record.failed e.now message))) := by
    intro message hm
    obtain ⟨r, hr, he⟩ := fail_eq hs hj.1 hj.2 .failed message
    obtain rfl := Option.some.inj ((RequestRecord.fail?_failed hj.2 hm).symm.trans hr)
    exact he
  unfold conclude
  simp only [if_neg hclear]
  cases hending : e.ending? j with
  | none =>
    obtain ⟨r, hr, he⟩ := fail_eq hs hj.1 hj.2 .timeout
      ("Request timed out after " ++ Decimal.text j.record.timeout.toNat ++ " ms")
    obtain rfl := Option.some.inj ((RequestRecord.fail?_expired e.now hj.2).symm.trans hr)
    exact he
  | some ending =>
    cases ending with
    | value v =>
      obtain ⟨r, hr, he⟩ := complete_eq hs hj.1 hj.2 v
      obtain ⟨-, rfl⟩ := RequestRecord.complete?_eq_some hr
      exact he
    | error err => exact hfailed _ err.message_ne_empty
    | panic => exact hfailed _ (by simp)

theorem Sound.eq_of_running (h : e.Sound log) (hj : j ∈ e.jobs) (hk : k ∈ e.jobs)
    (hr : j.record ∈ e.store.records) (hrun : j.record.state = .running)
    (hid : k.record.id = j.record.id) : k = j := by
  have hruns : ∀ i ∈ e.jobs, i.record.id = j.record.id → i.Runs e.store := by
    intro i hi heq
    refine (h.calls.each i hi).resolve_right fun hab => ?_
    rw [hab.cancelled j.record hr heq.symm] at hrun
    cases hrun
  have hentry := h.store.eq_of_id (hruns k hk hid).1 (hruns j hj rfl).1 hid
  exact h.calls.eq_of_token hk hj (congrArg Entry.token hentry)

/-- What has become of the request of a call by the time of a later engine. -/
inductive Settled (m e : Engine) (j : Job) : RequestRecord → Prop
  | goesOn (goesOn : j ∈ e.jobs) : Settled m e j j.record
  | ended {elapsed : Nat} {ending : Option Ending} (since : m.clock ≤ j.startedMs + elapsed)
      (reached : j.startedMs + elapsed ≤ e.clock)
      (ends : j.reply.Ends m.openGates j.record.timeout.toNat elapsed ending) :
      Settled m e j
        (j.record.concluded (.ofMillis (m.startMs + (j.startedMs + elapsed))) ending)

/-- Where a call comes from: it went on before, or a request that waited was dispatched since. -/
inductive Origin (m : Engine) (j : Job) : Prop
  | before (goesOn : j ∈ m.jobs) (runs : j.Runs m.store)
  | since {r₀ : RequestRecord} {a : Agent} (waited : r₀ ∈ m.store.records)
      (pending : r₀.state = .pending) (found : m.registry.resolve? r₀.agent = some a)
      (running : a.running = true) (since : m.clock ≤ j.startedMs)
      (record : j.record = r₀.begun (.ofMillis (m.startMs + j.startedMs)))
      (reply : j.reply = a.call r₀.function r₀.parameters)

/-- What has become of a request by the time of a later engine. -/
inductive Fares (m e : Engine) : RequestRecord → Prop
  | rests {r : RequestRecord} (before : r ∈ m.store.records) (idle : r.state ≠ .running) :
      Fares m e r
  | refused {r₀ : RequestRecord} {time : Nat} {message : String} (waited : r₀ ∈ m.store.records)
      (pending : r₀.state = .pending) (since : m.clock ≤ time) (reached : time ≤ e.clock)
      (refuses : m.registry.Refuses r₀.agent message) :
      Fares m e ((r₀.begun (.ofMillis (m.startMs + time))).failed (.ofMillis (m.startMs + time))
        message)
  | call {j : Job} {r : RequestRecord} (origin : Origin m j) (settled : Settled m e j r) :
      Fares m e r

theorem Origin.running (h : Origin m j) : j.record.state = .running := by
  cases h with
  | before _ runs => exact runs.2
  | since _ _ _ _ _ record _ =>
    rw [record]
    rfl

theorem Settled.terminal (h : Settled m e j r) (hrun : j.record.state = .running)
    (hr : r.state ≠ .running) : r.state.isTerminal := by
  cases h with
  | goesOn _ => exact absurd hrun hr
  | ended _ _ _ => exact RequestRecord.terminal_concluded _ _ _

theorem Fares.pending (h : Fares m e r) (hr : r.state = .pending) : r ∈ m.store.records := by
  cases h with
  | rests before _ => exact before
  | refused _ _ _ _ _ => cases hr
  | call origin settled =>
    have hend := settled.terminal origin.running (by rw [hr]; exact RequestState.noConfusion)
    rw [hr] at hend
    cases hend

theorem Settled.running (h : Settled m e j r) (hr : r.state = .running) :
    j ∈ e.jobs ∧ j.record = r := by
  cases h with
  | goesOn goesOn => exact ⟨goesOn, rfl⟩
  | @ended elapsed ending _ _ _ =>
    have hend := RequestRecord.terminal_concluded j.record
      (.ofMillis (m.startMs + (j.startedMs + elapsed))) ending
    rw [hr] at hend
    cases hend

theorem Origin.startedAt (h : Origin m j) (hm : m.Sound log) : j.record.startedAt.isSome := by
  cases h with
  | before _ runs => exact (hm.ledger.proper _ (List.mem_map_of_mem runs.1)).started (.inl runs.2)
  | since _ _ _ _ _ record _ =>
    rw [record]
    rfl

theorem Fares.startedAt (h : Fares m e r) (hm : m.Sound log) :
    r ∈ m.store.records ∨ r.startedAt.isSome := by
  cases h with
  | rests before _ => exact .inl before
  | refused _ _ _ _ _ => exact .inr rfl
  | call origin settled =>
    have hstarted := origin.startedAt hm
    cases settled with
    | goesOn _ => exact .inr hstarted
    | @ended elapsed ending _ _ _ =>
      right
      rw [RequestRecord.startedAt_concluded]
      exact hstarted

theorem Fares.running (h : Fares m e r) (hr : r.state = .running) :
    ∃ j ∈ e.jobs, j.record = r ∧ Origin m j := by
  cases h with
  | rests _ idle => exact absurd hr idle
  | refused _ _ _ _ _ => cases hr
  | @call j _ origin settled =>
    obtain ⟨hj, hrecord⟩ := settled.running hr
    exact ⟨j, hj, hrecord, origin⟩

theorem Sound.fares (h : e.Sound log) (hr : r ∈ e.store.records)
    (hkept : ∀ k ∈ e.jobs, k.record = r → k.Runs e.store → k ∈ e'.jobs) : Fares e e' r := by
  by_cases hrun : r.state = .running
  · obtain ⟨x, hx, rfl⟩ := List.mem_map.1 hr
    obtain ⟨k, hk, rfl⟩ := h.calls.all x hx hrun
    exact .call (.before hk ⟨hx, hrun⟩) (.goesOn (hkept k hk rfl ⟨hx, hrun⟩))
  · exact .rests hr hrun

theorem jobs_finish_eq (h : e.Sound log) (hj : j ∈ e.jobs) :
    (e.finish j).jobs = Calls.others j e.jobs := by
  obtain ⟨_, _, _, hframe⟩ := conclude_frame { e with pool := e.pool.map (·.finish j) } j
  rw [Engine.finish, hframe]
  exact h.jobs_finish hj

theorem mem_records_replace {s : Store} {r r' : RequestRecord} (h : r ∈ (s.replace r').records) :
    r = r' ∨ r ∈ s.records ∧ r.id ≠ r'.id := by
  obtain ⟨y, hy, rfl⟩ := List.mem_map.1 h
  obtain ⟨x, hx, rfl⟩ := List.mem_map.1 hy
  split
  · exact .inl rfl
  · exact .inr ⟨List.mem_map_of_mem hx, ‹_›⟩

/-- What becomes of the requests when a call is over. -/
theorem Sound.fares_finish (h : e.Sound log) (he : e.Punctual) (hj : j ∈ e.jobs)
    (hdue : e.endOf j ≤ e.clock) (hr : r ∈ (e.finish j).store.records) :
    Fares e (e.finish j) r := by
  have hjobs := jobs_finish_eq h hj
  have hothers : ∀ k ∈ e.jobs, k.token ≠ j.token → k ∈ (e.finish j).jobs :=
    fun k hk hne => hjobs ▸ Calls.mem_others.2 ⟨hk, hne⟩
  have hclock := clock_finish e j
  by_cases hc : e.isCancelled j
  · have hsame : (e.finish j).store = e.store := by rw [finish_of_cancelled hc]
    rw [hsame] at hr
    refine h.fares hr fun k hk _ hruns => hothers k hk fun htoken => ?_
    exact hruns.not_cancelled h.store (htoken ▸ isCancelled_iff.1 hc)
  · have hruns : j.Runs e.store :=
      (h.calls.each j hj).resolve_right fun hab => hc (isCancelled_iff.2 hab.token)
    obtain ⟨elapsed, helapsed, hends⟩ := he.ends hj hdue (by simpa using hc)
    have hstore : (e.finish j).store =
        e.store.replace (j.record.concluded e.now (e.ending? j)) := by
      rw [Engine.finish, conclude_eq (e := { e with pool := e.pool.map (·.finish j) }) h.store hruns]
      rfl
    rw [hstore] at hr
    obtain rfl | ⟨hr, hne⟩ := mem_records_replace hr
    · have hended := Settled.ended (m := e) (e := e.finish j) (Nat.le_of_eq helapsed)
        (Nat.le_of_eq (hclock.trans helapsed).symm) hends
      rw [← helapsed] at hended
      exact .call (.before hj hruns) hended
    · refine h.fares hr fun k hk hrecord _ => hothers k hk fun htoken => hne ?_
      rw [h.calls.eq_of_token hk hj htoken] at hrecord
      rw [← hrecord, RequestRecord.id_concluded]

/-- What becomes of the requests when one is dispatched. -/
theorem Sound.fares_dispatch (h : e.Sound log) (hd : e.dispatch? = some e')
    (hr : r ∈ e'.store.records) : Fares e e' r := by
  obtain ⟨p, w, id, queue, hpool, -, hpop, hcases⟩ := dispatch?_eq_some hd
  obtain ⟨x, hx, rfl, hpending, -⟩ := h.front (pop?_eq_some hpop)
  have hwaited : x.record ∈ e.store.records := List.mem_map_of_mem hx
  have hbegin : e.store.begin? e.now x.record.id =
      some (x.record.begun e.now, x.token, e.store.replace (x.record.begun e.now)) :=
    Store.begin?_eq_some h.store hx (by simp [RequestRecord.begin?, hpending, RequestRecord.begun])
  have hrotate : p.rotate.jobs = e.jobs := (jobs_of_pool hpool).symm
  have hrefused : ∀ message, e.registry.Refuses x.record.agent message →
      e' = (e.begun x.record.id w queue (e.store.replace (x.record.begun e.now)) p.rotate).fail
        x.record.id .failed message → Fares e e' r := by
    intro message hrefuses he'
    have hclock := clock_dispatch hd
    have hjobs : e'.jobs = e.jobs := he' ▸ (jobs_fail _ _ _ _).trans hrotate
    obtain ⟨-, hstore, -⟩ := h.begin w hx hpending (pop?_eq_some hpop)
      (r := x.record.begun e.now) (by simp [RequestRecord.begin?, hpending, RequestRecord.begun])
    have hentry : Entry.mk (x.record.begun e.now) x.token ∈
        (e.store.replace (x.record.begun e.now)).entries :=
      (Store.mem_replace (r := x.record.begun e.now) h.store hx rfl).2 (.inl rfl)
    obtain ⟨r₂, hr₂, hfail⟩ := fail_eq
      (e := e.begun x.record.id w queue (e.store.replace (x.record.begun e.now)) p.rotate)
      hstore hentry rfl .failed message
    obtain rfl := Option.some.inj ((RequestRecord.fail?_failed rfl hrefuses.ne_empty).symm.trans hr₂)
    replace he' := he'.trans hfail
    rw [he'] at hr
    obtain rfl | ⟨hr, hne⟩ := mem_records_replace hr
    · exact .refused hwaited hpending (Nat.le_refl _) (Nat.le_of_eq hclock.symm) hrefuses
    · obtain rfl | ⟨hr, -⟩ := mem_records_replace hr
      · exact absurd rfl hne
      · exact h.fares hr fun k hk _ _ => hjobs ▸ hk
  cases hcases with
  | stale hnone =>
    rw [hbegin] at hnone
    cases hnone
  | @called r₁ _ _ a begins found running =>
    obtain ⟨rfl, rfl, rfl⟩ : _ ∧ _ ∧ _ := by simpa [hbegin] using begins
    have hjobs := Pool.jobs_assign p
      ⟨w, x.record.begun e.now, x.token, a.call x.record.function x.record.parameters, e.clock⟩
    obtain rfl | ⟨hr, -⟩ := mem_records_replace hr
    · refine .call (j := ⟨w, x.record.begun e.now, x.token,
        a.call x.record.function x.record.parameters, e.clock⟩) ?_ (.goesOn ?_)
      · exact .since hwaited hpending found running (Nat.le_refl _) rfl rfl
      · exact hjobs.mem_iff.2 List.mem_cons_self
    · refine h.fares hr fun k hk _ _ => ?_
      rw [jobs_of_pool hpool] at hk
      exact hjobs.mem_iff.2 (List.mem_cons_of_mem _ hk)
  | unknown begins missing =>
    obtain ⟨rfl, rfl, rfl⟩ : _ ∧ _ ∧ _ := by simpa [hbegin] using begins
    exact hrefused _ (.missing missing) rfl
  | resting begins found rests =>
    obtain ⟨rfl, rfl, rfl⟩ : _ ∧ _ ∧ _ := by simpa [hbegin] using begins
    exact hrefused _ (.resting found rests) rfl

theorem Sound.fares_tick (h : e.Sound log) (he : e.Punctual) (ht : Tick e e')
    (hr : r ∈ e'.store.records) : Fares e e' r := by
  obtain ⟨hturn, -⟩ := ht
  cases hturn with
  | finish goesOn due => exact h.fares_finish he goesOn due hr
  | dispatch hd => exact h.fares_dispatch hd hr
  | pass _ => exact h.fares hr fun k hk _ _ => hk

/-- One engine comes from another, and has the same settings. -/
structure Later (m e : Engine) : Prop where
  settings : e.settings = m.settings
  clock : m.clock ≤ e.clock

namespace Later

theorem registry (h : m.Later e) : e.registry = m.registry := congrArg Settings.registry h.settings

theorem openGates (h : m.Later e) : e.openGates = m.openGates :=
  congrArg Settings.openGates h.settings

theorem startMs (h : m.Later e) : e.startMs = m.startMs := congrArg Settings.startMs h.settings

end Later

theorem Turns.later (h : Turns m e) : m.Later e := ⟨h.settings, h.clock_le⟩

/-- What has become of a request stays so, unless its call goes on. -/
theorem Fares.mono (h : Fares m e r) (hr : r.state ≠ .running) (hlater : e.clock ≤ e'.clock) :
    Fares m e' r := by
  cases h with
  | rests before idle => exact .rests before idle
  | refused waited pending since reached refuses =>
    exact .refused waited pending since (Nat.le_trans reached hlater) refuses
  | @call j _ origin settled =>
    cases settled with
    | goesOn _ => exact absurd origin.running hr
    | ended since reached ends => exact .call origin (.ended since (Nat.le_trans reached hlater) ends)

theorem Origin.earlier (h : Origin e j) (hs : e.Sound log) (hlater : m.Later e)
    (before : ∀ r ∈ e.store.records, Fares m e r) : Origin m j := by
  cases h with
  | before goesOn runs =>
    have hmem : j.record ∈ e.store.records := List.mem_map_of_mem runs.1
    obtain ⟨k, hk, hrecord, origin⟩ := (before _ hmem).running runs.2
    obtain rfl := hs.eq_of_running goesOn hk hmem runs.2 (by rw [hrecord])
    exact origin
  | since waited pending found running since record reply =>
    rw [hlater.registry] at found
    rw [hlater.startMs] at record
    exact .since ((before _ waited).pending pending) pending found running
      (Nat.le_trans hlater.clock since) record reply

theorem Settled.earlier (h : Settled e e' j r) (hlater : m.Later e) : Settled m e' j r := by
  cases h with
  | goesOn goesOn => exact .goesOn goesOn
  | ended since reached ends =>
    rw [hlater.openGates] at ends
    rw [hlater.startMs]
    exact .ended (Nat.le_trans hlater.clock since) reached ends

theorem Fares.trans (h : Fares e e' r) (hs : e.Sound log) (hlater : m.Later e)
    (hlater' : e.Later e') (before : ∀ r ∈ e.store.records, Fares m e r) : Fares m e' r := by
  cases h with
  | rests stays idle => exact (before r stays).mono idle hlater'.clock
  | refused waited pending since reached refuses =>
    rw [hlater.registry] at refuses
    rw [hlater.startMs]
    exact .refused ((before _ waited).pending pending) pending (Nat.le_trans hlater.clock since)
      reached refuses
  | call origin settled => exact .call (origin.earlier hs hlater before) (settled.earlier hlater)

/-- What becomes of the requests while an engine works by itself. -/
theorem Sound.fares_ticks (h : m.Sound log) (hm : m.Punctual) (ht : Ticks m e) :
    ∀ r ∈ e.store.records, Fares m e r := by
  induction ht with
  | refl => exact fun r hr => h.fares hr fun k hk _ _ => hk
  | @tail d e' ticks tick ih =>
    obtain ⟨new, hworks⟩ := h.turns (Ticks.turns ticks)
    have hd := hworks.sound h
    intro r hr
    exact (hd.fares_tick (hm.ticks ticks) tick hr).trans hd (Turns.later (Ticks.turns ticks))
      (Turns.later (.single tick.turn)) ih

end Engine

end RequestEngine
