import RequestEngine.Proofs.Turns

/-! Runs of an engine. Each turn of a run leaves less to do, so that a run comes to rest before its
bound is reached: a dispatch takes a request out of the queue, and each end of a call is final. -/
namespace RequestEngine.Engine

variable {e e' : Engine} {log new : List RequestEvent} {j : Job} {patient : Nat → Bool}

/-- The earlier of two calls, the first of them if they end together. -/
def earlier (e : Engine) (best : Option Job) (j : Job) : Option Job :=
  match best with
  | some b => if e.endOf j < e.endOf b then some j else some b
  | none => some j

theorem firstToEnd?_eq (e : Engine) : e.firstToEnd? = e.jobs.foldl e.earlier none := rfl

theorem foldl_earlier (e : Engine) (l : List Job) : ∀ b : Job, ∃ k,
    l.foldl e.earlier (some b) = some k ∧ (k = b ∨ k ∈ l) ∧ e.endOf k ≤ e.endOf b ∧
      ∀ i ∈ l, e.endOf k ≤ e.endOf i := by
  induction l with
  | nil => exact fun b => ⟨b, rfl, .inl rfl, Nat.le_refl _, by simp⟩
  | cons i l ih =>
    intro b
    rw [List.foldl_cons]
    by_cases hlt : e.endOf i < e.endOf b
    · obtain ⟨k, hk, hmem, hle, hall⟩ := ih i
      refine ⟨k, by simpa [earlier, hlt] using hk, .inr ?_, by omega, ?_⟩
      · exact hmem.elim (fun h => h ▸ List.mem_cons_self) (List.mem_cons_of_mem i)
      · exact fun i' hi' => (List.mem_cons.1 hi').elim (fun h => h ▸ hle) (hall i')
    · obtain ⟨k, hk, hmem, hle, hall⟩ := ih b
      refine ⟨k, by simpa [earlier, hlt] using hk, hmem.imp id (List.mem_cons_of_mem i), hle, ?_⟩
      exact fun i' hi' => (List.mem_cons.1 hi').elim (fun h => by rw [h]; omega) (hall i')

theorem firstToEnd?_eq_none : e.firstToEnd? = none ↔ e.jobs = [] := by
  rw [firstToEnd?_eq]
  cases hjobs : e.jobs with
  | nil => simp
  | cons i l =>
    obtain ⟨k, hk, -⟩ := foldl_earlier e l i
    rw [List.foldl_cons, show e.earlier none i = some i from rfl, hk]
    simp

theorem firstToEnd?_eq_some (h : e.firstToEnd? = some j) :
    j ∈ e.jobs ∧ ∀ k ∈ e.jobs, e.endOf j ≤ e.endOf k := by
  rw [firstToEnd?_eq] at h
  cases hjobs : e.jobs with
  | nil => simp [hjobs] at h
  | cons i l =>
    obtain ⟨k, hk, hmem, hle, hall⟩ := foldl_earlier e l i
    rw [hjobs, List.foldl_cons, show e.earlier none i = some i from rfl, hk] at h
    rw [← Option.some.inj h]
    refine ⟨List.mem_cons.2 hmem, ?_⟩
    exact fun i' hi' => (List.mem_cons.1 hi').elim (fun h => h ▸ hle) (hall i')

theorem dispatch?_eq_none : e.dispatch? = none ↔
    ∀ p, e.pool = some p → p.idle = [] ∨ e.queue.items = [] := by
  cases hp : e.pool with
  | none => simp [dispatch?, hp]
  | some p =>
    cases hidle : p.idle with
    | nil => simp [dispatch?, hp, hidle]
    | cons w rest =>
      cases hitems : e.queue.items with
      | nil => simp [dispatch?, hp, hitems, WorkQueue.pop?]
      | cons id items =>
        have hpop : e.queue.pop? = some (id, { e.queue with items := items }) := by
          simp [WorkQueue.pop?, hitems]
        simp only [dispatch?, hp, hidle, hpop, Option.bind_eq_bind, Option.bind_some,
          List.head?_cons]
        constructor
        · intro h
          split at h
          · cases h
          · split at h
            · cases h
            · split at h <;> cases h
        · intro h
          simpa [hidle] using h p rfl

theorem held_back (h : e.clock < e.endOf j) :
    e.isOpen j = false ∧ (e.isCancelled j && !j.isBlocking) = false := by
  have hopen : e.isOpen j = false := by
    cases ho : e.isOpen j with
    | false => rfl
    | true => simp [endOf, ho] at h
  refine ⟨hopen, ?_⟩
  cases hd : e.isCancelled j && !j.isBlocking with
  | false => rfl
  | true => simp [endOf, hopen, hd] at h

theorem endOf_pass (h : e.clock < e.endOf j) (time : Nat) :
    ({ e with clock := time } : Engine).endOf j = e.endOf j := by
  obtain ⟨hopen, hdrop⟩ := held_back h
  have hopen' : ({ e with clock := time } : Engine).isOpen j = false := hopen
  have hdrop' : (({ e with clock := time } : Engine).isCancelled j && !j.isBlocking) = false := hdrop
  simp [endOf, hopen, hdrop, hopen', hdrop']

/-- The next thing that happens is the end of a call that is due, a dispatch, or the end of a call
that is waited for. No call ends before another that is to end earlier. -/
theorem step?_eq_some (h : e.step? patient = some e') :
    (∃ j ∈ e.jobs, (∀ k ∈ e.jobs, e.endOf j ≤ e.endOf k) ∧ e.endOf j ≤ e.clock ∧
      e' = e.finish j) ∨
    e.dispatch? = some e' ∨
    ∃ j ∈ e.jobs, (∀ k ∈ e.jobs, e.endOf j ≤ e.endOf k) ∧ e.clock < e.endOf j ∧
      patient (e.endOf j) ∧ e' = { e with clock := e.endOf j }.finish j := by
  unfold step? at h
  split at h
  · exact .inr (.inl h)
  · rename_i j hfirst
    obtain ⟨hj, hleast⟩ := firstToEnd?_eq_some hfirst
    simp only at h
    split at h
    · exact .inl ⟨j, hj, hleast, ‹_›, (Option.some.inj h).symm⟩
    · rename_i hdue
      split at h
      · rename_i hd
        exact .inr (.inl (hd.trans h))
      · split at h
        · exact .inr (.inr ⟨j, hj, hleast, by omega, ‹_›, (Option.some.inj h).symm⟩)
        · cases h

theorem step?_eq_none (h : e.step? patient = none) :
    e.dispatch? = none ∧ (∀ k ∈ e.jobs, e.clock < e.endOf k) ∧
    ∀ k ∈ e.jobs, (∀ i ∈ e.jobs, e.endOf k ≤ e.endOf i) → patient (e.endOf k) = false := by
  unfold step? at h
  split at h
  · rename_i hfirst
    have hjobs := firstToEnd?_eq_none.1 hfirst
    exact ⟨h, by simp [hjobs], by simp [hjobs]⟩
  · rename_i j hfirst
    obtain ⟨hj, hleast⟩ := firstToEnd?_eq_some hfirst
    simp only at h
    split at h
    · cases h
    · rename_i hdue
      split at h
      · cases h
      · rename_i hd
        split at h
        · cases h
        · rename_i hp
          refine ⟨hd, fun k hk => by have := hleast k hk; omega, ?_⟩
          intro k hk hfirst
          rw [Nat.le_antisymm (hfirst j hj) (hleast k hk)]
          simpa using hp

theorem turns_of_step? (h : e.step? patient = some e') : Turns e e' := by
  obtain ⟨j, hj, -, hdue, rfl⟩ | hd | ⟨j, hj, -, hlater, -, rfl⟩ := step?_eq_some h
  · exact .single (.finish hj hdue)
  · exact .single (.dispatch hd)
  · refine .tail (.single (.pass (Nat.le_of_lt hlater))) (.finish hj ?_)
    exact Nat.le_of_eq (endOf_pass hlater (e.endOf j))

theorem run_turns (patient : Engine → Nat → Bool) (room : Nat) :
    ∀ e : Engine, Turns e (run patient room e) := by
  induction room with
  | zero => exact fun e => .refl
  | succ room ih =>
    intro e
    rw [run]
    split
    · rename_i e' h
      exact (turns_of_step? h).trans (ih e')
    · exact .refl

theorem settle_turns (e : Engine) : Turns e e.settle := run_turns _ _ e

theorem advanceTo_turns (e : Engine) (time : Nat) : Turns e (e.advanceTo time) :=
  (run_turns _ _ e).tail (.pass (Nat.le_max_left _ _))

theorem poll_turns (id : Uuid) (deadline : Nat) (times : Nat) :
    ∀ e : Engine, Turns e (poll id deadline times e).2 := by
  induction times with
  | zero => exact fun e => .refl
  | succ times ih =>
    intro e
    rw [poll]
    split
    · exact .refl
    · split
      · exact .refl
      · exact (advanceTo_turns e _).trans (ih _)

theorem wait_turns (e : Engine) (id : Uuid) (maxMs : Nat) : Turns e (e.wait id maxMs).2 :=
  poll_turns id _ _ e

/-- To drain an engine, let all workers go, and then let it run. -/
theorem drain_turns (e : Engine) : Turns { e with pool := e.pool.map Pool.retire } e.drain := by
  unfold drain
  simp only
  split
  · exact run_turns _ _ _
  · exact (run_turns _ _ _).tail (.pass (Nat.le_max_left _ _))

/-- A report changes the store, the counters and the events only. -/
theorem report_frame (e : Engine) (change : Option (RequestRecord × Store)) :
    ∃ store statistics events,
      e.report change = { e with store := store, statistics := statistics, events := events } := by
  cases change with
  | none => exact ⟨_, _, _, rfl⟩
  | some change => exact ⟨_, _, _, rfl⟩

theorem fail_frame (e : Engine) (id : Uuid) (kind : FailureKind) (message : String) :
    ∃ store statistics events, e.fail id kind message =
      { e with store := store, statistics := statistics, events := events } :=
  report_frame e _

theorem conclude_frame (e : Engine) (j : Job) :
    ∃ store statistics events,
      e.conclude j = { e with store := store, statistics := statistics, events := events } := by
  unfold conclude
  simp only
  split
  · exact ⟨_, _, _, rfl⟩
  · split <;> exact report_frame e _

theorem length_jobs_finish {p : Pool} (hj : j ∈ p.jobs) :
    (p.finish j).jobs.length < p.jobs.length := by
  have shorter : ∀ {l : List Job}, (∃ k ∈ l, k.token = j.token) →
      (l.filter (·.token ≠ j.token)).length < l.length := by
    rintro l ⟨k, hk, ht⟩
    exact List.length_filter_lt_length_iff_exists.2 ⟨k, hk, by simp [ht]⟩
  unfold Pool.finish
  split
  · rename_i hbusy
    obtain ⟨k, hk, ht⟩ := List.any_eq_true.1 hbusy
    have := shorter ⟨k, hk, of_decide_eq_true ht⟩
    simp only [Pool.jobs, List.length_append]
    omega
  · rename_i hbusy
    have hretired : j ∈ p.retired := by
      refine (List.mem_append.1 hj).resolve_left fun hmem => hbusy ?_
      exact List.any_eq_true.2 ⟨j, hmem, by simp⟩
    have := shorter ⟨j, hretired, rfl⟩
    simp only [Pool.jobs, List.length_append]
    omega

theorem work_finish (hj : j ∈ e.jobs) : (e.finish j).work < e.work := by
  obtain ⟨p, hp⟩ := exists_pool hj
  obtain ⟨_, _, _, h⟩ := conclude_frame { e with pool := e.pool.map (·.finish j) } j
  rw [jobs_of_pool hp] at hj
  have hless := length_jobs_finish hj
  rw [Engine.finish, h]
  simp only [work, jobs, hp, Option.map_some, Option.getD_some]
  omega

theorem work_dispatch (h : e.dispatch? = some e') : e'.work < e.work := by
  obtain ⟨p, w, id, queue, hpool, -, hpop, hcases⟩ := dispatch?_eq_some h
  have hsize : e.queue.size = queue.size + 1 := by
    simp [WorkQueue.size, pop?_eq_some hpop]
  have hjobs := jobs_of_pool hpool
  have hrotate : ∀ {store : Store} {message : String},
      ((e.begun id w queue store p.rotate).fail id .failed message).work < e.work := by
    intro store message
    obtain ⟨_, _, _, hfail⟩ := fail_frame (e.begun id w queue store p.rotate) id .failed message
    rw [hfail]
    simp only [work, hjobs, hsize]
    simp only [begun, jobs, Option.map_some, Option.getD_some, Pool.rotate, Pool.jobs]
    omega
  cases hcases with
  | stale _ =>
    simp only [work, hsize]
    simp only [jobs]
    omega
  | @called r token _ a _ _ _ =>
    have hassign := (Pool.jobs_assign p
      ⟨w, r, token, a.call r.function r.parameters, e.clock⟩).length_eq
    rw [List.length_cons] at hassign
    simp only [work, hjobs, hsize]
    simp only [begun, jobs, Option.map_some, Option.getD_some]
    omega
  | unknown _ _ => exact hrotate
  | resting _ _ _ => exact hrotate

theorem work_step? (h : e.step? patient = some e') : e'.work < e.work := by
  obtain ⟨j, hj, -, -, rfl⟩ | hd | ⟨j, hj, -, -, -, rfl⟩ := step?_eq_some h
  · exact work_finish hj
  · exact work_dispatch hd
  · exact work_finish (e := { e with clock := e.endOf j }) hj

/-- A run with room for all that can happen stops because nothing more happens. -/
theorem run_rests (patient : Engine → Nat → Bool) (room : Nat) : ∀ e : Engine, e.work ≤ room →
    (run patient room e).step? (patient (run patient room e)) = none := by
  induction room with
  | zero =>
    intro e hwork
    rw [run]
    cases h : e.step? (patient e) with
    | none => rfl
    | some e' => exact absurd (work_step? h) (by omega)
  | succ room ih =>
    intro e hwork
    rw [run]
    split
    · rename_i e' h
      exact ih e' (by have := work_step? h; omega)
    · assumption

/-- Room beyond that makes no difference. -/
theorem run_eq_of_work_le (patient : Engine → Nat → Bool) (room : Nat) : ∀ e : Engine,
    e.work ≤ room → run patient room e = run patient e.work e := by
  have key : ∀ (room bound : Nat) (e : Engine), e.work ≤ bound → bound ≤ room →
      run patient room e = run patient bound e := by
    intro room
    induction room with
    | zero =>
      intro bound e _ hle
      rw [Nat.le_zero.1 hle]
    | succ room ih =>
      intro bound e hwork hle
      cases hs : e.step? (patient e) with
      | none => cases bound <;> simp [run, hs]
      | some e' =>
        have hless := work_step? hs
        cases bound with
        | zero => omega
        | succ bound =>
          simp only [run, hs]
          exact ih bound e' (by omega) (by omega)
  exact fun e hwork => key room e.work e (Nat.le_refl _) hwork

/-- Nothing more happens without someone opening a gate or passing a command. -/
def AtRest (e : Engine) : Prop := e.step? (fun _ => e.jobs.any e.isRestless) = none

theorem settle_atRest (e : Engine) : e.settle.AtRest := run_rests _ _ e (Nat.le_refl _)

theorem AtRest.settle (h : e.AtRest) : e.settle = e := by
  have hstop : ∀ room, run (fun e _ => e.jobs.any e.isRestless) room e = e := by
    intro room
    cases room with
    | zero => rfl
    | succ room =>
      rw [run]
      split
      · rename_i hs
        rw [show e.step? (fun _ => e.jobs.any e.isRestless) = none from h] at hs
        cases hs
      · rfl
  exact hstop e.work

/-- Rest is a matter of the calls, of their gates and tokens, and of who waits. -/
theorem AtRest.of_eq (h : e.AtRest) (hp : e'.pool = e.pool)
    (hq : e'.queue.items = e.queue.items) (hc : e'.clock = e.clock)
    (hg : e'.openGates = e.openGates) (ht : e'.store.cancelled = e.store.cancelled) :
    e'.AtRest := by
  have hjobs : e'.jobs = e.jobs := by simp [jobs, hp]
  have hcancelled : ∀ j, e'.isCancelled j = e.isCancelled j := by
    intro j
    simp [isCancelled, Store.isCancelled, ht]
  have hend : ∀ j, e'.endOf j = e.endOf j := by
    intro j
    simp [endOf, isOpen, hcancelled, hc, hg]
  have hfirst : e'.firstToEnd? = e.firstToEnd? := by
    have hearlier : e'.earlier = e.earlier := by
      funext best j
      simp only [earlier, hend]
    rw [firstToEnd?_eq, firstToEnd?_eq, hjobs, hearlier]
  have hpatient : e'.jobs.any e'.isRestless = e.jobs.any e.isRestless := by
    have hrestless : e'.isRestless = e.isRestless := by
      funext j
      simp only [isRestless, hcancelled]
    rw [hjobs, hrestless]
  obtain ⟨hdispatch, hlater, -⟩ := step?_eq_none h
  have hdispatch' : e'.dispatch? = none := by
    rw [dispatch?_eq_none, hp, hq]
    exact dispatch?_eq_none.1 hdispatch
  unfold AtRest step? at h ⊢
  rw [hfirst, hpatient]
  cases hf : e.firstToEnd? with
  | none => exact hdispatch'
  | some j =>
    have hdue := hlater j (firstToEnd?_eq_some hf).1
    simp only [hf, if_neg (Nat.not_le.2 hdue), hdispatch] at h
    simp only [hend, hc, if_neg (Nat.not_le.2 hdue), hdispatch']
    split
    · rename_i hany
      simp [hany] at h
    · rfl

theorem atRest_of_stopped (h : e.pool = none) : e.AtRest := by
  have hfirst : e.firstToEnd? = none := firstToEnd?_eq_none.2 (jobs_of_stopped h)
  rw [AtRest, step?, hfirst]
  exact dispatch?_eq_none.2 (by simp [h])

end RequestEngine.Engine
