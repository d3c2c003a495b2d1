import RequestEngine.Proofs.Batches
import RequestEngine.Proofs.Punctual
import RequestEngine.Proofs.Verdict

/-! The ends of waits, on a clock that has a last second. A program run that waits ends in the
ordinary way if and only if the end of every wait that it begins can be told on the clock. The wait
is as long as the user says, so this is not always so. -/
namespace RequestEngine

namespace Engine

theorem clock_step?_le {e e' : Engine} {time : Nat}
    (h : e.step? (fun due => due ≤ time) = some e') : e'.clock ≤ max e.clock time := by
  obtain ⟨j, -, -, -, rfl⟩ | hd | ⟨j, -, -, -, hpatient, rfl⟩ := step?_eq_some h
  · rw [clock_finish]
    exact Nat.le_max_left _ _
  · rw [clock_dispatch hd]
    exact Nat.le_max_left _ _
  · rw [clock_finish]
    exact Nat.le_trans (of_decide_eq_true hpatient) (Nat.le_max_right _ _)

theorem clock_run_le (time room : Nat) :
    ∀ e : Engine, (run (fun _ due => due ≤ time) room e).clock ≤ max e.clock time := by
  induction room with
  | zero => exact fun e => Nat.le_max_left _ _
  | succ room ih =>
    intro e
    rw [run]
    split
    · rename_i e' hstep
      have hle := clock_step?_le hstep
      have hrest := ih e'
      omega
    · exact Nat.le_max_left _ _

theorem clock_advanceTo (e : Engine) (time : Nat) :
    (e.advanceTo time).clock = max e.clock time := by
  have hle := clock_run_le time e.work e
  have hge := (run_turns (fun _ due => due ≤ time) e.work e).clock_le
  change max (run (fun _ due => due ≤ time) e.work e).clock time = max e.clock time
  omega

theorem clock_poll_le (id : Uuid) (times : Nat) : ∀ (looks : Nat) (e : Engine),
    (poll id (e.clock + pollMs * looks) times e).2.clock ≤ e.clock + pollMs * looks := by
  induction times with
  | zero => exact fun looks e => Nat.le_add_right _ _
  | succ times ih =>
    intro looks e
    rw [poll]
    split
    · exact Nat.le_add_right _ _
    · split
      · exact Nat.le_add_right _ _
      · rename_i hgoesOn
        obtain _ | looks := looks
        · exact absurd (.inr (Nat.le_refl _)) hgoesOn
        · have hclock : (e.advanceTo (e.clock + pollMs)).clock = e.clock + pollMs := by
            rw [clock_advanceTo]
            omega
          have hrest := ih looks (e.advanceTo (e.clock + pollMs))
          rwa [hclock, Nat.add_assoc, Nat.add_comm pollMs, ← Nat.mul_succ] at hrest

theorem clock_wait_le (e : Engine) (id : Uuid) (looks : Nat) :
    (e.wait id (pollMs * looks)).2.clock ≤ e.clock + pollMs * looks := clock_poll_le id _ looks e

theorem clock_submit (e : Engine) (id : Uuid) (agent function : String) (parameters : Json)
    (timeout : Option UInt64) :
    (e.submit id agent function parameters timeout).2.clock = e.clock := by
  unfold Engine.submit
  split
  · rename_i he
    obtain ⟨-, -, -, rfl⟩ := enqueue_eq_ok he
    rfl
  · rfl

end Engine

namespace CommandLine

variable {s : Surroundings} {o : EngineOptions} {e : Engine} {ids : List Uuid}
  {agent function file : String} {parameters : Option String} {timeout : Option UInt64}
  {keep : UInt64} {entries : List BatchEntry} {table : FunctionTable} {args : List String}

/-- The end of a wait that begins at that time of a run can be told on the clock. -/
def Tellable (s : Surroundings) (o : EngineOptions) (time : Nat) : Prop :=
  s.uptimeSecs + time / 1000 + o.waitSecs.toNat ≤ maxClockSecs

theorem canWait_iff : canWait s e o.waitSecs ↔ Tellable s o e.clock := decide_eq_true_iff

/-- The times at which waits for requests begin that come one after the other. -/
def waitStarts (o : EngineOptions) : List Uuid → Engine → List Nat
  | [], _ => []
  | id :: rest, e => e.clock :: waitStarts o rest (e.wait id (waitMs o)).2

theorem length_waitStarts (o : EngineOptions) (ids : List Uuid) :
    ∀ e, (waitStarts o ids e).length = ids.length := by
  induction ids with
  | nil => exact fun _ => rfl
  | cons id ids ih => exact fun e => congrArg (· + 1) (ih _)

/-- Every wait takes as long as the user says, at most. -/
theorem waitStarts_le (o : EngineOptions) (ids : List Uuid) : ∀ {e : Engine} {i time : Nat},
    (waitStarts o ids e)[i]? = some time → time ≤ e.clock + i * waitMs o := by
  induction ids with
  | nil =>
    intro e i time h
    cases h
  | cons id ids ih =>
    intro e i time h
    cases i with
    | zero =>
      obtain rfl : e.clock = time := Option.some.inj h
      exact Nat.le_add_right _ _
    | succ i =>
      have hlooks : waitMs o = Engine.pollMs * (100 * o.waitSecs.toNat) := by
        rw [waitMs, Engine.pollMs, ← Nat.mul_assoc]
      have hwait := e.clock_wait_le id (100 * o.waitSecs.toNat)
      have hrest := ih (show (waitStarts o ids (e.wait id (waitMs o)).2)[i]? = some time from h)
      rw [hlooks] at hrest ⊢
      rw [Nat.succ_mul]
      omega

theorem waitForAll?_eq_none_iff (ids : List Uuid) : ∀ {e : Engine},
    waitForAll? s o ids e = none ↔ ∃ time ∈ waitStarts o ids e, ¬ Tellable s o time := by
  induction ids with
  | nil =>
    intro e
    simp [waitForAll?, waitStarts]
  | cons id ids ih =>
    intro e
    rw [waitForAll?]
    by_cases htellable : Tellable s o e.clock
    · rw [if_pos (canWait_iff.2 htellable), ih]
      simp [waitStarts, htellable]
    · rw [if_neg fun hcan => htellable (canWait_iff.1 hcan)]
      simp [waitStarts, htellable]

/-- A program run ends in the ordinary way. -/
def Exit.Ordinary (x : Exit) : Prop := x.status = 0 ∨ x.status = 1

/-- The request of a run is accepted, by an engine that then looks like this. -/
def Accepts (s : Surroundings) (agent function : String) (parameters : Option String)
    (timeout : Option UInt64) (o : EngineOptions) (e : Engine) : Prop :=
  ∃ table given,
    (parameters.map Json.parse).getD (.ok (.object [])) = .ok given ∧ tableFor s o = .ok table ∧
    (watched s o table).submit (requestId s 0) agent function given timeout =
      (.ok (requestId s 0), e)

structure RunEnds (s : Surroundings) (agent function : String) (parameters : Option String)
    (timeout : Option UInt64) (o : EngineOptions) (outcome : Outcome) : Prop where
  refused : (∀ e, ¬ Accepts s agent function parameters timeout o e) → outcome.exit.status = 1
  /-- A run in whose time the wait can end shows the document of its request. -/
  waits : ∀ e, Accepts s agent function parameters timeout o e →
    s.uptimeSecs + o.waitSecs.toNat ≤ maxClockSecs → outcome.exit.Ordinary ∧
      ∃ (shown : List String) (last : RequestRecord),
        outcome.printed = shown ++ ["", last.document.pretty] ∧
        last.id = requestId s 0 ∧ last.state.isTerminal
  breaks : ∀ e, Accepts s agent function parameters timeout o e →
    maxClockSecs < s.uptimeSecs + o.waitSecs.toNat → outcome.exit = .breakdown

theorem startEngine_eq_error {err : ConfigError} (h : tableFor s o = .error err) :
    ∃ f, startEngine s o = .error f := by
  unfold tableFor at h
  unfold startEngine
  cases ho : o.functions with
  | none =>
    rw [ho] at h
    cases h
  | some path =>
    rw [ho] at h
    have hfile : FunctionTable.ofFile path (s.read path) = .error err := h
    simp only [hfile]
    exact ⟨_, rfl⟩

theorem Accepts.clock (h : Accepts s agent function parameters timeout o e) : e.clock = 0 := by
  obtain ⟨table, given, -, -, hsubmit⟩ := h
  have hclock := (watched s o table).clock_submit (requestId s 0) agent function given timeout
  rw [hsubmit] at hclock
  exact hclock

theorem Accepts.tellable_iff (h : Accepts s agent function parameters timeout o e) :
    Tellable s o e.clock ↔ s.uptimeSecs + o.waitSecs.toNat ≤ maxClockSecs := by
  rw [h.clock, Tellable, Nat.zero_div, Nat.add_zero]

theorem runRequest_refused (h : ∀ e, ¬ Accepts s agent function parameters timeout o e) :
    ∃ f, (runRequest s agent function parameters timeout o).exit = .failure f := by
  unfold runRequest
  cases hgiven : (parameters.map Json.parse).getD (.ok (.object [])) with
  | error err => exact ⟨_, rfl⟩
  | ok given =>
    dsimp only
    cases htable : tableFor s o with
    | error err =>
      obtain ⟨f, hstart⟩ := startEngine_eq_error htable
      rw [hstart]
      exact ⟨_, rfl⟩
    | ok table =>
      rw [startEngine_eq_ok htable]
      dsimp only
      rw [← watched]
      cases hanswer :
        ((watched s o table).submit (requestId s 0) agent function given timeout).1 with
      | error reason =>
        rw [Engine.submit_eq_error hanswer]
        exact ⟨_, rfl⟩
      | ok id =>
        obtain ⟨e, -, hsubmit⟩ := Engine.submit_eq_ok hanswer
        exact absurd ⟨table, given, hgiven, htable, hsubmit⟩ (h e)

theorem Accepts.runRequest_breakdown (h : Accepts s agent function parameters timeout o e)
    (hlate : ¬ Tellable s o e.clock) :
    (runRequest s agent function parameters timeout o).exit = .breakdown := by
  obtain ⟨table, given, hgiven, htable, hsubmit⟩ := h
  rw [watched] at hsubmit
  unfold runRequest
  rw [hgiven]
  dsimp only
  rw [startEngine_eq_ok htable]
  dsimp only
  rw [hsubmit]
  dsimp only
  rw [if_pos (by simpa using fun hcan => hlate (canWait_iff.1 hcan))]

theorem Accepts.runRequest_shows (h : Accepts s agent function parameters timeout o e)
    (htellable : Tellable s o e.clock) :
    (runRequest s agent function parameters timeout o).exit.Ordinary ∧
      ∃ (shown : List String) (last : RequestRecord),
        (runRequest s agent function parameters timeout o).printed =
          shown ++ ["", last.document.pretty] ∧
        last.id = requestId s 0 ∧ last.state.isTerminal := by
  have hawaits : Awaits s agent function parameters timeout o e := ⟨h, canWait_iff.2 htellable⟩
  obtain ⟨log, r, hundisturbed, hrunning, hr, hid⟩ := hawaits.alone
  obtain ⟨e', seen, last, hwait, -, hended, hlast⟩ :=
    hundisturbed.wait_and_stop hrunning hr (waitMs o) catchUpMs
  rw [hid] at hwait hlast
  rw [hawaits.run_eq hwait hlast]
  refine ⟨?_, _, last, rfl, Store.get?_id hlast, hended⟩
  by_cases hc : seen.state = .completed
  · exact .inl (by rw [if_pos hc]; rfl)
  · exact .inr (by rw [if_neg hc]; rfl)

theorem runEnds (s : Surroundings) (agent function : String) (parameters : Option String)
    (timeout : Option UInt64) (o : EngineOptions) : RunEnds s agent function parameters timeout o
      (runRequest s agent function parameters timeout o) where
  refused h := by
    obtain ⟨f, hf⟩ := runRequest_refused h
    rw [hf]
    rfl
  waits e h hfits := h.runRequest_shows (h.tellable_iff.2 hfits)
  breaks e h hlate := h.runRequest_breakdown fun hfits => by
    have hle := h.tellable_iff.1 hfits
    omega

/-- The times at which the waits of a batch run begin. -/
def batchWaits (s : Surroundings) (o : EngineOptions) (table : FunctionTable)
    (entries : List BatchEntry) : List Nat :=
  waitStarts o (submitAll s o table entries).submitted (submitAll s o table entries).engine

structure BatchEnds (s : Surroundings) (file : String) (o : EngineOptions) (outcome : Outcome) :
    Prop where
  refused : (∀ entries table, readBatch s file = .ok entries → tableFor s o ≠ .ok table) →
    outcome.exit.status = 1
  waits : ∀ entries table, readBatch s file = .ok entries → tableFor s o = .ok table →
    (outcome.exit = .success ↔ ∀ time ∈ batchWaits s o table entries, Tellable s o time)
  breaks : ∀ entries table, readBatch s file = .ok entries → tableFor s o = .ok table →
    (outcome.exit = .breakdown ↔ ∃ time ∈ batchWaits s o table entries, ¬ Tellable s o time)
  /-- There is one wait for each accepted entry, and none begins later than those before it can have
  taken. -/
  begins : ∀ entries table,
    (batchWaits s o table entries).length = (submitAll s o table entries).submitted.length ∧
      ∀ i time, (batchWaits s o table entries)[i]? = some time → time ≤ i * waitMs o
  /-- A batch with time for all its waits ends in the ordinary way. -/
  enough : ∀ entries table, readBatch s file = .ok entries → tableFor s o = .ok table →
    s.uptimeSecs + (submitAll s o table entries).submitted.length * o.waitSecs.toNat ≤
      maxClockSecs → outcome.exit = .success
  /-- A batch without time for its first wait breaks down. -/
  atOnce : ∀ entries table, readBatch s file = .ok entries → tableFor s o = .ok table →
    (submitAll s o table entries).submitted ≠ [] →
      maxClockSecs < s.uptimeSecs + o.waitSecs.toNat → outcome.exit = .breakdown

theorem runBatch_refused (keep : UInt64)
    (h : ∀ entries table, readBatch s file = .ok entries → tableFor s o ≠ .ok table) :
    ∃ f, (runBatch s file keep o).exit = .failure f := by
  unfold runBatch
  cases hread : readBatch s file with
  | error f => exact ⟨_, rfl⟩
  | ok entries =>
    cases htable : tableFor s o with
    | error err =>
      obtain ⟨f, hstart⟩ := startEngine_eq_error htable
      dsimp only
      rw [hstart]
      exact ⟨_, rfl⟩
    | ok table => exact absurd htable (h entries table hread)

/-- Once a batch run has begun to submit, it breaks down or succeeds. -/
theorem runBatch_exit (keep : UInt64) (hread : readBatch s file = .ok entries)
    (htable : tableFor s o = .ok table) : (runBatch s file keep o).exit =
      match waitForAll? s o (submitAll s o table entries).submitted
        (submitAll s o table entries).engine with
      | none => .breakdown
      | some _ => .success := by
  unfold runBatch
  rw [hread]
  dsimp only
  rw [startEngine_eq_ok htable]
  dsimp only
  unfold runEntries
  rw [← submitAll]
  dsimp only
  cases waitForAll? s o (submitAll s o table entries).submitted
    (submitAll s o table entries).engine <;> rfl

theorem engine_submit (s : Surroundings) (p : BatchProgress) (b : BatchEntry) :
    (p.submit s b).engine = (p.engine.submit (requestId s p.submitted.length) b.agent b.function
      b.givenParameters b.timeout).2 := by
  unfold BatchProgress.submit
  dsimp only
  generalize p.engine.submit (requestId s p.submitted.length) b.agent b.function
    b.givenParameters b.timeout = answer
  obtain ⟨_ | _, e⟩ := answer <;> rfl

theorem clock_submitAll (s : Surroundings) (o : EngineOptions) (table : FunctionTable)
    (entries : List BatchEntry) : (submitAll s o table entries).engine.clock = 0 := by
  have key : ∀ (entries : List BatchEntry) (p : BatchProgress),
      (entries.foldl (BatchProgress.submit s) p).engine.clock = p.engine.clock := by
    intro entries
    induction entries with
    | nil => exact fun _ => rfl
    | cons b entries ih =>
      intro p
      rw [List.foldl_cons, ih, engine_submit, Engine.clock_submit]
  exact key entries _

theorem batchWaits_le (s : Surroundings) (o : EngineOptions) (table : FunctionTable)
    (entries : List BatchEntry) {i time : Nat}
    (h : (batchWaits s o table entries)[i]? = some time) : time ≤ i * waitMs o := by
  have hle := waitStarts_le o _ h
  rwa [clock_submitAll, Nat.zero_add] at hle

/-- With time for all waits, one after the other, there is time for each of them. -/
theorem tellable_of_enough (hfits : s.uptimeSecs +
      (submitAll s o table entries).submitted.length * o.waitSecs.toNat ≤ maxClockSecs) :
    ∀ time ∈ batchWaits s o table entries, Tellable s o time := by
  intro time htime
  obtain ⟨i, hi⟩ := List.mem_iff_getElem?.1 htime
  have hlt : i < (submitAll s o table entries).submitted.length := by
    have hlt := (List.getElem?_eq_some_iff.1 hi).1
    rwa [batchWaits, length_waitStarts] at hlt
  have hsecs : time / 1000 ≤ i * o.waitSecs.toNat := by
    refine Nat.div_le_of_le_mul ?_
    have hle := batchWaits_le s o table entries hi
    rwa [waitMs, Nat.mul_left_comm] at hle
  have hall : (i + 1) * o.waitSecs.toNat ≤
      (submitAll s o table entries).submitted.length * o.waitSecs.toNat :=
    Nat.mul_le_mul_right _ hlt
  rw [Nat.succ_mul] at hall
  unfold Tellable
  omega

theorem batchEnds (s : Surroundings) (file : String) (keep : UInt64) (o : EngineOptions) :
    BatchEnds s file o (runBatch s file keep o) := by
  have hbreaks : ∀ entries table, readBatch s file = .ok entries → tableFor s o = .ok table →
      ((runBatch s file keep o).exit = .breakdown ↔
        ∃ time ∈ batchWaits s o table entries, ¬ Tellable s o time) := by
    intro entries table hread htable
    rw [runBatch_exit keep hread htable, batchWaits, ← waitForAll?_eq_none_iff]
    split <;> simp_all
  have hwaits : ∀ entries table, readBatch s file = .ok entries → tableFor s o = .ok table →
      ((runBatch s file keep o).exit = .success ↔
        ∀ time ∈ batchWaits s o table entries, Tellable s o time) := by
    intro entries table hread htable
    have hnone := hbreaks entries table hread htable
    rw [runBatch_exit keep hread htable] at hnone ⊢
    split at hnone <;> simp_all
  refine ⟨fun h => ?_, hwaits, hbreaks, fun entries table => ⟨length_waitStarts .., fun i time h =>
    batchWaits_le s o table entries h⟩, ?_, ?_⟩
  · obtain ⟨f, hf⟩ := runBatch_refused keep h
    rw [hf]
    rfl
  · intro entries table hread htable hfits
    exact (hwaits entries table hread htable).2 (tellable_of_enough hfits)
  · intro entries table hread htable hne hlate
    obtain ⟨id, ids, hids⟩ := List.exists_cons_of_ne_nil hne
    refine (hbreaks entries table hread htable).2
      ⟨(submitAll s o table entries).engine.clock, ?_, ?_⟩
    · rw [batchWaits, hids]
      exact List.mem_cons_self
    · rw [clock_submitAll, Tellable, Nat.zero_div]
      omega

/-- How the program ends where it needs an engine, for all numbers of seconds to wait and whatever
else the arguments say. -/
structure Concludes (s : Surroundings) (args : List String) : Prop where
  run : ∀ agent function parameters timeout o,
    Invocation.read args = .ok (.run agent function parameters timeout o) →
      RunEnds s agent function parameters timeout o (outcome s args)
  batch : ∀ file keep o, Invocation.read args = .ok (.batch file keep o) →
    BatchEnds s file o (outcome s args)

theorem ordinary_iff_waits_tellable (s : Surroundings) (args : List String) : Concludes s args where
  run agent function parameters timeout o hread := by
    rw [outcome, hread]
    exact runEnds s agent function parameters timeout o
  batch file keep o hread := by
    rw [outcome, hread]
    exact batchEnds s file keep o

/-- A file with one request. -/
def lone : Surroundings where
  read path :=
    if path = "b.json" then
      .ok "[\x7b\"agent\": \"echo\", \"function\": \"echo\"\x7d]".toUTF8
    else .error .notFound
  obstacle _ := none
  ids n := .ofNat (n + 1)
  uptimeSecs := 0

/-- The usual options, but for the longest wait. -/
def patient : EngineOptions := ⟨none, 4, 100, 30000, 18446744073709551615⟩

def patientBatch : List String :=
  ["batch", "--file", "b.json", "--wait-secs", "18446744073709551615"]

def patientRun : List String :=
  ["run", "--agent", "echo", "--function", "echo", "--wait-secs", "18446744073709551615"]

/-- The longest wait that can be asked for ends beyond the clock, even if the clock has just
begun. -/
theorem breakdown_of_longest_wait :
    (Invocation.read patientBatch).toOption = some (.batch "b.json" 100 patient) ∧
    (outcome lone patientBatch).exit = .breakdown ∧ ¬ (outcome lone patientBatch).exit.Ordinary ∧
    (Invocation.read patientRun).toOption = some (.run "echo" "echo" none none patient) ∧
    (outcome lone patientRun).exit = .breakdown ∧ ¬ (outcome lone patientRun).exit.Ordinary := by
  have hbatch : (outcome lone patientBatch).exit = .breakdown := by decide +kernel
  have hrun : (outcome lone patientRun).exit = .breakdown := by decide +kernel
  have hstatus : ¬ Exit.breakdown.Ordinary := by
    rintro (h | h) <;> cases h
  exact ⟨by decide +kernel, hbatch, hbatch ▸ hstatus, by decide +kernel, hrun, hrun ▸ hstatus⟩

end CommandLine

end RequestEngine
