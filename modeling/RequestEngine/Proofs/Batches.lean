import RequestEngine.Proofs.Launch
import RequestEngine.Proofs.Roll

/-! What a batch run says of its entries. Each of them is refused for a reason that can be read off
it, or becomes a request; if all requests end within the waits, the list and the status at the end
account for every one of them. -/
namespace RequestEngine

open Ledger (submitted)

namespace CommandLine

namespace BatchEntry

variable {table : FunctionTable} {b : BatchEntry}

/-- Why an entry is refused as long as there is room in the queue: its agent is none of the standard
ones, or a required parameter is missing. -/
def refusal? (table : FunctionTable) (b : BatchEntry) : Option Rejection :=
  if b.agent ∈ agentNames then
    (table.missingParameter? b.function b.givenParameters).map (.missingParameter b.agent b.function)
  else some (.unknownAgent b.agent)

def refusalLine? (table : FunctionTable) (b : BatchEntry) : Option String :=
  (b.refusal? table).map fun reason =>
    "  ⚠️  " ++ b.agent ++ "." ++ b.function ++ " rejected: " ++ reason.message

/-- A record is that of a request for an entry. -/
structure Asks (o : EngineOptions) (table : FunctionTable) (b : BatchEntry) (r : RequestRecord) :
    Prop where
  agent : r.agent = b.agent
  function : r.function = b.function
  parameters : r.parameters = b.givenParameters
  timeout : r.timeout = b.timeout.getD (table.timeout b.function o.defaultTimeoutMs)

theorem Asks.becomes {o : EngineOptions} {r r' : RequestRecord} (h : b.Asks o table r)
    (hbecomes : r.Becomes r') : b.Asks o table r' where
  agent := hbecomes.agent.trans h.agent
  function := hbecomes.function.trans h.function
  parameters := hbecomes.parameters.trans h.parameters
  timeout := hbecomes.timeout.trans h.timeout

theorem submit_fst {s : Surroundings} {e : Engine} (hregistry : e.registry = builtinRegistry s.ids)
    (hfunctions : e.functions = table) (hroom : e.queue.items.length < e.queue.capacity)
    (hids : (agentIds s).Nodup) (hagent : ∀ id ∈ agentIds s, Uuid.parse? b.agent ≠ some id)
    (id : Uuid) : (e.submit id b.agent b.function b.givenParameters b.timeout).1 =
      match b.refusal? table with
      | some reason => .error reason
      | none => .ok id := by
  have hknown := isSome_resolve?_builtin hids hagent
  rw [Engine.submit_fst, hregistry, hfunctions, if_neg (Nat.not_le.2 hroom), refusal?]
  by_cases h : b.agent ∈ agentNames
  · rw [if_pos (hknown.2 h), if_pos h]
    cases table.missingParameter? b.function b.givenParameters <;> rfl
  · rw [if_neg fun hsome => h (hknown.1 hsome), if_neg h]

end BatchEntry

/-- The entries that become requests. -/
def admitted (table : FunctionTable) (entries : List BatchEntry) : List BatchEntry :=
  entries.filter fun b => (b.refusal? table).isNone

def refusalLines (table : FunctionTable) (entries : List BatchEntry) : List String :=
  entries.filterMap (·.refusalLine? table)

theorem admitted_concat (table : FunctionTable) (entries : List BatchEntry) (b : BatchEntry) :
    admitted table (entries ++ [b]) =
      admitted table entries ++ (if (b.refusal? table).isNone then [b] else []) := by
  rw [admitted, List.filter_append]
  cases h : (b.refusal? table).isNone <;> simp [h, admitted]

theorem refusalLines_concat (table : FunctionTable) (entries : List BatchEntry) (b : BatchEntry) :
    refusalLines table (entries ++ [b]) =
      refusalLines table entries ++ (b.refusalLine? table).toList := by
  rw [refusalLines, List.filterMap_append]
  cases h : b.refusalLine? table <;> simp [h, refusalLines]

/-- What a batch run finds is as it should be: no two of the identifiers that it uses are the same,
and nobody has guessed that of a standard agent. -/
structure Surroundings.Fresh (s : Surroundings) (entries : List BatchEntry) : Prop where
  distinct : ((List.range (builtinAgents.length + entries.length)).map s.ids).Nodup
  unguessed : ∀ b ∈ entries, ∀ id ∈ agentIds s, Uuid.parse? b.agent ≠ some id

variable {s : Surroundings} {o : EngineOptions} {table : FunctionTable}
  {entries done : List BatchEntry} {b : BatchEntry} {p : BatchProgress} {e : Engine}

theorem Surroundings.Fresh.agents (h : s.Fresh entries) : (agentIds s).Nodup := by
  have hsublist : (List.range 3).Sublist (List.range (builtinAgents.length + entries.length)) :=
    List.range_sublist.2 (Nat.le_add_right _ _)
  exact (hsublist.map s.ids).nodup h.distinct

theorem Surroundings.Fresh.requests (h : s.Fresh entries) :
    ((List.range entries.length).map (requestId s)).Nodup := by
  refine List.Nodup.map_on (fun i hi j hj heq => ?_) List.nodup_range
  have hsame := List.inj_on_of_nodup_map h.distinct (x := builtinAgents.length + i)
    (y := builtinAgents.length + j) (List.mem_range.2 (by have := List.mem_range.1 hi; omega))
    (List.mem_range.2 (by have := List.mem_range.1 hj; omega)) heq
  omega

/-- Some entries have been submitted to an engine that was just started. -/
structure Submitting (s : Surroundings) (o : EngineOptions) (table : FunctionTable)
    (done : List BatchEntry) (p : BatchProgress) : Prop where
  undisturbed : ∃ log, p.engine.Undisturbed log ∧ submitted log = p.submitted
  settings : p.engine.settings = (launched s o table).settings
  submitted : p.submitted = (List.range (admitted table done).length).map (requestId s)
  records : List.Forall₂ (BatchEntry.Asks o table) (admitted table done) p.engine.store.records
  ids : p.engine.store.records.map (·.id) = p.submitted
  waiting : p.engine.queue.items = p.submitted
  refusals : p.refusals = refusalLines table done
  rejected : p.engine.statistics.rejected = p.refusals.length

theorem Submitting.registry (h : Submitting s o table done p) :
    p.engine.registry = builtinRegistry s.ids := congrArg Settings.registry h.settings

theorem Submitting.functions (h : Submitting s o table done p) : p.engine.functions = table :=
  congrArg Settings.functions h.settings

theorem Submitting.capacity (h : Submitting s o table done p) :
    p.engine.queue.capacity = o.queueSize.toNat := congrArg Settings.capacity h.settings

theorem Submitting.defaultTimeout (h : Submitting s o table done p) :
    p.engine.defaultTimeout = o.defaultTimeoutMs := congrArg Settings.defaultTimeout h.settings

theorem Submitting.refuse (h : Submitting s o table done p) {reason : Rejection}
    (hrefusal : b.refusal? table = some reason)
    (hsubmit : (p.engine.submit (requestId s p.submitted.length) b.agent b.function
      b.givenParameters b.timeout).1 = .error reason) :
    Submitting s o table (done ++ [b]) (p.submit s b) := by
  obtain ⟨log, hundisturbed, hlog⟩ := h.undisturbed
  have hadmitted : admitted table (done ++ [b]) = admitted table done := by
    simp [admitted_concat, hrefusal]
  have hlines : refusalLines table (done ++ [b]) = refusalLines table done ++
      ["  ⚠️  " ++ b.agent ++ "." ++ b.function ++ " rejected: " ++ reason.message] := by
    simp [refusalLines_concat, BatchEntry.refusalLine?, hrefusal]
  have hengine : p.submit s b = ⟨{ p.engine with
      statistics := p.engine.statistics.recordRejected }, p.submitted, p.refusals ++
      ["  ⚠️  " ++ b.agent ++ "." ++ b.function ++ " rejected: " ++ reason.message]⟩ := by
    unfold BatchProgress.submit
    dsimp only
    rw [Engine.submit_eq_error hsubmit]
  rw [hengine]
  refine ⟨⟨log, hundisturbed.of_eq 1 rfl rfl rfl rfl rfl rfl, hlog⟩, h.settings,
    ?_, ?_, h.ids, h.waiting, ?_, ?_⟩
  · rw [hadmitted]
    exact h.submitted
  · rw [hadmitted]
    exact h.records
  · rw [hlines, ← h.refusals]
  · simp [Statistics.recordRejected, h.rejected]

theorem Submitting.accept (h : Submitting s o table done p) (hrefusal : b.refusal? table = none)
    (hsubmit : (p.engine.submit (requestId s p.submitted.length) b.agent b.function
      b.givenParameters b.timeout).1 = .ok (requestId s p.submitted.length))
    (hnew : requestId s p.submitted.length ∉ p.submitted) :
    Submitting s o table (done ++ [b]) (p.submit s b) := by
  obtain ⟨log, hundisturbed, hlog⟩ := h.undisturbed
  have hadmitted : admitted table (done ++ [b]) = admitted table done ++ [b] := by
    simp [admitted_concat, hrefusal]
  have hlines : refusalLines table (done ++ [b]) = refusalLines table done := by
    simp [refusalLines_concat, BatchEntry.refusalLine?, hrefusal]
  have hlength : p.submitted.length = (admitted table done).length := by simp [h.submitted]
  obtain ⟨e', he, hsubmit⟩ := Engine.submit_eq_ok hsubmit
  have hengine : p.submit s b =
      ⟨e', p.submitted ++ [requestId s p.submitted.length], p.refusals⟩ := by
    unfold BatchProgress.submit
    dsimp only
    rw [hsubmit]
  have hsettings := Engine.settings_submit p.engine (requestId s p.submitted.length) b.agent
    b.function b.givenParameters b.timeout
  rw [hsubmit] at hsettings
  obtain ⟨hundisturbed', hrecords⟩ := hundisturbed.enqueue (hlog ▸ hnew) he
  obtain ⟨-, -, -, rfl⟩ := Engine.enqueue_eq_ok he
  rw [hengine]
  refine ⟨⟨_, hundisturbed', by simp [hlog]⟩, hsettings.trans h.settings, ?_, ?_, ?_, ?_, ?_,
    h.rejected⟩
  · rw [hadmitted, List.length_append, List.length_singleton, List.range_succ, List.map_append,
      ← h.submitted, hlength]
    rfl
  · rw [hadmitted, hrecords]
    refine List.rel_append h.records (.cons ⟨rfl, rfl, rfl, ?_⟩ .nil)
    simp only [RequestRecord.new, Engine.timeoutFor, h.functions, h.defaultTimeout]
  · rw [hrecords, List.map_append, h.ids]
    rfl
  · exact congrArg (· ++ [requestId s p.submitted.length]) h.waiting
  · rw [hlines]
    exact h.refusals

/-- The next entry. As long as there are fewer requests than places in the queue there is room. -/
theorem Submitting.next (h : Submitting s o table done p) (hfresh : s.Fresh entries)
    (hbegin : done ++ [b] <+: entries) (hroom : entries.length ≤ o.queueSize.toNat) :
    Submitting s o table (done ++ [b]) (p.submit s b) := by
  have hlength : p.submitted.length = (admitted table done).length := by simp [h.submitted]
  have hless : (admitted table done).length < entries.length := by
    have hdone : (admitted table done).length ≤ done.length := List.length_filter_le _ _
    have hall := hbegin.length_le
    rw [List.length_append, List.length_singleton] at hall
    omega
  have hmem : b ∈ entries := hbegin.subset (by simp)
  have hsubmit := BatchEntry.submit_fst (b := b) h.registry h.functions
    (by rw [h.waiting, h.capacity, hlength]; omega) hfresh.agents (hfresh.unguessed b hmem)
    (requestId s p.submitted.length)
  cases hrefusal : b.refusal? table with
  | some reason =>
    rw [hrefusal] at hsubmit
    exact h.refuse hrefusal hsubmit
  | none =>
    rw [hrefusal] at hsubmit
    refine h.accept hrefusal hsubmit ?_
    rw [hlength, h.submitted]
    have hrequests : ((List.range ((admitted table done).length + 1)).map (requestId s)).Nodup :=
      ((List.range_sublist.2 hless).map _).nodup hfresh.requests
    rw [List.range_succ, List.map_append, List.nodup_append] at hrequests
    intro hold
    exact hrequests.2.2 _ hold _ (by simp) rfl

def submitAll (s : Surroundings) (o : EngineOptions) (table : FunctionTable)
    (entries : List BatchEntry) : BatchProgress :=
  entries.foldl (BatchProgress.submit s) ⟨launched s o table, [], []⟩

theorem waitForAll?_turns (ids : List Uuid) : ∀ {e e' : Engine},
    waitForAll? s o ids e = some e' → Engine.Turns e e' := by
  induction ids with
  | nil =>
    intro e e' h
    rw [Option.some.inj h]
    exact .refl
  | cons id ids ih =>
    intro e e' h
    rw [waitForAll?] at h
    split at h
    · exact (Engine.wait_turns e id (waitMs o)).trans (ih h)
    · cases h

/-- The waits can be told on the clock, and when they are over every request has ended. -/
structure Finishes (s : Surroundings) (o : EngineOptions) (p : BatchProgress) (e : Engine) :
    Prop where
  waited : waitForAll? s o p.submitted p.engine = some e
  ended : ∀ id ∈ p.submitted, ∃ r, e.status? id = some r ∧ r.state.isTerminal

/-- When the waits are over. -/
structure Waited (s : Surroundings) (o : EngineOptions) (table : FunctionTable)
    (entries : List BatchEntry) (e : Engine) : Prop where
  undisturbed : ∃ log, e.Undisturbed log
  records : List.Forall₂ (BatchEntry.Asks o table) (admitted table entries) e.store.records
  ids : e.store.records.map (·.id) =
    (List.range (admitted table entries).length).map (requestId s)
  ended : ∀ r ∈ e.store.records, r.state.isTerminal
  rejected : e.statistics.rejected = (refusalLines table entries).length

theorem Submitting.waited (h : Submitting s o table entries p) {e : Engine}
    (hfinishes : Finishes s o p e) : Waited s o table entries e := by
  obtain ⟨log, hundisturbed, -⟩ := h.undisturbed
  obtain ⟨new, helapses⟩ := hundisturbed.turns (waitForAll?_turns _ hfinishes.waited)
  refine ⟨⟨_, helapses.undisturbed⟩, ?_, ?_, ?_, ?_⟩
  · exact forall₂_comp h.records helapses.moves fun _ _ _ hasks hbecomes => hasks.becomes hbecomes
  · rw [RequestRecord.map_id_of_forall₂ helapses.moves, h.ids, h.submitted]
  · intro r hr
    obtain ⟨r₀, hr₀, hbecomes⟩ := exists_of_forall₂ helapses.moves hr
    have hid : r.id ∈ p.submitted := by
      rw [hbecomes.id, ← h.ids]
      exact List.mem_map_of_mem hr₀
    obtain ⟨r', hr', hended⟩ := hfinishes.ended r.id hid
    have hfound : e.status? r.id = some r :=
      (Store.get?_eq_some helapses.undisturbed.sound.store).2 ⟨hr, rfl⟩
    rwa [Option.some.inj (hfound.symm.trans hr')]
  · rw [helapses.rejected, h.rejected, h.refusals]

/-- What is left in the store after a stop and a cleanup. -/
structure Left (e : Engine) (keep : Nat) (e' : Engine) : Prop where
  stopped : e'.pool = none
  queue : e'.queue.items = []
  statistics : e'.statistics = e.statistics
  running : e'.store.count .running = 0
  size : e'.store.size = min keep e.store.records.length
  recent : e'.store.recent keep = e.store.records.reverse.take keep

theorem Waited.left (h : Waited s o table entries e) (keep : Nat) :
    Left e keep (e.stop.cleanup keep).2 := by
  obtain ⟨log, hundisturbed⟩ := h.undisturbed
  have hover : ∀ r ∈ e.store.records, r.state ≠ .running := by
    intro r hr hrun
    have hended := h.ended r hr
    rw [hrun] at hended
    cases hended
  have hstop := Engine.stop_of_idle (hundisturbed.jobs_eq_nil hover) hover
  have hitems : e.queue.items = [] := by
    rw [List.eq_nil_iff_forall_not_mem]
    intro id hid
    obtain ⟨r, hr, -, hpending⟩ := (hundisturbed.sound.ledger.waiting id).1 hid
    have hended := h.ended r hr
    rw [hpending] at hended
    cases hended
  have hmirrors : e.store.Mirrors (e.store.records.map (·.id)) ⟨e.store.records⟩ :=
    ⟨hundisturbed.sound.store, hundisturbed.regular.listed, rfl, fun _ hr => List.mem_map_of_mem hr⟩
  have halike := (hmirrors.cleanup keep).2.alike
  have hkept := Roll.cleanup_of_ended (l := ⟨e.store.records⟩) keep h.ended
  rw [hstop]
  refine ⟨rfl, hitems, rfl, ?_, ?_, ?_⟩
  · refine (halike.count .running).trans ?_
    rw [Roll.count, hkept, List.countP_eq_zero]
    intro r hr
    simpa using hover r (List.mem_of_mem_drop hr)
  · refine halike.size.trans ?_
    rw [Roll.size, hkept, List.length_drop]
    dsimp only
    omega
  · refine (halike.recent keep).trans ?_
    rw [Roll.recent, hkept]
    exact take_reverse_drop e.store.records keep

/-- The words for the states in which requests end. -/
inductive EndWord : RequestState → String → Prop
  | completed : EndWord .completed "COMPLETED"
  | failed : EndWord .failed "FAILED"
  | timeout : EndWord .timeout "TIMEOUT"
  | cancelled : EndWord .cancelled "CANCELLED"

/-- The line about a request that has ended. -/
inductive Shows (r : RequestRecord) : String → Prop
  | line {word : String} (h : EndWord r.state word) :
      Shows r ("   " ++ r.id.text ++ " " ++ r.agent ++ "." ++ r.function ++ " " ++ word ++ " " ++
        r.error.getD "")

end CommandLine

end RequestEngine
