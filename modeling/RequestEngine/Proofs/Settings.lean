import RequestEngine.Proofs.Lifecycle
import RequestEngine.Proofs.Loading
import RequestEngine.Proofs.Submission

/-! What is set from outside. An engine at work leaves its settings alone, so that the function
table and the default timeout in force are the last ones that were brought into force, and a
request keeps the timeout that they gave it. -/
namespace RequestEngine

namespace FunctionTable

variable {t : FunctionTable}

theorem sorted_names (t : FunctionTable) : t.names.Pairwise (· < ·) :=
  List.pairwise_map.2 t.functions.sorted

theorem mem_names {name : String} : name ∈ t.names ↔ (t.get? name).isSome := by
  rw [get?, Dictionary.get?, Entries.isSome_find?_iff, names, Dictionary.keys, List.mem_map]
  exact ⟨fun ⟨⟨_, config⟩, hmem, hname⟩ => ⟨config, hname ▸ hmem⟩,
    fun ⟨config, hmem⟩ => ⟨(name, config), hmem, rfl⟩⟩

end FunctionTable

/-- What only a command changes. -/
structure Settings where
  registry : Registry
  functions : FunctionTable
  capacity : Nat
  maxWorkers : Nat
  defaultTimeout : UInt64
  shutdownGraceMs : Nat
  openGates : List String
  startMs : Nat

namespace Engine

def settings (e : Engine) : Settings :=
  ⟨e.registry, e.functions, e.queue.capacity, e.maxWorkers, e.defaultTimeout, e.shutdownGraceMs,
    e.openGates, e.startMs⟩

variable {e e' : Engine}

theorem settings_fail (e : Engine) (id : Uuid) (kind : FailureKind) (message : String) :
    (e.fail id kind message).settings = e.settings := by
  obtain ⟨_, _, _, hframe⟩ := fail_frame e id kind message
  rw [hframe]
  rfl

theorem settings_finish (e : Engine) (j : Job) : (e.finish j).settings = e.settings := by
  obtain ⟨_, _, _, hframe⟩ := conclude_frame { e with pool := e.pool.map (·.finish j) } j
  rw [Engine.finish, hframe]
  rfl

theorem settings_dispatch (h : e.dispatch? = some e') : e'.settings = e.settings := by
  obtain ⟨p, w, id, queue, -, -, hpop, hcases⟩ := dispatch?_eq_some h
  have hcapacity : queue.capacity = e.queue.capacity := by
    unfold WorkQueue.pop? at hpop
    split at hpop
    · cases hpop
    · rw [← (Prod.mk.inj (Option.some.inj hpop)).2]
  have hbegun : ∀ store pool, (e.begun id w queue store pool).settings = e.settings := by
    intro store pool
    simp only [settings, begun, hcapacity]
  cases hcases with
  | stale _ => simp only [settings, hcapacity]
  | called _ _ _ => exact hbegun _ _
  | unknown _ _ => exact (settings_fail _ _ _ _).trans (hbegun _ _)
  | resting _ _ _ => exact (settings_fail _ _ _ _).trans (hbegun _ _)

theorem Turn.settings (h : Turn e e') : e'.settings = e.settings := by
  cases h with
  | finish _ _ => exact settings_finish e _
  | dispatch hd => exact settings_dispatch hd
  | pass _ => rfl

theorem Turns.settings (h : Turns e e') : e'.settings = e.settings := by
  induction h with
  | refl => rfl
  | tail _ turn ih => exact turn.settings.trans ih

theorem settings_start (e : Engine) : e.start.settings = e.settings := by
  obtain ⟨pool, hstart, -⟩ := jobs_start e
  rw [hstart]
  rfl

theorem settings_stop (e : Engine) : e.stop.settings = e.settings := by
  obtain ⟨-, hstop⟩ | ⟨-, _, _, hstop⟩ := stop_cases e
  · rw [hstop]
  · rw [hstop]
    exact (drain_turns e).settings

theorem settings_cancel (e : Engine) (id : Uuid) : (e.cancel id).2.settings = e.settings := by
  unfold Engine.cancel
  split <;> rfl

theorem settings_submit (e : Engine) (id : Uuid) (agent function : String) (parameters : Json)
    (timeout : Option UInt64) :
    (e.submit id agent function parameters timeout).2.settings = e.settings := by
  unfold Engine.submit
  split
  · rename_i he
    obtain ⟨-, -, -, rfl⟩ := enqueue_eq_ok he
    rfl
  · rfl

end Engine

namespace Command

/-- The function table that a command brings into force. -/
def table? : Command → Option FunctionTable
  | .load table => some table
  | .loadFile path content => (FunctionTable.ofFile path content).toOption
  | _ => none

def defaultTimeout? : Command → Option UInt64
  | .setDefaultTimeout ms => some ms
  | _ => none

end Command

namespace Engine

theorem perform_settings (e : Engine) (c : Command) :
    (e.perform c).2.functions = c.table?.getD e.functions ∧
      (e.perform c).2.defaultTimeout = c.defaultTimeout?.getD e.defaultTimeout := by
  have hsame : ∀ {e' : Engine}, e'.settings = e.settings →
      e'.functions = e.functions ∧ e'.defaultTimeout = e.defaultTimeout :=
    fun h => ⟨congrArg Settings.functions h, congrArg Settings.defaultTimeout h⟩
  cases c with
  | start => exact hsame (settings_start e)
  | stop => exact hsame (settings_stop e)
  | submit id agent function parameters timeout => exact hsame (settings_submit e ..)
  | cancel id => exact hsame (settings_cancel e id)
  | wait id maxMs => exact hsame (wait_turns e id maxMs).settings
  | loadFile path content =>
    simp only [perform, Command.table?, Command.defaultTimeout?]
    cases FunctionTable.ofFile path content <;> exact ⟨rfl, rfl⟩
  | receive name =>
    simp only [perform]
    split <;> exact ⟨rfl, rfl⟩
  | _ => exact ⟨rfl, rfl⟩

theorem step_settings (e : Engine) (c : Command) :
    (e.step c).2.functions = c.table?.getD e.functions ∧
      (e.step c).2.defaultTimeout = c.defaultTimeout?.getD e.defaultTimeout := by
  have hsettled := (settle_turns (e.perform c).2).settings
  obtain ⟨hfunctions, hdefault⟩ := e.perform_settings c
  exact ⟨(congrArg Settings.functions hsettled).trans hfunctions,
    (congrArg Settings.defaultTimeout hsettled).trans hdefault⟩

/-- A function table that is found in a file takes the place of the one before. -/
theorem step_loadFile_ok (e : Engine) {path : String} {content : Except FileFault ByteArray}
    {t : FunctionTable} (hfile : FunctionTable.ofFile path content = .ok t) :
    (e.step (.loadFile path content)).1 = .loaded (.ok t.names.length) ∧
      (e.step (.loadFile path content)).2.functions = t := by
  obtain ⟨hfunctions, -⟩ := e.step_settings (.loadFile path content)
  rw [hfunctions, Command.table?, hfile]
  refine ⟨?_, rfl⟩
  simp only [step, perform, hfile, FunctionTable.names, Dictionary.keys, Dictionary.size,
    List.length_map]

/-- A function table that cannot be loaded changes nothing. -/
theorem AtRest.step_loadFile {e : Engine} (h : e.AtRest) {path : String}
    {content : Except FileFault ByteArray} {err : ConfigError}
    (hfile : FunctionTable.ofFile path content = .error err) :
    e.step (.loadFile path content) = (.loaded (.error err), e) := by
  simp only [step, perform, hfile]
  rw [h.settle]

end Engine

namespace Session

/-- The function table that was the last to be loaded, at first an empty one. -/
def table (s : Session) (n : Nat) : FunctionTable :=
  ((s.commands.take n).filterMap (·.table?)).getLast?.getD .empty

def defaultTimeout (s : Session) (n : Nat) : UInt64 :=
  ((s.commands.take n).filterMap (·.defaultTimeout?)).getLast?.getD s.config.defaultTimeoutMs

/-- The timeout of a submission after some commands: the one given, else that of the function, else
the default. -/
def timeoutFor (s : Session) (n : Nat) (function : String) (given : Option UInt64) : UInt64 :=
  given.getD ((((s.table n).get? function).bind (·.timeout)).getD (s.defaultTimeout n))

/-- The function configuration in force after some commands, and what the next command makes of
it. -/
structure Configured (s : Session) (n : Nat) : Prop where
  functions : (s.engine n).functions = s.table n
  names : ∀ name, name ∈ (s.engine n).functions.names ↔ ((s.table n).get? name).isSome
  sorted : (s.engine n).functions.names.Pairwise (· < ·)
  /-- A file brings what is found in it, and if that is no table nothing changes. -/
  loaded : ∀ path content, s.commands[n]? = some (.loadFile path content) → ∃ result,
    FunctionTable.Found path content result ∧
    ((s.engine n).step (.loadFile path content)).1 = .loaded (result.map (·.names.length)) ∧
    (∀ t, result = .ok t → (s.engine (n + 1)).functions = t) ∧
    ∀ err, result = .error err → s.engine (n + 1) = s.engine n
  /-- A document brings the table that it tells of. -/
  told : ∀ path bytes t, s.commands[n]? = some (.loadFile path (.ok bytes)) →
    FunctionTable.Tells path bytes t → (s.engine (n + 1)).functions = t
  /-- What is no document brings an error, and nothing changes. -/
  refused : ∀ path bytes, s.commands[n]? = some (.loadFile path (.ok bytes)) →
    FunctionTable.Malformed path bytes → ∃ err, FunctionTable.Found path (.ok bytes) (.error err) ∧
    ((s.engine n).step (.loadFile path (.ok bytes))).1 = .loaded (.error err) ∧
    s.engine (n + 1) = s.engine n
  timed : ∀ id agent function parameters given,
    s.commands[n]? = some (.submit id agent function parameters given) → id ∈ s.accepted (n + 1) →
    (∃ r, s.record? (n + 1) id = some r) ∧
    ∀ k r, s.record? (n + 1 + k) id = some r → r.timeout = s.timeoutFor n function given ∧
      (r.state = .running → ∃ j ∈ (s.engine (n + 1 + k)).jobs, j.record = r ∧
        j.deadline = j.startedMs + (s.timeoutFor n function given).toNat)

/-- What has been brought into force last is in force. -/
theorem settings_engine (s : Session) (n : Nat) :
    (s.engine n).functions = s.table n ∧ (s.engine n).defaultTimeout = s.defaultTimeout n := by
  induction n with
  | zero => exact ⟨rfl, rfl⟩
  | succ n ih =>
    obtain ⟨hc, he, -⟩ | ⟨c, hc, he, -⟩ := s.engine_succ n
    · rw [he, ih.1, ih.2]
      simp only [table, defaultTimeout, List.take_add_one, hc, Option.toList_none, List.append_nil,
        and_self]
    · obtain ⟨hfunctions, hdefault⟩ := (s.engine n).step_settings c
      rw [he, hfunctions, hdefault, ih.1, ih.2]
      simp only [table, defaultTimeout, List.take_add_one, hc, Option.toList_some,
        getLast?_filterMap_concat, and_self]

theorem not_accepted_before {s : Session} {n : Nat} {c : Command} {id : Uuid}
    (hc : s.commands[n]? = some c) (hid : c.submission? = some id) : id ∉ s.accepted n := by
  have htake : ((s.commands.take n).filterMap (·.submission?) ++ [id]).Nodup := by
    have hsublist := ((List.take_sublist (n + 1) s.commands).filterMap (·.submission?))
    rw [List.take_add_one, hc, List.filterMap_append] at hsublist
    simpa [hid] using hsublist.nodup s.fresh
  intro hmem
  have hbefore := (Engine.accepted_sublist (s.commands.take n) s.initial).subset hmem
  exact (List.nodup_append.1 htake).2.2 id hbefore id (List.mem_singleton_self id) rfl

theorem becomes_of_submit {s : Session} {n : Nat} {id : Uuid} {agent function : String}
    {parameters : Json} {given : Option UInt64}
    (hc : s.commands[n]? = some (.submit id agent function parameters given))
    (hid : id ∈ s.accepted (n + 1)) :
    ∃ r, s.record? (n + 1) id = some r ∧
      (RequestRecord.new id (s.engine n).now agent function parameters
        (s.timeoutFor n function given)).Becomes r := by
  have hnew : id ∉ s.accepted n := not_accepted_before hc rfl
  obtain ⟨log, h⟩ := s.history n
  obtain ⟨hsound, hlog⟩ := h.sound
  obtain ⟨hfunctions, hdefault⟩ := s.settings_engine n
  have htimeout : (s.engine n).timeoutFor function given = s.timeoutFor n function given := by
    rw [timeoutFor, ← hfunctions, ← hdefault]
    rfl
  obtain ⟨hnone, -⟩ | ⟨c, hc', he, ha⟩ := s.engine_succ n
  · rw [hc] at hnone
    cases hnone
  · obtain rfl := Option.some.inj (hc.symm.trans hc')
    obtain ⟨result, hresult, hdecided⟩ : ∃ result,
        ((s.engine n).step (.submit id agent function parameters given)).1 = .submission result ∧
        (s.engine n).Decided id agent function parameters given result
          ((s.engine n).step (.submit id agent function parameters given)).2 :=
      hsound.decided_submit (s.atRest n) (s.regular n) (hlog ▸ hnew)
    have hok : result = .ok id := by
      rw [accepted_succ ha, hresult] at hid
      have haccepted := Option.mem_toList.1 ((List.mem_append.1 hid).resolve_left hnew)
      cases result with
      | ok i => exact congrArg Except.ok (Option.some.inj haccepted)
      | error reason => cases haccepted
    obtain ⟨others, r, hrecords, -, hbecomes⟩ := hdecided.added id hok
    refine ⟨r, record?_eq_some.2 ⟨?_, hbecomes.id⟩, htimeout ▸ hbecomes⟩
    rw [he, hrecords]
    exact List.mem_append_right _ (List.mem_singleton_self r)

theorem record?_of_submit {s : Session} {n : Nat} {id : Uuid} {agent function : String}
    {parameters : Json} {given : Option UInt64}
    (hc : s.commands[n]? = some (.submit id agent function parameters given))
    (hid : id ∈ s.accepted (n + 1)) :
    ∃ r, s.record? (n + 1) id = some r ∧ r.timeout = s.timeoutFor n function given := by
  obtain ⟨r, hr, hbecomes⟩ := becomes_of_submit hc hid
  exact ⟨r, hr, hbecomes.timeout⟩

theorem loaded_of_loadFile {s : Session} {n : Nat} {path : String}
    {content : Except FileFault ByteArray}
    (hc : s.commands[n]? = some (.loadFile path content)) : ∃ result,
    FunctionTable.Found path content result ∧
    ((s.engine n).step (.loadFile path content)).1 = .loaded (result.map (·.names.length)) ∧
    (∀ t, result = .ok t → (s.engine (n + 1)).functions = t) ∧
    ∀ err, result = .error err → s.engine (n + 1) = s.engine n := by
  refine ⟨_, FunctionTable.found_ofFile path content, ?_⟩
  rw [engine_step hc]
  cases hfile : FunctionTable.ofFile path content with
  | ok t =>
    obtain ⟨hanswer, hstep⟩ := (s.engine n).step_loadFile_ok hfile
    refine ⟨hanswer, fun t' ht' => ?_, fun err herr => by cases herr⟩
    cases ht'
    exact hstep
  | error err =>
    rw [(s.atRest n).step_loadFile hfile]
    exact ⟨rfl, fun t ht => (by cases ht), fun _ _ => rfl⟩

theorem functions_eq_last_loaded (s : Session) (n : Nat) : s.Configured n := by
  obtain ⟨hfunctions, -⟩ := s.settings_engine n
  refine ⟨hfunctions, ?_, FunctionTable.sorted_names _, ?_, ?_, ?_, ?_⟩
  · intro name
    rw [hfunctions]
    exact FunctionTable.mem_names
  · exact fun path content hc => loaded_of_loadFile hc
  · intro path bytes t hc htells
    obtain ⟨result, hfound, -, hok, -⟩ := loaded_of_loadFile hc
    have hresult : result = .ok t := hfound.ofFile_eq.symm.trans htells.found.ofFile_eq
    exact hok t hresult
  · intro path bytes hc hmalformed
    obtain ⟨err, herr⟩ := hmalformed.found
    obtain ⟨result, hfound, hanswer, -, hsame⟩ := loaded_of_loadFile hc
    obtain rfl : result = .error err := hfound.ofFile_eq.symm.trans herr.ofFile_eq
    exact ⟨err, hfound, hanswer, hsame err rfl⟩
  · intro id agent function parameters given hc hid
    obtain ⟨r, hr, htimeout⟩ := record?_of_submit hc hid
    refine ⟨⟨r, hr⟩, ?_⟩
    intro k r' hr'
    obtain ⟨r₀, hr₀, hbecomes⟩ := s.record?_add (n + 1) k hid r' hr'
    rw [hr] at hr₀
    obtain rfl := Option.some.inj hr₀
    have htimeout' : r'.timeout = s.timeoutFor n function given := hbecomes.timeout.trans htimeout
    refine ⟨htimeout', fun hrun => ?_⟩
    obtain ⟨log, h⟩ := s.history (n + 1 + k)
    obtain ⟨x, hx, rfl⟩ := List.mem_map.1 (record?_eq_some.1 hr').1
    obtain ⟨j, hj, rfl⟩ := h.sound.1.calls.all x hx hrun
    exact ⟨j, hj, rfl, congrArg (fun ms : UInt64 => j.startedMs + ms.toNat) htimeout'⟩

end Session

end RequestEngine
