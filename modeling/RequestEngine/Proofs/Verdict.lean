import RequestEngine.Proofs.Launch

/-! What a run for one request says of it. The document that is printed is of the record after the
stop, but the exit status goes by the record as it was seen when the wait ended. The two agree if
the request had ended by then, and only if. -/
namespace RequestEngine

open Ledger (submitted)

namespace RequestState

theorem Leads.not_pending {s t : RequestState} (h : s.Leads t) (hs : s ≠ .pending) :
    t ≠ .pending := by
  induction h with
  | refl => exact hs
  | tail _ next _ =>
    cases next with
    | begin => exact RequestState.noConfusion
    | cancel => exact RequestState.noConfusion
    | finish ended =>
      rintro rfl
      cases ended

end RequestState

namespace RequestRecord

theorem document_state (r : RequestRecord) : r.document.get? "state" = some r.state.toJson := by
  cases he : r.error <;> cases hr : r.result <;>
    simp [document, Json.get?, Entries.find?, he, hr]

end RequestRecord

namespace Engine

variable {e : Engine} {log : List RequestEvent} {r : RequestRecord}

theorem Undisturbed.alone (h : e.Undisturbed log) (hr : e.store.records = [r]) {e' : Engine}
    (ht : Turns e e') :
    ∃ new r', Elapses log new e e' ∧ e'.store.records = [r'] ∧ r.Becomes r' := by
  obtain ⟨new, helapses⟩ := h.turns ht
  obtain ⟨front, r', hrecords, hfront, hbecomes⟩ :=
    exists_of_forall₂_concat (l := []) (hr ▸ helapses.moves)
  cases hfront
  exact ⟨new, r', helapses, hrecords, hbecomes⟩

theorem Undisturbed.begun_of_alone (h : e.Undisturbed log) (hrunning : e.isRunning)
    (hstuck : e.dispatch? = none) (hr : e.store.records = [r]) : r.state ≠ .pending := by
  intro hpending
  obtain ⟨r', hr', hrun⟩ := h.exists_running hrunning hstuck (r := r) (by simp [hr]) hpending
  rw [hr, List.mem_singleton] at hr'
  rw [hr', hpending] at hrun
  cases hrun

theorem Undisturbed.stop_of_alone (h : e.Undisturbed log) (hr : e.store.records = [r])
    (hbegun : r.state ≠ .pending) :
    ∃ r', e.stop.store.records = [r'] ∧ r.Becomes r' ∧ r'.state.isTerminal := by
  obtain ⟨new, hnone, hproceeds⟩ := h.sound.stop
  have hsound := hproceeds.sound h.sound (h.sound.fresh_append hnone)
  have hmoves := hproceeds.tells.moves h.sound.ledger hnone
  rw [show e.ledger.records = [r] from hr] at hmoves
  obtain ⟨front, r', hrecords, hfront, hbecomes⟩ := exists_of_forall₂_concat (l := []) hmoves
  cases hfront
  refine ⟨r', hrecords, hbecomes, ?_⟩
  by_contra hactive
  obtain hpending | hrun := RequestState.pending_or_running (Bool.eq_false_iff.2 hactive)
  · exact hbecomes.state.not_pending hbegun hpending
  · have hcount := hsound.running_of_stopped (by rw [isRunning, pool_stop]; rfl)
    rw [Session.count_eq, show e.stop.store.records = [r'] from hrecords] at hcount
    simp [hrun] at hcount

/-- A wait for the only request, some more time, and a stop. However short the wait is, a free
worker takes the request up in the time after it, so that the stop finds it begun and can end it. -/
theorem Undisturbed.wait_and_stop (h : e.Undisturbed log) (hrunning : e.isRunning)
    (hr : e.store.records = [r]) (maxMs extraMs : Nat) : ∃ e' seen last,
      e.wait r.id maxMs = (some seen, e') ∧ seen.Becomes last ∧ last.state.isTerminal ∧
        (e'.advanceTo (e'.clock + extraMs)).stop.status? r.id = some last := by
  obtain ⟨new, seen, hwaited, hseen, hbecomes⟩ := h.alone hr (wait_turns e r.id maxMs)
  have hfound : (e.wait r.id maxMs).1 = some seen := by
    rw [wait_fst]
    refine (Store.get?_eq_some hwaited.undisturbed.sound.store).2 ⟨?_, hbecomes.id⟩
    rw [hseen, List.mem_singleton]
  generalize hwait : e.wait r.id maxMs = answer at hfound hseen hwaited
  obtain ⟨found, e'⟩ := answer
  obtain rfl : found = some seen := hfound
  have hturns : Turns e e' := by
    have hturns := wait_turns e r.id maxMs
    rwa [hwait] at hturns
  have hlater := advanceTo_turns e' (e'.clock + extraMs)
  obtain ⟨new', r', helapses, hr', hbecomes'⟩ := hwaited.undisturbed.alone hseen hlater
  have hbegun := helapses.undisturbed.begun_of_alone
    ((Turns.isRunning (hturns.trans hlater)).trans hrunning) (dispatch?_advanceTo _ _) hr'
  obtain ⟨last, hlast, hbecomes'', hended⟩ := helapses.undisturbed.stop_of_alone hr' hbegun
  refine ⟨e', seen, last, rfl, hbecomes'.trans hbecomes'', hended, ?_⟩
  obtain ⟨stopped, hnone, hproceeds⟩ := helapses.undisturbed.sound.stop
  refine (Store.get?_eq_some hproceeds.store).2 ⟨?_, ?_⟩
  · rw [hlast, List.mem_singleton]
  · rw [hbecomes''.id, hbecomes'.id, hbecomes.id]

end Engine

namespace CommandLine

/-- The engine for a run that shows its events. -/
def watched (s : Surroundings) (o : EngineOptions) (table : FunctionTable) : Engine :=
  { launched s o table with events := (launched s o table).events.subscribe watcher }

/-- A run comes to wait for its request: the parameters can be read, there is a function table, the
request is accepted, and the end of the wait can be told on the clock. -/
structure Awaits (s : Surroundings) (agent function : String) (parameters : Option String)
    (timeout : Option UInt64) (o : EngineOptions) (e : Engine) : Prop where
  accepted : ∃ table given,
    (parameters.map Json.parse).getD (.ok (.object [])) = .ok given ∧ tableFor s o = .ok table ∧
    (watched s o table).submit (requestId s 0) agent function given timeout =
      (.ok (requestId s 0), e)
  tellable : canWait s e o.waitSecs

/-- The message of a run whose request did not complete. -/
def stateMessage (state : RequestState) : String := "request finished in state " ++ state.text

/-- A run succeeds if its request completed, and else it fails and names the state. -/
structure Outcome.Names (outcome : Outcome) (state : RequestState) : Prop where
  success : outcome.exit = .success ↔ state = .completed
  failure : ∀ f, outcome.exit = .failure f → f = .ofText (stateMessage state)

/-- What a run says of its request, from the record that was seen when the wait ended and the last
record. -/
structure Verdict (outcome : Outcome) (seen last : RequestRecord) : Prop where
  moved : seen.Becomes last
  ended : last.state.isTerminal
  printed : ∃ shown, outcome.printed = shown ++ ["", last.document.pretty]
  state : last.document.get? "state" = some last.state.toJson
  names : outcome.Names seen.state
  agrees : outcome.Names last.state ↔ seen.state.isTerminal

variable {s : Surroundings} {agent function : String} {parameters : Option String}
  {timeout : Option UInt64} {o : EngineOptions} {e : Engine}

theorem stateMessage_inj {state state' : RequestState}
    (h : Failure.ofText (stateMessage state) = .ofText (stateMessage state')) : state = state' := by
  cases state <;> cases state' <;> first | rfl | exact absurd h (by decide)

/-- An exit status can be read in one way only. -/
theorem Outcome.Names.inj {outcome : Outcome} {state state' : RequestState}
    (h : outcome.Names state) (h' : outcome.Names state') (hexit : outcome.exit = .success ∨
      ∃ f, outcome.exit = .failure f) : state = state' := by
  obtain hsuccess | ⟨f, hfailure⟩ := hexit
  · rw [h.success.1 hsuccess, h'.success.1 hsuccess]
  · exact stateMessage_inj ((h.failure f hfailure).symm.trans (h'.failure f hfailure))

theorem Awaits.alone (h : Awaits s agent function parameters timeout o e) : ∃ log r,
    e.Undisturbed log ∧ e.isRunning ∧ e.store.records = [r] ∧ r.id = requestId s 0 := by
  obtain ⟨⟨table, given, -, -, hsubmit⟩, -⟩ := h
  have hwatched : (watched s o table).Undisturbed [] :=
    (undisturbed_launched s o table).of_eq 0 rfl rfl rfl rfl rfl rfl
  unfold Engine.submit at hsubmit
  split at hsubmit
  · rename_i e' he
    obtain ⟨-, rfl⟩ := Prod.mk.inj hsubmit
    obtain ⟨hundisturbed, hrecords⟩ := hwatched.enqueue (by simp [submitted]) he
    obtain ⟨-, -, -, rfl⟩ := Engine.enqueue_eq_ok he
    exact ⟨_, _, hundisturbed, rfl, hrecords, rfl⟩
  · cases (Prod.mk.inj hsubmit).1

theorem Outcome.names_of_exit {outcome : Outcome} {state : RequestState}
    (h : outcome.exit = if state = .completed then .success
      else .failure (.ofText (stateMessage state))) : outcome.Names state := by
  by_cases hc : state = .completed
  · rw [if_pos hc] at h
    refine ⟨⟨fun _ => hc, fun _ => h⟩, ?_⟩
    intro f hf
    rw [h] at hf
    cases hf
  · rw [if_neg hc] at h
    refine ⟨⟨fun hsuccess => ?_, fun hcompleted => absurd hcompleted hc⟩, ?_⟩
    · rw [h] at hsuccess
      cases hsuccess
    · intro f hf
      rw [h] at hf
      exact (Exit.failure.inj hf).symm

/-- A run that comes to wait shows the document as it is after the stop, and exits by what was seen
before. -/
theorem Awaits.run_eq (h : Awaits s agent function parameters timeout o e) {e' : Engine}
    {seen last : RequestRecord} (hwait : e.wait (requestId s 0) (waitMs o) = (some seen, e'))
    (hlast : (e'.advanceTo (e'.clock + catchUpMs)).stop.status? (requestId s 0) = some last) :
    runRequest s agent function parameters timeout o =
      ⟨eventLines (e'.advanceTo (e'.clock + catchUpMs)) ++ ["", last.document.pretty],
        if seen.state = .completed then .success
        else .failure (.ofText (stateMessage seen.state)), none,
        (e'.advanceTo (e'.clock + catchUpMs)).stop.clock⟩ := by
  obtain ⟨⟨table, given, hgiven, htable, hsubmit⟩, htellable⟩ := h
  have hstart := startEngine_eq_ok htable
  have hdocument : (e'.advanceTo (e'.clock + catchUpMs)).stop.resultDocument (requestId s 0) =
      last.document := by
    rw [Engine.status?] at hlast
    rw [Engine.resultDocument, hlast]
  rw [watched] at hsubmit
  unfold runRequest
  rw [hgiven]
  dsimp only
  rw [hstart]
  dsimp only
  rw [hsubmit]
  dsimp only
  rw [if_neg (by simp [htellable]), hwait]
  dsimp only
  rw [hdocument]
  rfl

theorem runRequest_names_seen_state (h : Awaits s agent function parameters timeout o e) :
    ∃ seen last, (e.wait (requestId s 0) (waitMs o)).1 = some seen ∧
      Verdict (runRequest s agent function parameters timeout o) seen last := by
  obtain ⟨log, r, hundisturbed, hrunning, hr, hid⟩ := h.alone
  obtain ⟨e', seen, last, hwait, hbecomes, hended, hlast⟩ :=
    hundisturbed.wait_and_stop hrunning hr (waitMs o) catchUpMs
  rw [hid] at hwait hlast
  have hrun := h.run_eq hwait hlast
  have hnames : (runRequest s agent function parameters timeout o).Names seen.state :=
    Outcome.names_of_exit (by rw [hrun])
  have hexit : (runRequest s agent function parameters timeout o).exit = .success ∨
      ∃ f, (runRequest s agent function parameters timeout o).exit = .failure f := by
    rw [hrun]
    by_cases hc : seen.state = .completed
    · exact .inl (if_pos hc)
    · exact .inr ⟨_, if_neg hc⟩
  refine ⟨seen, last, by rw [hwait], hbecomes, hended, ⟨_, by rw [hrun]⟩, last.document_state,
    hnames, ?_, ?_⟩
  · intro hlastNames
    rw [hnames.inj hlastNames hexit]
    exact hended
  · intro hseen
    rw [hbecomes.final hseen]
    exact hnames

theorem awaits_of_submit {table : FunctionTable} {given : Json}
    (hgiven : (parameters.map Json.parse).getD (.ok (.object [])) = .ok given)
    (htable : tableFor s o = .ok table)
    (hsubmit : ((watched s o table).submit (requestId s 0) agent function given timeout).1 =
      .ok (requestId s 0))
    (htellable : canWait s
      ((watched s o table).submit (requestId s 0) agent function given timeout).2 o.waitSecs) :
    Awaits s agent function parameters timeout o
      ((watched s o table).submit (requestId s 0) agent function given timeout).2 :=
  ⟨⟨table, given, hgiven, htable, Prod.ext hsubmit rfl⟩, htellable⟩

/-- No files, and identifiers in a row. -/
def bare : Surroundings where
  read _ := .error .notFound
  obstacle _ := none
  ids n := .ofNat (n + 1)
  uptimeSecs := 0

def hasty : EngineOptions := ⟨none, 4, 100, 30000, 1⟩

def prompt : Engine :=
  ((watched bare hasty .empty).submit (requestId bare 0) "echo" "ping" (.object []) none).2

theorem runRequest_names_seen_state_prompt : Awaits bare "echo" "ping" none none hasty prompt ∧
    ∃ seen last, seen.state = .completed ∧
      Verdict (runRequest bare "echo" "ping" none none hasty) seen last := by
  have hawaits : Awaits bare "echo" "ping" none none hasty prompt :=
    awaits_of_submit rfl rfl (by decide +kernel) (by decide +kernel)
  obtain ⟨seen, last, hseen, hverdict⟩ := runRequest_names_seen_state hawaits
  have hstate : (prompt.wait (requestId bare 0) (waitMs hasty)).1.map (·.state) =
      some .completed := by decide +kernel
  rw [hseen] at hstate
  exact ⟨hawaits, seen, last, Option.some.inj hstate, hverdict⟩

def slowText : String := "\x7b\"delay_ms\": 2000\x7d"

def slow : Engine :=
  ((watched bare hasty .empty).submit (requestId bare 0) "delay" "sleep"
    (.object [("delay_ms", .int 2000)]) none).2

/-- The wait ends while the request runs, which then completes within the time of grace. -/
theorem runRequest_names_running_of_completed :
    (Invocation.read ["run", "--agent", "delay", "--function", "sleep", "--params", slowText,
      "--wait-secs", "1"]).toOption = some (.run "delay" "sleep" (some slowText) none hasty) ∧
    Awaits bare "delay" "sleep" (some slowText) none hasty slow ∧
    ∃ last : RequestRecord, last.state = .completed ∧
      (runRequest bare "delay" "sleep" (some slowText) none hasty).printed.getLast? =
        some last.document.pretty ∧
      (runRequest bare "delay" "sleep" (some slowText) none hasty).exit =
        .failure (.ofText "request finished in state RUNNING") ∧
      ¬ (runRequest bare "delay" "sleep" (some slowText) none hasty).Names last.state := by
  have hawaits : Awaits bare "delay" "sleep" (some slowText) none hasty slow :=
    awaits_of_submit (by decide +kernel) rfl (by decide +kernel) (by decide +kernel)
  obtain ⟨log, r, hundisturbed, hrunning, hr, hid⟩ := hawaits.alone
  obtain ⟨e', seen, last, hwait, -, -, hlast⟩ :=
    hundisturbed.wait_and_stop hrunning hr (waitMs hasty) catchUpMs
  rw [hid] at hwait hlast
  have hrun := hawaits.run_eq hwait hlast
  have hseen : (slow.wait (requestId bare 0) (waitMs hasty)).1.map (·.state) = some .running := by
    decide +kernel
  have hended : (((slow.wait (requestId bare 0) (waitMs hasty)).2.advanceTo
      ((slow.wait (requestId bare 0) (waitMs hasty)).2.clock + catchUpMs)).stop.status?
        (requestId bare 0)).map (·.state) = some .completed := by decide +kernel
  rw [hwait] at hseen hended
  have hseen' : seen.state = .running := Option.some.inj hseen
  have hended' : last.state = .completed := by
    rw [hlast] at hended
    exact Option.some.inj hended
  refine ⟨by decide +kernel, hawaits, last, hended', ?_, ?_, ?_⟩
  · rw [hrun]
    simp
  · rw [hrun, hseen']
    rfl
  · intro hnames
    have hsuccess := hnames.success.2 hended'
    rw [hrun, hseen'] at hsuccess
    cases hsuccess

end CommandLine

end RequestEngine
