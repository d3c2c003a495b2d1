import RequestEngine.Proofs.Ledger

/-! The counters. Each submission and each end of a request is counted once, under the state that
the request ended in, and what is left over is what the store still holds. -/
namespace RequestEngine

open Ledger (submitted started finished Tells)

namespace RequestState

theorem pending_or_running {s : RequestState} (h : s.isTerminal = false) :
    s = .pending ∨ s = .running := s.isTerminal_eq_false_iff.1 h

theorem ended_as {s : RequestState} (h : s.isTerminal) :
    s = .completed ∨ s = .failed ∨ s = .timeout ∨ s = .cancelled := by
  cases s <;> simp_all [isTerminal, isActive]

end RequestState

namespace Statistics

/-- No count of the first is higher than that of the second. -/
structure AtMost (s t : Statistics) : Prop where
  total : s.total ≤ t.total
  completed : s.completed ≤ t.completed
  failed : s.failed ≤ t.failed
  timeouts : s.timeouts ≤ t.timeouts
  cancelled : s.cancelled ≤ t.cancelled
  rejected : s.rejected ≤ t.rejected
  timed : s.timed ≤ t.timed

/-- An end counts once in each count that its state belongs to. -/
theorem recordEnd_eq (s : Statistics) (state : RequestState) (ms : Option Nat) :
    ∃ timed executionMs, s.timed ≤ timed ∧ s.recordEnd state ms = { s with
      completed := s.completed + (if state ∈ [.completed] then 1 else 0)
      failed := s.failed + (if state ∈ [.failed, .timeout] then 1 else 0)
      timeouts := s.timeouts + (if state ∈ [.timeout] then 1 else 0)
      cancelled := s.cancelled + (if state ∈ [.cancelled] then 1 else 0)
      timed := timed
      executionMs := executionMs } := by
  cases state <;> cases ms <;> first
    | exact ⟨_, _, Nat.le_refl _, rfl⟩
    | exact ⟨_, _, Nat.le_succ _, rfl⟩

end Statistics

namespace Ledger

/-- The records show what was told of them. -/
structure Told (log : List RequestEvent) (b : Ledger) : Prop where
  once : ((finished log).map (·.1)).Nodup
  known : ∀ id state, (id, state) ∈ finished log → id ∈ submitted log
  ended : ∀ r ∈ b.records, ∀ state,
    (r.id, state) ∈ finished log ↔ r.state = state ∧ r.state.isTerminal
  begun : ∀ r ∈ b.records, r.startedAt.isSome → r.id ∈ started log

/-- The counters agree with what was told, and with the records. -/
structure Counted (log : List RequestEvent) (b : Ledger) : Prop where
  total : b.statistics.total = (submitted log).length
  completed : b.statistics.completed = (finished log).countP (·.2 ∈ [.completed])
  failed : b.statistics.failed = (finished log).countP (·.2 ∈ [.failed, .timeout])
  timeouts : b.statistics.timeouts = (finished log).countP (·.2 ∈ [.timeout])
  cancelled : b.statistics.cancelled = (finished log).countP (·.2 ∈ [.cancelled])
  balance : b.statistics.total =
    b.statistics.completed + b.statistics.failed + b.statistics.cancelled +
      b.records.countP (·.state = .pending) + b.records.countP (·.state = .running)

variable {b b' : Ledger} {log new : List RequestEvent} {event : RequestEvent} {refusals : Nat}

theorem Told.adjusted (h : Told log b) (ha : Adjusted refusals b b') : Told log b' where
  once := h.once
  known := h.known
  ended r hr := h.ended r (ha.kept.subset hr)
  begun r hr := h.begun r (ha.kept.subset hr)

/-- Records that have not ended are not evicted, so that their number stays. -/
theorem Adjusted.countP (hb : b.Sound log) (ha : Adjusted refusals b b') {state : RequestState}
    (hs : state.isTerminal = false) :
    b'.records.countP (·.state = state) = b.records.countP (·.state = state) := by
  have hn : b.records.Nodup := List.Nodup.of_map _ hb.distinct
  have hperm : (b'.records.filter (·.state = state)).Perm (b.records.filter (·.state = state)) := by
    rw [List.perm_ext_iff_of_nodup ((ha.kept.nodup hn).filter _) (hn.filter _)]
    intro r
    simp only [List.mem_filter, decide_eq_true_eq]
    constructor
    · exact fun ⟨hr, hrs⟩ => ⟨ha.kept.subset hr, hrs⟩
    · exact fun ⟨hr, hrs⟩ => ⟨ha.active r hr (hrs ▸ hs), hrs⟩
  rw [List.countP_eq_length_filter, List.countP_eq_length_filter, hperm.length_eq]

theorem Counted.adjusted (h : Counted log b) (hb : b.Sound log) (ha : Adjusted refusals b b') :
    Counted log b' := by
  have hp := ha.countP hb RequestState.isTerminal_pending
  have hr := ha.countP hb RequestState.isTerminal_running
  obtain ⟨h₁, h₂, h₃, h₄, h₅, h₆⟩ := h
  constructor <;> simp only [ha.statistics, hp, hr] <;> assumption

theorem Told.submit (h : Told log b) {id : Uuid} {now now' : Instant}
    {agent function : String} {parameters : Json} {timeout : UInt64} (hnew : id ∉ submitted log)
    (records : b'.records = b.records ++ [.new id now' agent function parameters timeout]) :
    Told (log ++ [.submitted id agent function now]) b' := by
  have hfinished : finished (log ++ [.submitted id agent function now]) = finished log := by simp
  refine ⟨by rw [hfinished]; exact h.once, ?_, ?_, ?_⟩
  · intro id' state hmem
    rw [submitted_append]
    exact List.mem_append_left _ (h.known id' state (hfinished ▸ hmem))
  · intro r hr state
    rw [hfinished]
    rw [records] at hr
    obtain hr | hr := List.mem_append.1 hr
    · exact h.ended r hr state
    · obtain rfl := List.mem_singleton.1 hr
      exact ⟨fun hmem => absurd (h.known id state hmem) hnew, fun ⟨_, ht⟩ => by cases ht⟩
  · intro r hr hs
    rw [started_append]
    rw [records] at hr
    obtain hr | hr := List.mem_append.1 hr
    · exact List.mem_append_left _ (h.begun r hr hs)
    · rw [List.mem_singleton.1 hr] at hs
      cases hs

theorem Told.start (h : Told log b) (hb : b.Sound log) {r r' : RequestRecord} {now : Instant}
    {worker : Nat} (begins : r.begin? now = some r') (records : Swapped b.records b'.records r r') :
    Told (log ++ [.started r.id worker now]) b' := by
  have hmem := records.mem_iff (List.Nodup.of_map _ hb.distinct)
  have hfinished : finished (log ++ [.started r.id worker now]) = finished log := by simp
  obtain ⟨hp, rfl⟩ := RequestRecord.begin?_eq_some begins
  refine ⟨by rw [hfinished]; exact h.once, ?_, ?_, ?_⟩
  · intro id state hend
    rw [submitted_append]
    exact List.mem_append_left _ (h.known id state (hfinished ▸ hend))
  · intro x hx state
    rw [hfinished]
    obtain rfl | ⟨hx, -⟩ := (hmem x).1 hx
    · have hr := h.ended r records.mem state
      rw [hp] at hr
      exact ⟨fun hend => (by cases (hr.1 hend).2), fun ⟨_, ht⟩ => by cases ht⟩
    · exact h.ended x hx state
  · intro x hx hs
    rw [started_append]
    obtain rfl | ⟨hx, -⟩ := (hmem x).1 hx
    · exact List.mem_append_right _ (by simp)
    · exact List.mem_append_left _ (h.begun x hx hs)

theorem Told.finish (h : Told log b) (hb : b.Sound log) {r r' : RequestRecord} {now : Instant}
    {error : Option String} {ms : Nat} (ends : r.Ends r')
    (records : Swapped b.records b'.records r r') :
    Told (log ++ [.finished r'.id r'.state error ms now]) b' := by
  have hmem := records.mem_iff (List.Nodup.of_map _ hb.distinct)
  have hid : r'.id = r.id := ends.becomes.id
  have hfinished : finished (log ++ [.finished r'.id r'.state error ms now]) =
      finished log ++ [(r.id, r'.state)] := by
    rw [finished_append, finished_finish, hid]
  have hnot : ∀ state, (r.id, state) ∉ finished log := by
    intro state hend
    have ht := ((h.ended r records.mem state).1 hend).2
    rw [ends.not_terminal] at ht
    cases ht
  refine ⟨?_, ?_, ?_, ?_⟩
  · rw [hfinished, List.map_append, List.nodup_append]
    refine ⟨h.once, List.nodup_singleton _, ?_⟩
    intro id hend id' hid' heq
    obtain ⟨⟨old, state⟩, hx, hold⟩ := List.mem_map.1 hend
    have hr : old = r.id := hold.trans (heq.trans (List.mem_singleton.1 hid'))
    exact hnot state (hr ▸ hx)
  · intro id state hend
    rw [submitted_append]
    rw [hfinished] at hend
    obtain hend | hend := List.mem_append.1 hend
    · exact List.mem_append_left _ (h.known id state hend)
    · obtain ⟨rfl, rfl⟩ := Prod.mk.inj (List.mem_singleton.1 hend)
      exact List.mem_append_left _ (hb.known r records.mem)
  · intro x hx state
    rw [hfinished, List.mem_append, List.mem_singleton, Prod.mk.injEq]
    obtain rfl | ⟨hx, hne⟩ := (hmem x).1 hx
    · rw [hid]
      exact ⟨fun hend => ⟨(hend.resolve_left (hnot state)).2.symm, ends.terminal⟩,
        fun ⟨hs, _⟩ => .inr ⟨rfl, hs.symm⟩⟩
    · have hother : x.id ≠ r.id := fun heq => hne (hb.eq_of_id hx records.mem heq)
      rw [← h.ended x hx state]
      exact ⟨fun hend => hend.resolve_right fun heq => hother heq.1, .inl⟩
  · intro x hx hs
    rw [started_append]
    obtain rfl | ⟨hx, -⟩ := (hmem x).1 hx
    · rw [ends.startedAt] at hs
      exact List.mem_append_left _ (hid ▸ h.begun r records.mem hs)
    · exact List.mem_append_left _ (h.begun x hx hs)

theorem Told.step (h : Told log b) (hb : b.Sound log) (hs : b.Step event b')
    (hb' : b'.Sound (log ++ [event])) : Told (log ++ [event]) b' := by
  cases hs with
  | submit id _ _ _ _ _ records =>
    have hf := hb'.fresh
    rw [submitted_append, List.nodup_append] at hf
    exact h.submit (fun hid => hf.2.2 id hid id (by simp) rfl)
      records
  | start _ begins records => exact h.start hb begins records
  | finish _ ends records => exact h.finish hb ends records

theorem Counted.submit (h : Counted log b) {id : Uuid} {now now' : Instant}
    {agent function : String} {parameters : Json} {timeout : UInt64}
    (records : b'.records = b.records ++ [.new id now' agent function parameters timeout])
    (statistics : b'.statistics = b.statistics.recordSubmitted) :
    Counted (log ++ [.submitted id agent function now]) b' := by
  have hfinished : finished (log ++ [.submitted id agent function now]) = finished log := by simp
  constructor
  · simp [statistics, Statistics.recordSubmitted, h.total]
  · rw [statistics, hfinished]
    exact h.completed
  · rw [statistics, hfinished]
    exact h.failed
  · rw [statistics, hfinished]
    exact h.timeouts
  · rw [statistics, hfinished]
    exact h.cancelled
  · have hbalance := h.balance
    rw [statistics, records, List.countP_append, List.countP_append]
    simp only [Statistics.recordSubmitted, RequestRecord.new, List.countP_singleton, decide_true,
      reduceCtorEq, decide_false, Bool.false_eq_true, if_true, if_false]
    omega

theorem Counted.start (h : Counted log b) {r r' : RequestRecord} {now : Instant}
    {worker : Nat} (begins : r.begin? now = some r') (records : Swapped b.records b'.records r r')
    (statistics : b'.statistics = b.statistics) : Counted (log ++ [.started r.id worker now]) b' := by
  have hfinished : finished (log ++ [.started r.id worker now]) = finished log := by simp
  have hsubmitted : submitted (log ++ [.started r.id worker now]) = submitted log := by simp
  obtain ⟨hp, rfl⟩ := RequestRecord.begin?_eq_some begins
  have hpending := records.countP (·.state = .pending)
  have hrunning := records.countP (·.state = .running)
  simp only [hp, decide_true, reduceCtorEq, decide_false, Bool.false_eq_true, if_true, if_false]
    at hpending hrunning
  refine ⟨?_, ?_, ?_, ?_, ?_, ?_⟩ <;> rw [statistics]
  · rw [hsubmitted]
    exact h.total
  · rw [hfinished]
    exact h.completed
  · rw [hfinished]
    exact h.failed
  · rw [hfinished]
    exact h.timeouts
  · rw [hfinished]
    exact h.cancelled
  · have hbalance := h.balance
    omega

theorem Counted.finish (h : Counted log b) {r r' : RequestRecord} {now : Instant}
    {error : Option String} {ms : Nat} {time : Option Nat} (ends : r.Ends r')
    (records : Swapped b.records b'.records r r')
    (statistics : b'.statistics = b.statistics.recordEnd r'.state time) :
    Counted (log ++ [.finished r'.id r'.state error ms now]) b' := by
  have hfinished : ∀ states : List RequestState,
      (finished (log ++ [.finished r'.id r'.state error ms now])).countP (·.2 ∈ states) =
        (finished log).countP (·.2 ∈ states) + (if r'.state ∈ states then 1 else 0) := by
    intro states
    simp [List.countP_singleton]
  have hsubmitted : submitted (log ++ [.finished r'.id r'.state error ms now]) = submitted log := by
    simp
  obtain ⟨_, _, -, hcounts⟩ := b.statistics.recordEnd_eq r'.state time
  rw [hcounts] at statistics
  refine ⟨?_, ?_, ?_, ?_, ?_, ?_⟩ <;> rw [statistics]
  · rw [hsubmitted]
    exact h.total
  · rw [hfinished, ← h.completed]
  · rw [hfinished, ← h.failed]
  · rw [hfinished, ← h.timeouts]
  · rw [hfinished, ← h.cancelled]
  · have hbalance := h.balance
    have hpending := records.countP (·.state = .pending)
    have hrunning := records.countP (·.state = .running)
    obtain hr | hr := RequestState.pending_or_running ends.not_terminal <;>
      obtain hr' | hr' | hr' | hr' := RequestState.ended_as ends.terminal <;>
      simp only [hr, hr', decide_true, reduceCtorEq, decide_false, Bool.false_eq_true, if_true,
        if_false, List.mem_cons, List.not_mem_nil, or_false, or_true]
        at hpending hrunning ⊢ <;>
      omega

theorem Counted.step (h : Counted log b) (hs : b.Step event b') : Counted (log ++ [event]) b' := by
  cases hs with
  | submit _ _ _ _ _ _ records _ statistics => exact h.submit records statistics
  | start _ begins records _ statistics => exact h.start begins records statistics
  | finish _ ends records _ statistics => exact h.finish ends records statistics

theorem Step.statistics (h : b.Step event b') : b'.statistics.rejected = b.statistics.rejected ∧
    b.statistics.timed ≤ b'.statistics.timed := by
  cases h with
  | submit _ _ _ _ _ _ _ _ statistics =>
    rw [statistics]
    exact ⟨rfl, Nat.le_refl _⟩
  | start _ _ _ _ statistics =>
    rw [statistics]
    exact ⟨rfl, Nat.le_refl _⟩
  | @finish _ _ r' _ _ _ _ statistics =>
    obtain ⟨_, _, htimed, hcounts⟩ := b.statistics.recordEnd_eq r'.state r'.executionMs
    rw [statistics, hcounts]
    exact ⟨rfl, htimed⟩

theorem Tells.statistics (h : Tells b new b') : b'.statistics.rejected = b.statistics.rejected ∧
    b.statistics.timed ≤ b'.statistics.timed := by
  induction h with
  | nil => exact ⟨rfl, Nat.le_refl _⟩
  | cons step _ ih =>
    obtain ⟨hrejected, htimed⟩ := step.statistics
    exact ⟨ih.1.trans hrejected, Nat.le_trans htimed ih.2⟩

/-- What one ledger counts more than another is what its records show more. -/
structure Conserves (b b' : Ledger) (new : List RequestEvent) : Prop where
  total : b'.statistics.total = b.statistics.total + (submitted new).length
  completed : b'.statistics.completed + b.records.countP (·.state ∈ [.completed]) =
    b.statistics.completed + b'.records.countP (·.state ∈ [.completed])
  failed : b'.statistics.failed + b.records.countP (·.state ∈ [.failed, .timeout]) =
    b.statistics.failed + b'.records.countP (·.state ∈ [.failed, .timeout])
  timeouts : b'.statistics.timeouts + b.records.countP (·.state ∈ [.timeout]) =
    b.statistics.timeouts + b'.records.countP (·.state ∈ [.timeout])
  cancelled : b'.statistics.cancelled + b.records.countP (·.state ∈ [.cancelled]) =
    b.statistics.cancelled + b'.records.countP (·.state ∈ [.cancelled])

theorem Step.conserves (h : b.Step event b') : Conserves b b' [event] := by
  cases h with
  | submit _ _ _ _ _ _ records _ statistics =>
    constructor <;> rw [statistics] <;>
      simp [records, Statistics.recordSubmitted, RequestRecord.new, List.countP_append]
  | @start _ r r' _ _ begins records _ statistics =>
    obtain ⟨hp, rfl⟩ := RequestRecord.begin?_eq_some begins
    have hcount : ∀ states : List RequestState, .pending ∉ states → .running ∉ states →
        b'.records.countP (·.state ∈ states) = b.records.countP (·.state ∈ states) := by
      intro states hpending hrunning
      simpa [hp, hpending, hrunning] using records.countP (·.state ∈ states)
    constructor <;> rw [statistics]
    · simp
    all_goals rw [hcount _ (by decide) (by decide)]
  | @finish _ r r' _ ends records _ statistics =>
    have hcount : ∀ states : List RequestState, (∀ state ∈ states, state.isTerminal) →
        b'.records.countP (·.state ∈ states) =
          b.records.countP (·.state ∈ states) + (if r'.state ∈ states then 1 else 0) := by
      intro states hterminal
      have hnot : r.state ∉ states := by
        intro hmem
        have ht := hterminal r.state hmem
        rw [ends.not_terminal] at ht
        cases ht
      simpa [hnot] using records.countP (·.state ∈ states)
    obtain ⟨_, _, -, hcounts⟩ := b.statistics.recordEnd_eq r'.state r'.executionMs
    rw [hcounts] at statistics
    constructor <;> rw [statistics]
    · simp
    all_goals
      rw [hcount _ (by decide)]
      dsimp only
      omega

theorem Tells.conserves (h : Tells b new b') : Conserves b b' new := by
  induction h with
  | nil => constructor <;> simp [submitted]
  | @cons b₀ b₁ b₂ event log step _ ih =>
    have hstep := step.conserves
    have hnew : (submitted (event :: log)).length =
        (submitted [event]).length + (submitted log).length := by
      rw [← List.length_append, ← submitted_append]
      rfl
    have htotal := hstep.total
    have htotal' := ih.total
    have hcompleted := hstep.completed
    have hcompleted' := ih.completed
    have hfailed := hstep.failed
    have hfailed' := ih.failed
    have htimeouts := hstep.timeouts
    have htimeouts' := ih.timeouts
    have hcancelled := hstep.cancelled
    have hcancelled' := ih.cancelled
    constructor <;> omega

theorem Tells.ended (h : Tells b new b') (hb : b.Sound log)
    (hfresh : (submitted (log ++ new)).Nodup) {id : Uuid} {state : RequestState}
    (hend : (id, state) ∈ finished new) :
    ∃ r ∈ b'.records, r.id = id ∧ r.state = state ∧ r.state.isTerminal := by
  refine h.invariant (P := fun done c => ∀ id state, (id, state) ∈ finished done →
    ∃ r ∈ c.records, r.id = id ∧ r.state = state ∧ r.state.isTerminal) hb hfresh (by simp [finished])
    ?_ id state hend
  intro c c' done event hc hstep _ hP id state hend
  rw [finished_append] at hend
  obtain hend | hend := List.mem_append.1 hend
  · obtain ⟨r, hr, hid, hs, ht⟩ := hP id state hend
    obtain ⟨r', hr', hbecomes⟩ := hstep.becomes hc hr
    rw [hbecomes.final ht] at hr'
    exact ⟨r, hr', hid, hs, ht⟩
  · cases hstep with
    | submit => cases hend
    | start => cases hend
    | finish now ends records =>
      obtain ⟨rfl, rfl⟩ := Prod.mk.inj (List.mem_singleton.1 hend)
      exact ⟨_, records.mem_new, rfl, rfl, ends.terminal⟩

end Ledger

end RequestEngine
