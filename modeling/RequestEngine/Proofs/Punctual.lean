import RequestEngine.Proofs.Draining
import RequestEngine.Proofs.Settings

/-! Calls and the clock. Time does not pass the end of a call that goes on, so that each call ends
at the very time at which it returns, its gate is opened, or its deadline comes, whichever is the
first. -/
namespace RequestEngine

/-- How a call ends that nobody cancels, and how many milliseconds after it was taken up. Past its
limit it has no ending of its own. -/
inductive Reply.Ends (gates : List String) (limit : Nat) : Reply → Nat → Option Ending → Prop
  | returned {ms : Nat} {ending : Ending} (inTime : ms < limit) :
      Ends gates limit (.after ms ending) ms (some ending)
  | late {ms : Nat} {ending : Ending} (tooLate : limit ≤ ms) :
      Ends gates limit (.after ms ending) limit none
  | released {gate : String} {blocking : Bool} {v : Json} {elapsed : Nat} (opened : gate ∈ gates)
      (inTime : elapsed < limit) :
      Ends gates limit (.atGate gate blocking v) elapsed (some (.value v))
  | shut {gate : String} {blocking : Bool} {v : Json} (closed : gate ∉ gates ∨ limit = 0) :
      Ends gates limit (.atGate gate blocking v) limit none

namespace Job

variable {j : Job} {gates : List String} {time : Nat}

def OpensAt (gates : List String) (j : Job) : Prop :=
  ∃ gate blocking v, j.reply = .atGate gate blocking v ∧ gate ∈ gates

/-- At this time, with these gates open, the end of a call has not passed. -/
structure OnTime (gates : List String) (time : Nat) (j : Job) : Prop where
  started : j.startedMs ≤ time
  deadline : time ≤ j.deadline
  returns : ∀ ms ending, j.reply = .after ms ending → time ≤ j.startedMs + ms
  opens : j.OpensAt gates → time < j.deadline ∨ j.record.timeout.toNat = 0

theorem onTime_started (j : Job) (gates : List String) : j.OnTime gates j.startedMs := by
  have hdeadline : j.deadline = j.startedMs + j.record.timeout.toNat := rfl
  refine ⟨Nat.le_refl _, ?_, fun ms ending _ => Nat.le_add_right _ _, fun _ => ?_⟩
  · omega
  · omega

end Job

namespace Engine

variable {e e' e'' m : Engine} {log : List RequestEvent} {j k : Job} {patient : Nat → Bool}
  {c : Command}

/-- Something happens by itself, and no call is left behind that was to end before. -/
structure Tick (e e' : Engine) : Prop where
  turn : Turn e e'
  early : ∀ j ∈ e.jobs, e'.clock ≤ max e.clock (e.endOf j)

def Ticks : Engine → Engine → Prop := Relation.ReflTransGen Tick

theorem Ticks.turns (h : Ticks e e') : Turns e e' := by
  induction h with
  | refl => exact .refl
  | tail _ tick ih => exact ih.tail tick.turn

theorem clock_finish (e : Engine) (j : Job) : (e.finish j).clock = e.clock := by
  obtain ⟨_, _, _, hframe⟩ := conclude_frame { e with pool := e.pool.map (·.finish j) } j
  rw [Engine.finish, hframe]

theorem clock_dispatch (h : e.dispatch? = some e') : e'.clock = e.clock := by
  obtain ⟨p, w, id, queue, -, -, -, hcases⟩ := dispatch?_eq_some h
  have hfail : ∀ {d : Engine} {message : String}, (d.fail id .failed message).clock = d.clock := by
    intro d message
    obtain ⟨_, _, _, hframe⟩ := fail_frame d id .failed message
    rw [hframe]
  cases hcases with
  | stale _ => rfl
  | called _ _ _ => rfl
  | unknown _ _ => exact hfail
  | resting _ _ _ => exact hfail

theorem Turn.clock_le (h : Turn e e') : e.clock ≤ e'.clock := by
  cases h with
  | finish _ _ => exact Nat.le_of_eq (clock_finish e _).symm
  | dispatch hd => exact Nat.le_of_eq (clock_dispatch hd).symm
  | pass later => exact later

theorem Turns.clock_le (h : Turns e e') : e.clock ≤ e'.clock := by
  induction h with
  | refl => exact Nat.le_refl _
  | tail _ turn ih => exact Nat.le_trans ih turn.clock_le

theorem tick_finish (hj : j ∈ e.jobs) (due : e.endOf j ≤ e.clock) : Tick e (e.finish j) where
  turn := .finish hj due
  early k _ := by
    rw [clock_finish]
    exact Nat.le_max_left _ _

theorem tick_dispatch (h : e.dispatch? = some e') : Tick e e' where
  turn := .dispatch h
  early k _ := by
    rw [clock_dispatch h]
    exact Nat.le_max_left _ _

theorem tick_pass {time : Nat} (later : e.clock ≤ time) (h : ∀ j ∈ e.jobs, time ≤ e.endOf j) :
    Tick e { e with clock := time } where
  turn := .pass later
  early j hj := Nat.le_trans (h j hj) (Nat.le_max_right _ _)

theorem ticks_of_step? (h : e.step? patient = some e') : Ticks e e' := by
  obtain ⟨j, hj, -, hdue, rfl⟩ | hd | ⟨j, hj, hleast, hlater, -, rfl⟩ := step?_eq_some h
  · exact .single (tick_finish hj hdue)
  · exact .single (tick_dispatch hd)
  · refine .tail (.single (tick_pass (Nat.le_of_lt hlater) hleast)) (tick_finish hj ?_)
    exact Nat.le_of_eq (endOf_pass hlater (e.endOf j))

theorem run_ticks (patient : Engine → Nat → Bool) (room : Nat) :
    ∀ e : Engine, Ticks e (run patient room e) := by
  induction room with
  | zero => exact fun e => .refl
  | succ room ih =>
    intro e
    rw [run]
    split
    · exact (ticks_of_step? ‹_›).trans (ih _)
    · exact .refl

theorem settle_ticks (e : Engine) : Ticks e e.settle := run_ticks _ _ e

theorem advanceTo_ticks (e : Engine) (time : Nat) : Ticks e (e.advanceTo time) := by
  have hticks := run_ticks (fun _ due => due ≤ time) e.work e
  have hrests := run_rests (fun _ due => due ≤ time) e.work e (Nat.le_refl _)
  obtain ⟨-, -, hpatient⟩ := step?_eq_none hrests
  unfold advanceTo
  generalize run (fun _ due => due ≤ time) e.work e = d at hticks hpatient ⊢
  refine hticks.tail ⟨.pass (Nat.le_max_left _ _), fun j hj => ?_⟩
  have hlater : time ≤ d.endOf j := by
    cases hfirst : d.firstToEnd? with
    | none =>
      rw [firstToEnd?_eq_none.1 hfirst] at hj
      cases hj
    | some k =>
      obtain ⟨hk, hleast⟩ := firstToEnd?_eq_some hfirst
      have hnot := of_decide_eq_false (hpatient k hk hleast)
      have hle := hleast j hj
      omega
  exact Nat.max_le.2 ⟨Nat.le_max_left _ _, Nat.le_trans hlater (Nat.le_max_right _ _)⟩

theorem poll_ticks (id : Uuid) (deadline : Nat) (times : Nat) :
    ∀ e : Engine, Ticks e (poll id deadline times e).2 := by
  induction times with
  | zero => exact fun e => .refl
  | succ times ih =>
    intro e
    rw [poll]
    split
    · exact .refl
    · split
      · exact .refl
      · exact (advanceTo_ticks e _).trans (ih _)

theorem wait_ticks (e : Engine) (id : Uuid) (maxMs : Nat) : Ticks e (e.wait id maxMs).2 :=
  poll_ticks id _ _ e

/-- The clock has not passed the end of any call. -/
def Punctual (e : Engine) : Prop := ∀ j ∈ e.jobs, j.OnTime e.openGates e.clock

theorem openGates_turn (h : Turn e e') : e'.openGates = e.openGates :=
  congrArg Settings.openGates h.settings

theorem isOpen_iff : e.isOpen j ↔ j.OpensAt e.openGates := by
  unfold isOpen Job.gate? Job.OpensAt
  cases j.reply <;> simp

theorem jobs_finish (e : Engine) (j : Job) : (e.finish j).jobs ⊆ e.jobs := by
  obtain ⟨_, _, _, hframe⟩ := conclude_frame { e with pool := e.pool.map (·.finish j) } j
  rw [Engine.finish, hframe]
  exact jobs_finish_subset e j

theorem jobs_fail (e : Engine) (id : Uuid) (kind : FailureKind) (message : String) :
    (e.fail id kind message).jobs = e.jobs := by
  obtain ⟨_, _, _, hframe⟩ := fail_frame e id kind message
  rw [hframe]
  rfl

theorem jobs_dispatch (h : e.dispatch? = some e') :
    e'.jobs = e.jobs ∨ ∃ j, j.startedMs = e.clock ∧ e'.jobs.Perm (j :: e.jobs) := by
  obtain ⟨p, w, id, queue, hp, -, -, hcases⟩ := dispatch?_eq_some h
  have hrotate : p.rotate.jobs = e.jobs := (jobs_of_pool hp).symm
  cases hcases with
  | stale _ => exact .inl rfl
  | called _ _ _ =>
    rw [jobs_of_pool hp]
    exact .inr ⟨_, rfl, Pool.jobs_assign p _⟩
  | unknown _ _ => exact .inl ((jobs_fail _ _ _ _).trans hrotate)
  | resting _ _ _ => exact .inl ((jobs_fail _ _ _ _).trans hrotate)

/-- A call that is held back ends by its deadline, and when it returns. -/
theorem endOf_le (h : e.clock < e.endOf j) : e.endOf j ≤ j.deadline ∧
    ∀ ms ending, j.reply = .after ms ending → e.endOf j ≤ j.startedMs + ms := by
  obtain ⟨hopen, hdrop⟩ := held_back h
  cases hreply : j.reply with
  | after ms ending =>
    have hend : e.endOf j = min (j.startedMs + ms) j.deadline := by
      simp [endOf, hopen, hdrop, hreply]
    rw [hend]
    refine ⟨Nat.min_le_right _ _, fun ms' ending' heq => ?_⟩
    obtain ⟨rfl, -⟩ := Reply.after.inj heq
    exact Nat.min_le_left _ _
  | atGate gate blocking v =>
    have hend : e.endOf j = j.deadline := by simp [endOf, hopen, hdrop, hreply]
    exact ⟨Nat.le_of_eq hend, fun _ _ heq => by cases heq⟩

/-- The clock does not pass the end of a call that is on time. -/
theorem onTime_pass (h : j.OnTime e.openGates e.clock) {time : Nat} (later : e.clock ≤ time)
    (early : time ≤ max e.clock (e.endOf j)) : j.OnTime e.openGates time := by
  by_cases hdue : e.endOf j ≤ e.clock
  · rw [Nat.max_eq_left hdue] at early
    exact Nat.le_antisymm later early ▸ h
  · have hheld := Nat.lt_of_not_le hdue
    obtain ⟨hdeadline, hreturns⟩ := endOf_le hheld
    rw [Nat.max_eq_right (Nat.le_of_lt hheld)] at early
    refine ⟨Nat.le_trans h.started later, Nat.le_trans early hdeadline, ?_, ?_⟩
    · exact fun ms ending hreply => Nat.le_trans early (hreturns ms ending hreply)
    · intro hopens
      rw [← isOpen_iff, (held_back hheld).1] at hopens
      cases hopens

theorem Punctual.tick (h : e.Punctual) (ht : Tick e e') : e'.Punctual := by
  intro j hj
  rw [openGates_turn ht.turn]
  obtain ⟨hturn, hearly⟩ := ht
  cases hturn with
  | finish _ _ =>
    rw [clock_finish]
    exact h j (jobs_finish e _ hj)
  | dispatch hd =>
    rw [clock_dispatch hd]
    obtain hsame | ⟨k, hstarted, hperm⟩ := jobs_dispatch hd
    · exact h j (hsame ▸ hj)
    · obtain rfl | hj := List.mem_cons.1 (hperm.mem_iff.1 hj)
      · exact hstarted ▸ j.onTime_started _
      · exact h j hj
  | pass later => exact onTime_pass (h j hj) later (hearly j hj)

theorem Punctual.ticks (h : e.Punctual) (ht : Ticks e e') : e'.Punctual := by
  induction ht with
  | refl => exact h
  | tail _ tick ih => exact ih.tick tick

theorem AtRest.clock_lt (h : e.AtRest) (hj : j ∈ e.jobs) : e.clock < j.deadline := by
  obtain ⟨gate, blocking, v, hreply, hclosed, hblocking⟩ := h.waits hj
  obtain ⟨-, hlater, -⟩ := step?_eq_none h
  have hlater := hlater j hj
  rwa [(endOf_atGate hreply hclosed hblocking).1] at hlater

/-- What was on time at rest is on time whichever gates are opened then. -/
theorem AtRest.punctual (h : e.AtRest) (he : e.Punctual) (hj : m.jobs ⊆ e.jobs)
    (hc : m.clock = e.clock) : m.Punctual := by
  intro j hmem
  have hlt := h.clock_lt (hj hmem)
  obtain ⟨gate, blocking, v, hreply, -, -⟩ := h.waits (hj hmem)
  rw [hc]
  refine ⟨(he j (hj hmem)).started, Nat.le_of_lt hlt, ?_, fun _ => .inl hlt⟩
  intro ms ending hafter
  cases hreply.symm.trans hafter

/-- A call that is due, and that nobody has cancelled, ends as it was to end. -/
theorem Punctual.ends (h : e.Punctual) (hj : j ∈ e.jobs) (hdue : e.endOf j ≤ e.clock)
    (hclear : e.isCancelled j = false) : ∃ elapsed, e.clock = j.startedMs + elapsed ∧
      j.reply.Ends e.openGates j.record.timeout.toNat elapsed (e.ending? j) := by
  have hontime := h j hj
  have hdeadline : j.deadline = j.startedMs + j.record.timeout.toNat := rfl
  have hbefore := hontime.deadline
  cases hreply : j.reply with
  | after ms ending =>
    have hreturns := hontime.returns ms ending hreply
    have hend : e.endOf j = min (j.startedMs + ms) j.deadline := by
      simp [endOf, isOpen, Job.gate?, hclear, hreply]
    rw [hend] at hdue
    by_cases hms : ms < j.record.timeout.toNat
    · refine ⟨ms, by omega, ?_⟩
      simpa [ending?, hreply, hms] using .returned hms
    · refine ⟨j.record.timeout.toNat, by omega, ?_⟩
      simpa [ending?, hreply, hms] using .late (Nat.le_of_not_lt hms)
  | atGate gate blocking v =>
    by_cases hgate : gate ∈ e.openGates
    · have hopen : e.isOpen j = true := isOpen_iff.2 ⟨gate, blocking, v, hreply, hgate⟩
      by_cases hlt : e.clock < j.deadline
      · have hstarted := hontime.started
        have hshort : e.clock - j.startedMs < j.record.timeout.toNat := by omega
        refine ⟨e.clock - j.startedMs, by omega, ?_⟩
        simpa [ending?, hreply, hopen, hlt] using .released hgate hshort
      · have hzero := (hontime.opens (isOpen_iff.1 hopen)).resolve_left hlt
        refine ⟨j.record.timeout.toNat, by omega, ?_⟩
        simpa [ending?, hreply, hopen, hlt] using .shut (.inr hzero)
    · obtain ⟨hend, hnone⟩ := endOf_atGate hreply hgate (fun hc => by simp [hclear] at hc)
      rw [hend] at hdue
      refine ⟨j.record.timeout.toNat, by omega, ?_⟩
      rw [hnone]
      exact .shut (.inl hgate)

end Engine

end RequestEngine
