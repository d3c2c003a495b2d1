import RequestEngine.Proofs.Books
import RequestEngine.Proofs.Session

/-! The counters of a session. They say how many requests were ever submitted and how many of them
were ever seen in each of the last states, and the rest is what the store still holds. -/
namespace RequestEngine

open Ledger (finished)

namespace Session

/-- Whether a request has been in one of some states, at that resting point or an earlier one. -/
def wasIn (s : Session) (n : Nat) (states : List RequestState) (id : Uuid) : Bool :=
  (List.range (n + 1)).any fun m => (s.record? m id).any (·.state ∈ states)

/-- How many requests have ever been in one of some states. Requests that were evicted since
count as well. -/
def ever (s : Session) (n : Nat) (states : List RequestState) : Nat :=
  (s.accepted n).countP (s.wasIn n states)

variable {s : Session} {n : Nat} {log : List RequestEvent}

theorem wasIn_iff {states : List RequestState} {id : Uuid} :
    s.wasIn n states id = true ↔ ∃ m ≤ n, ∃ r, s.record? m id = some r ∧ r.state ∈ states := by
  simp only [wasIn, List.any_eq_true, List.mem_range, Nat.lt_succ_iff, Option.any_eq_true,
    decide_eq_true_eq]

theorem History.told (h : s.History n log) : (s.engine n).ledger.Told log :=
  h.invariant (P := Ledger.Told)
    ⟨.nil, by simp [finished], by simp [initial, Engine.records_new],
      by simp [initial, Engine.records_new]⟩
    (fun _ ha h => h.adjusted ha) (fun hb hs hb' h => h.step hb hs hb')

theorem History.counted (h : s.History n log) : (s.engine n).ledger.Counted log :=
  h.invariant (P := Ledger.Counted) ⟨rfl, rfl, rfl, rfl, rfl, rfl⟩
    (fun hb ha h => h.adjusted hb ha) (fun _ hs _ h => h.step hs)

theorem History.ended_iff (h : s.History n log) {id : Uuid} {r : RequestRecord}
    (hr : s.record? n id = some r) {state : RequestState} (ht : state.isTerminal) :
    (id, state) ∈ finished log ↔ r.state = state := by
  obtain ⟨hmem, rfl⟩ := record?_eq_some.1 hr
  rw [h.told.ended r hmem state]
  exact ⟨fun hs => hs.1, fun hs => ⟨hs, hs ▸ ht⟩⟩

/-- What was told to have ended was seen so at a resting point, and the other way round. -/
theorem History.finished_iff (h : s.History n log) {id : Uuid} {state : RequestState}
    (ht : state.isTerminal) :
    (id, state) ∈ finished log ↔ ∃ m ≤ n, ∃ r, s.record? m id = some r ∧ r.state = state := by
  induction h with
  | start =>
    constructor
    · exact fun hend => by cases hend
    · rintro ⟨m, hm, r, hr, hs⟩
      rw [Nat.le_zero.1 hm] at hr
      exact (History.start.ended_iff hr ht).2 hs
  | @step n log new answer middle before next ih =>
    obtain ⟨-, hlog⟩ := before.sound
    constructor
    · intro hend
      rw [Ledger.finished_append] at hend
      obtain hend | hend := List.mem_append.1 hend
      · obtain ⟨m, hm, hr⟩ := ih.1 hend
        exact ⟨m, Nat.le_succ_of_le hm, hr⟩
      · obtain ⟨r, hr, hid, hs, -⟩ := next.carries.proceeds.tells.ended next.carries.sound.ledger
          (next.nodup hlog) hend
        exact ⟨n + 1, Nat.le_refl _, r, record?_eq_some.2 ⟨hr, hid⟩, hs⟩
    · rintro ⟨m, hm, r, hr, hs⟩
      obtain hm | rfl := Nat.le_succ_iff.1 hm
      · rw [Ledger.finished_append]
        exact List.mem_append_left _ (ih.2 ⟨m, hm, r, hr, hs⟩)
      · exact ((before.step next).ended_iff hr ht).2 hs

/-- The requests that were ever in some last states are those that were told to have ended so. -/
theorem History.ever_eq (h : s.History n log) {states : List RequestState}
    (ht : ∀ state ∈ states, state.isTerminal) :
    s.ever n states = (finished log).countP (·.2 ∈ states) := by
  obtain ⟨-, hlog⟩ := h.sound
  have hperm : ((s.accepted n).filter (s.wasIn n states)).Perm
      (((finished log).filter (·.2 ∈ states)).map (·.1)) := by
    rw [List.perm_ext_iff_of_nodup ((s.accepted_nodup n).filter _)
      ((List.filter_sublist.map _).nodup h.told.once)]
    intro id
    simp only [List.mem_filter, List.mem_map, decide_eq_true_eq, wasIn_iff]
    constructor
    · rintro ⟨-, m, hm, r, hr, hs⟩
      exact ⟨(id, r.state), ⟨(h.finished_iff (ht _ hs)).2 ⟨m, hm, r, hr, rfl⟩, hs⟩, rfl⟩
    · rintro ⟨⟨id, state⟩, ⟨hend, hs⟩, rfl⟩
      obtain ⟨m, hm, r, hr, rfl⟩ := (h.finished_iff (ht _ hs)).1 hend
      exact ⟨hlog ▸ h.told.known _ _ hend, m, hm, r, hr, hs⟩
  rw [ever, List.countP_eq_length_filter, hperm.length_eq, List.length_map,
    ← List.countP_eq_length_filter]

theorem Next.statistics {new : List RequestEvent} {answer : Answer} {middle : Engine}
    (h : s.Next n log new answer middle) :
    (s.engine (n + 1)).statistics.rejected =
      (s.engine n).statistics.rejected + answer.isRefusal.toNat ∧
    (s.engine n).statistics.timed ≤ (s.engine (n + 1)).statistics.timed := by
  obtain ⟨hrejected, htimed⟩ := h.carries.proceeds.tells.statistics
  have hmiddle := h.carries.adjusted.statistics
  rw [hmiddle] at hrejected htimed
  exact ⟨hrejected, htimed⟩

theorem rejected_eq (s : Session) (n : Nat) : (s.engine n).statistics.rejected = s.refused n := by
  obtain ⟨log, h⟩ := s.history n
  induction h with
  | start => rfl
  | step before next ih => rw [next.refused, ← ih, next.statistics.1]

theorem timed_add (s : Session) (n k : Nat) :
    (s.engine n).statistics.timed ≤ (s.engine (n + k)).statistics.timed := by
  induction k with
  | zero => exact Nat.le_refl _
  | succ k ih =>
    obtain ⟨log, h⟩ := s.history (n + k)
    obtain ⟨new, answer, middle, next⟩ := h.next
    exact Nat.le_trans ih next.statistics.2

theorem refused_add (s : Session) (n k : Nat) : s.refused n ≤ s.refused (n + k) :=
  (s.answers_add n k).sublist.countP_le

theorem ever_add (s : Session) (n k : Nat) (states : List RequestState) :
    s.ever n states ≤ s.ever (n + k) states := by
  calc s.ever n states
      ≤ (s.accepted n).countP (s.wasIn (n + k) states) := by
        refine List.countP_mono_left fun id _ h => ?_
        obtain ⟨m, hm, hr⟩ := wasIn_iff.1 h
        exact wasIn_iff.2 ⟨m, Nat.le_add_right_of_le hm, hr⟩
    _ ≤ s.ever (n + k) states := (s.accepted_add n k).sublist.countP_le

/-- The counters at a resting point. -/
structure Accounted (s : Session) (n : Nat) : Prop where
  total : (s.engine n).statistics.total = (s.accepted n).length
  rejected : (s.engine n).statistics.rejected = s.refused n
  completed : (s.engine n).statistics.completed = s.ever n [.completed]
  failed : (s.engine n).statistics.failed = s.ever n [.failed, .timeout]
  timeouts : (s.engine n).statistics.timeouts = s.ever n [.timeout]
  cancelled : (s.engine n).statistics.cancelled = s.ever n [.cancelled]
  balance : (s.engine n).statistics.total =
    (s.engine n).statistics.completed + (s.engine n).statistics.failed +
      (s.engine n).statistics.cancelled + (s.engine n).store.count .pending +
      (s.engine n).store.count .running
  active : (s.engine n).statistics.active =
    (s.engine n).store.count .pending + (s.engine n).store.count .running
  later : ∀ k, (s.engine n).statistics.AtMost (s.engine (n + k)).statistics

theorem count_eq (s : Store) (state : RequestState) :
    s.count state = s.records.countP (·.state = state) := by
  rw [Store.count, Store.records, List.countP_map, List.countP_eq_length_filter]
  rfl

theorem counts (s : Session) (n : Nat) :
    (s.engine n).statistics.total = (s.accepted n).length ∧
    (s.engine n).statistics.completed = s.ever n [.completed] ∧
    (s.engine n).statistics.failed = s.ever n [.failed, .timeout] ∧
    (s.engine n).statistics.timeouts = s.ever n [.timeout] ∧
    (s.engine n).statistics.cancelled = s.ever n [.cancelled] := by
  obtain ⟨log, h⟩ := s.history n
  obtain ⟨-, hlog⟩ := h.sound
  refine ⟨hlog ▸ h.counted.total, ?_, ?_, ?_, ?_⟩
  · rw [h.ever_eq (by decide)]
    exact h.counted.completed
  · rw [h.ever_eq (by decide)]
    exact h.counted.failed
  · rw [h.ever_eq (by decide)]
    exact h.counted.timeouts
  · rw [h.ever_eq (by decide)]
    exact h.counted.cancelled

theorem counts_add (s : Session) (n k : Nat) :
    (s.engine n).statistics.AtMost (s.engine (n + k)).statistics := by
  obtain ⟨htotal, hcompleted, hfailed, htimeouts, hcancelled⟩ := s.counts n
  obtain ⟨htotal', hcompleted', hfailed', htimeouts', hcancelled'⟩ := s.counts (n + k)
  constructor
  · rw [htotal, htotal']
    exact (s.accepted_add n k).length_le
  · rw [hcompleted, hcompleted']
    exact s.ever_add n k _
  · rw [hfailed, hfailed']
    exact s.ever_add n k _
  · rw [htimeouts, htimeouts']
    exact s.ever_add n k _
  · rw [hcancelled, hcancelled']
    exact s.ever_add n k _
  · rw [rejected_eq, rejected_eq]
    exact s.refused_add n k
  · exact s.timed_add n k

theorem statistics_match_history (s : Session) (n : Nat) : s.Accounted n := by
  obtain ⟨htotal, hcompleted, hfailed, htimeouts, hcancelled⟩ := s.counts n
  obtain ⟨log, h⟩ := s.history n
  have hbalance : (s.engine n).statistics.total = (s.engine n).statistics.completed +
      (s.engine n).statistics.failed + (s.engine n).statistics.cancelled +
      (s.engine n).store.count .pending + (s.engine n).store.count .running := by
    rw [count_eq, count_eq]
    exact h.counted.balance
  refine ⟨htotal, s.rejected_eq n, hcompleted, hfailed, htimeouts, hcancelled, hbalance, ?_,
    s.counts_add n⟩
  rw [Statistics.active]
  omega

end Session

end RequestEngine
