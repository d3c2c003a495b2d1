import RequestEngine.Proofs.Accounting

/-! Requests that wait. They stand in the queue in the order in which they were accepted, and none
of them is overtaken. -/
namespace RequestEngine

open Ledger (submitted started)

namespace Session

/-- Whether the request waits at that resting point. -/
def isPending (s : Session) (n : Nat) (id : Uuid) : Bool :=
  (s.record? n id).any (·.state = .pending)

/-- Whether the request has begun to run, at that resting point or an earlier one. It may have been
evicted since. -/
def wasStarted (s : Session) (n : Nat) (id : Uuid) : Bool :=
  (List.range (n + 1)).any fun m => (s.record? m id).any (·.startedAt.isSome)

/-- The queue and the store agree at a resting point. -/
structure InLine (s : Session) (n : Nat) : Prop where
  items : (s.engine n).queue.items = (s.accepted n).filter (s.isPending n)
  once : (s.engine n).queue.items.Nodup
  mem : ∀ id, id ∈ (s.engine n).queue.items ↔
    ∃ r ∈ (s.engine n).store.records, r.id = id ∧ r.state = .pending

variable {s : Session} {n : Nat} {log : List RequestEvent} {id x y : Uuid}

theorem isPending_iff : s.isPending n id = true ↔
    ∃ r ∈ (s.engine n).store.records, r.id = id ∧ r.state = .pending := by
  simp only [isPending, Option.any_eq_true, record?_eq_some, decide_eq_true_eq, and_assoc]

theorem wasStarted_iff :
    s.wasStarted n id = true ↔ ∃ m ≤ n, ∃ r, s.record? m id = some r ∧ r.startedAt.isSome := by
  simp only [wasStarted, List.any_eq_true, List.mem_range, Nat.lt_succ_iff, Option.any_eq_true]

theorem mem_items (s : Session) (n : Nat) (id : Uuid) : id ∈ (s.engine n).queue.items ↔
    ∃ r ∈ (s.engine n).store.records, r.id = id ∧ r.state = .pending := by
  obtain ⟨log, h⟩ := s.history n
  exact h.sound.1.ledger.waiting id

theorem queue_items_eq_pending (s : Session) (n : Nat) : s.InLine n := by
  obtain ⟨log, h⟩ := s.history n
  obtain ⟨hsound, hlog⟩ := h.sound
  have hsub : (s.engine n).queue.items.Sublist (s.accepted n) := hlog ▸ hsound.ledger.waiting_sublist
  refine ⟨?_, hsound.ledger.waiting_nodup, s.mem_items n⟩
  rw [eq_filter_of_sublist hsub (s.accepted_nodup n)]
  refine List.filter_congr fun id _ => ?_
  simp only [s.mem_items n id, ← isPending_iff, Bool.decide_eq_true]

theorem History.started (h : s.History n log) (hs : s.wasStarted n id) :
    id ∈ Ledger.started log := by
  obtain ⟨m, hm, r, hr, hbegun⟩ := wasStarted_iff.1 hs
  have now : ∀ {n log}, s.History n log → s.record? n id = some r → id ∈ Ledger.started log := by
    intro n log h hr
    obtain ⟨hmem, rfl⟩ := record?_eq_some.1 hr
    exact h.told.begun r hmem hbegun
  clear hs
  induction h with
  | start => exact now .start (Nat.le_zero.1 hm ▸ hr)
  | @step n log new answer middle before next ih =>
    obtain hm | rfl := Nat.le_succ_iff.1 hm
    · rw [Ledger.started_append]
      exact List.mem_append_left _ (ih hm)
    · exact now (before.step next) hr

/-- A request waits no more once one that was accepted after it has begun to run. -/
theorem History.not_overtaken (h : s.History n log) (hxy : [x, y].Sublist (s.accepted n))
    (hy : s.wasStarted n y) : s.isPending n x = false := by
  obtain ⟨hsound, hlog⟩ := h.sound
  obtain ⟨ahead, behind, hsplit, hstarted, hsub⟩ := hsound.ledger.line
  rw [← hlog, hsplit] at hxy
  have hn := hsound.ledger.fresh
  rw [hsplit] at hn
  have hx : x ∈ ahead := mem_front_of_sublist hxy hn (hstarted y (h.started hy))
  have hnot : x ∉ (s.engine n).queue.items := fun hmem =>
    (List.nodup_append.1 hn).2.2 x hx x (hsub.subset hmem) rfl
  rw [← Bool.not_eq_true, isPending_iff, ← s.mem_items n x]
  exact hnot

end Session

end RequestEngine
