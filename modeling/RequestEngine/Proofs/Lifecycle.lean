import RequestEngine.Proofs.Session

/-! The life of a request as seen from resting points. Its record moves on as records may, stays
final after its end, and never comes back once it was evicted. -/
namespace RequestEngine

open Ledger (submitted)

namespace RequestRecord

/-- What the result document of a record shows. -/
structure Documented (r : RequestRecord) : Prop where
  result : (r.document.get? "result").isSome ↔ r.state = .completed
  error : (r.document.get? "error").isSome ↔
    r.state = .failed ∨ r.state = .timeout ∨ r.state = .cancelled
  one : r.state.isTerminal → ((r.document.get? "result").isSome ↔ r.document.get? "error" = none)
  neither : r.state.isTerminal = false →
    r.document.get? "result" = none ∧ r.document.get? "error" = none

theorem Proper.documented {r : RequestRecord} (h : r.Proper) : r.Documented := by
  have hresult : (r.document.get? "result").isSome ↔ r.state = .completed := by
    rw [document_result]
    exact h.result
  have herror : (r.document.get? "error").isSome ↔
      r.state = .failed ∨ r.state = .timeout ∨ r.state = .cancelled := by
    rw [document_error, Option.isSome_map]
    exact h.error
  refine ⟨hresult, herror, ?_, ?_⟩
  · intro ht
    rw [hresult, ← Option.not_isSome_iff_eq_none, herror]
    cases hs : r.state <;> simp_all [RequestState.isTerminal, RequestState.isActive]
  · intro ht
    rw [document_result, document_error, (h.blank ht).1, (h.blank ht).2]
    exact ⟨rfl, rfl⟩

end RequestRecord

namespace Session

/-- How the records at a resting point hang together with themselves and with those at later
resting points. -/
structure Lifecycle (s : Session) (n : Nat) : Prop where
  proper : ∀ id r, s.record? n id = some r → r.Proper
  documented : ∀ id r, s.record? n id = some r → r.Documented
  forward : ∀ k id r r', s.record? n id = some r → s.record? (n + k) id = some r' → r.Becomes r'
  gone : ∀ k, ∀ id ∈ s.accepted n, s.record? n id = none → s.record? (n + k) id = none

variable {s : Session} {n : Nat} {log : List RequestEvent} {id : Uuid} {r r' : RequestRecord}

theorem History.known (h : s.History n log) (hr : s.record? n id = some r) : id ∈ s.accepted n := by
  obtain ⟨hsound, hlog⟩ := h.sound
  obtain ⟨hmem, rfl⟩ := record?_eq_some.1 hr
  exact hlog ▸ hsound.ledger.known r hmem

theorem History.origin (h : s.History n log) (hid : id ∈ s.accepted n)
    (hr' : s.record? (n + 1) id = some r') : ∃ r, s.record? n id = some r ∧ r.Becomes r' := by
  obtain ⟨new, answer, middle, next⟩ := h.next
  obtain ⟨-, hlog⟩ := h.sound
  obtain ⟨hmem, rfl⟩ := record?_eq_some.1 hr'
  obtain hnew | ⟨r, hr, hbecomes⟩ := next.carries.proceeds.tells.origin next.carries.sound.ledger
    (next.nodup hlog) hmem
  · rw [next.carries.accepted] at hnew
    exact absurd (hlog ▸ hid) (next.fresh hlog _ (Option.mem_toList.1 hnew))
  · exact ⟨r, record?_eq_some.2 ⟨next.carries.adjusted.kept.subset hr, hbecomes.id.symm⟩, hbecomes⟩

/-- A request that has not ended is not evicted. -/
theorem History.stays (h : s.History n log) (hr : s.record? n id = some r)
    (ha : r.state.isTerminal = false) : ∃ r', s.record? (n + 1) id = some r' ∧ r.Becomes r' := by
  obtain ⟨new, answer, middle, next⟩ := h.next
  obtain ⟨-, hlog⟩ := h.sound
  obtain ⟨hmem, rfl⟩ := record?_eq_some.1 hr
  obtain ⟨r', hr', hbecomes⟩ := next.carries.proceeds.tells.becomes next.carries.sound.ledger
    (next.nodup hlog) (next.carries.adjusted.active r hmem ha)
  exact ⟨r', record?_eq_some.2 ⟨hr', hbecomes.id⟩, hbecomes⟩

theorem record?_add (s : Session) (n k : Nat) (hid : id ∈ s.accepted n) :
    ∀ r', s.record? (n + k) id = some r' → ∃ r, s.record? n id = some r ∧ r.Becomes r' := by
  induction k with
  | zero => exact fun r' hr' => ⟨r', hr', .refl r'⟩
  | succ k ih =>
    intro r'' hr''
    obtain ⟨log, h⟩ := s.history (n + k)
    obtain ⟨r', hr', hbecomes'⟩ := h.origin ((s.accepted_add n k).subset hid) hr''
    obtain ⟨r, hr, hbecomes⟩ := ih r' hr'
    exact ⟨r, hr, hbecomes.trans hbecomes'⟩

theorem record_follows_lifecycle (s : Session) (n : Nat) : s.Lifecycle n := by
  obtain ⟨log, h⟩ := s.history n
  have hproper : ∀ id r, s.record? n id = some r → r.Proper :=
    fun id r hr => h.sound.1.ledger.proper r (record?_eq_some.1 hr).1
  refine ⟨hproper, fun id r hr => (hproper id r hr).documented, ?_, ?_⟩
  · intro k id r r' hr hr'
    obtain ⟨r₀, hr₀, hbecomes⟩ := s.record?_add n k (h.known hr) r' hr'
    rw [hr] at hr₀
    rwa [Option.some.inj hr₀]
  · intro k id hid hnone
    cases hr' : s.record? (n + k) id with
    | none => rfl
    | some r' =>
      obtain ⟨r, hr, -⟩ := s.record?_add n k hid r' hr'
      rw [hnone] at hr
      cases hr

end Session

end RequestEngine
