import Mathlib.Logic.Relation
import RequestEngine.Request.Record

/-! How a record may change, and how its fields hang together in each state. A record keeps what
was asked, its state only moves forward, and once the request has ended the record is final. -/
namespace RequestEngine

namespace RequestState

/-- The next state of a request. It runs before it ends, unless it is cancelled while it waits. -/
inductive Next : RequestState → RequestState → Prop
  | begin : Next .pending .running
  | cancel : Next .pending .cancelled
  | finish {s : RequestState} (ended : s.isTerminal) : Next .running s

/-- Some states later, or none. -/
def Leads : RequestState → RequestState → Prop := Relation.ReflTransGen Next

@[simp] theorem isTerminal_pending : isTerminal .pending = false := rfl

@[simp] theorem isTerminal_running : isTerminal .running = false := rfl

theorem isTerminal_eq_false_iff (s : RequestState) :
    s.isTerminal = false ↔ s = .pending ∨ s = .running := by
  cases s <;> decide

theorem Leads.refl (s : RequestState) : s.Leads s := Relation.ReflTransGen.refl

theorem Leads.trans {s t u : RequestState} (h : s.Leads t) (h' : t.Leads u) : s.Leads u :=
  Relation.ReflTransGen.trans h h'

theorem Next.leads {s t : RequestState} (h : Next s t) : s.Leads t := Relation.ReflTransGen.single h

end RequestState

namespace RequestRecord

/-- The fields of a record that has come to its state in the regular way. -/
structure Proper (r : RequestRecord) : Prop where
  result : r.result.isSome ↔ r.state = .completed
  error : r.error.isSome ↔ r.state = .failed ∨ r.state = .timeout ∨ r.state = .cancelled
  text : r.error ≠ some ""
  finished : r.finishedAt.isSome ↔ r.state.isTerminal
  waits : r.state = .pending → r.startedAt = none
  started : r.state = .running ∨ r.state = .completed ∨ r.state = .failed ∨ r.state = .timeout →
    r.startedAt.isSome

/-- What a record may be later. -/
structure Becomes (r r' : RequestRecord) : Prop where
  id : r'.id = r.id
  agent : r'.agent = r.agent
  function : r'.function = r.function
  parameters : r'.parameters = r.parameters
  timeout : r'.timeout = r.timeout
  submittedAt : r'.submittedAt = r.submittedAt
  state : r.state.Leads r'.state
  started : r.startedAt.isSome → r'.startedAt = r.startedAt
  final : r.state.isTerminal → r' = r

theorem Becomes.refl (r : RequestRecord) : r.Becomes r :=
  ⟨rfl, rfl, rfl, rfl, rfl, rfl, .refl _, fun _ => rfl, fun _ => rfl⟩

theorem Becomes.trans {r r' r'' : RequestRecord} (h : r.Becomes r') (h' : r'.Becomes r'') :
    r.Becomes r'' where
  id := h'.id.trans h.id
  agent := h'.agent.trans h.agent
  function := h'.function.trans h.function
  parameters := h'.parameters.trans h.parameters
  timeout := h'.timeout.trans h.timeout
  submittedAt := h'.submittedAt.trans h.submittedAt
  state := h.state.trans h'.state
  started := by
    intro hs
    rw [h'.started (by rw [h.started hs]; exact hs), h.started hs]
  final := by
    intro ht
    have hr := h.final ht
    subst hr
    exact h'.final ht

theorem begin?_eq_some {r r' : RequestRecord} {now : Instant} (h : r.begin? now = some r') :
    r.state = .pending ∧ r' = { r with state := .running, startedAt := some now } := by
  unfold begin? at h
  split at h
  · exact ⟨‹_›, (Option.some.inj h).symm⟩
  · cases h

theorem complete?_eq_some {r r' : RequestRecord} {now : Instant} {v : Json}
    (h : r.complete? now v = some r') :
    r.state.isTerminal = false ∧
      r' = { r with state := .completed, result := some v, finishedAt := some now } := by
  unfold complete? at h
  split at h
  · cases h
  · rename_i hn
    exact ⟨by simpa using hn, (Option.some.inj h).symm⟩

/-- The text that a failure ends up with. -/
def failureText (kind : FailureKind) (message : String) : String :=
  if message = "" then kind.state.text else message

theorem failureText_ne_empty (kind : FailureKind) (message : String) :
    failureText kind message ≠ "" := by
  unfold failureText
  split
  · cases kind <;> decide
  · assumption

theorem fail?_eq_some {r r' : RequestRecord} {now : Instant} {kind : FailureKind}
    {message : String} (h : r.fail? now kind message = some r') :
    r.state.isTerminal = false ∧
      r' = { r with
        state := kind.state
        error := some (failureText kind message)
        finishedAt := some now } := by
  unfold fail? at h
  split at h
  · cases h
  · rename_i hn
    exact ⟨by simpa using hn, (Option.some.inj h).symm⟩

/-- The ways to end: a request that runs completes or fails, and one that waits or runs is
cancelled. -/
inductive Ends (r : RequestRecord) : RequestRecord → Prop
  | complete {r' : RequestRecord} {now : Instant} {v : Json} (running : r.state = .running)
      (h : r.complete? now v = some r') : Ends r r'
  | fail {r' : RequestRecord} {now : Instant} {kind : FailureKind} {message : String}
      (may : r.state = .running ∨ kind = .cancelled) (h : r.fail? now kind message = some r') :
      Ends r r'

theorem becomes_of_begin? {r r' : RequestRecord} {now : Instant} (hp : r.Proper)
    (h : r.begin? now = some r') : r.Becomes r' := by
  obtain ⟨hs, rfl⟩ := begin?_eq_some h
  refine ⟨rfl, rfl, rfl, rfl, rfl, rfl, ?_, ?_, ?_⟩
  · rw [hs]
    exact RequestState.Next.begin.leads
  · rw [hp.waits hs]
    intro hn
    cases hn
  · rw [hs]
    intro ht
    cases ht

theorem Ends.not_terminal {r r' : RequestRecord} (h : r.Ends r') : r.state.isTerminal = false := by
  cases h with
  | complete _ h => exact (complete?_eq_some h).1
  | fail _ h => exact (fail?_eq_some h).1

theorem Ends.terminal {r r' : RequestRecord} (h : r.Ends r') : r'.state.isTerminal := by
  cases h with
  | complete _ h => rw [(complete?_eq_some h).2]; rfl
  | fail _ h => rw [(fail?_eq_some h).2]; exact FailureKind.isTerminal_state _

theorem Ends.leads {r r' : RequestRecord} (h : r.Ends r') : r.state.Leads r'.state := by
  have ht := h.terminal
  have hn := h.not_terminal
  cases hs : r.state with
  | running => exact (RequestState.Next.finish ht).leads
  | pending =>
    cases h with
    | complete running _ => rw [hs] at running; cases running
    | fail may h =>
      obtain running | rfl := may
      · rw [hs] at running; cases running
      · rw [(fail?_eq_some h).2]
        exact RequestState.Next.cancel.leads
  | _ => rw [hs] at hn; cases hn

theorem Ends.startedAt {r r' : RequestRecord} (h : r.Ends r') : r'.startedAt = r.startedAt := by
  cases h with
  | complete _ h => rw [(complete?_eq_some h).2]
  | fail _ h => rw [(fail?_eq_some h).2]

theorem Ends.becomes {r r' : RequestRecord} (h : r.Ends r') : r.Becomes r' := by
  have hl := h.leads
  have hn := h.not_terminal
  cases h with
  | complete _ h =>
    obtain ⟨-, rfl⟩ := complete?_eq_some h
    exact ⟨rfl, rfl, rfl, rfl, rfl, rfl, hl, fun _ => rfl, fun ht => by rw [hn] at ht; cases ht⟩
  | fail _ h =>
    obtain ⟨-, rfl⟩ := fail?_eq_some h
    exact ⟨rfl, rfl, rfl, rfl, rfl, rfl, hl, fun _ => rfl, fun ht => by rw [hn] at ht; cases ht⟩

/-- The fields of a record, whichever way it has come to its state. -/
structure Formed (r : RequestRecord) : Prop where
  result : r.result.isSome ↔ r.state = .completed
  error : r.error.isSome ↔ r.state = .failed ∨ r.state = .timeout ∨ r.state = .cancelled
  text : r.error ≠ some ""
  finished : r.finishedAt.isSome ↔ r.state.isTerminal
  waits : r.state = .pending → r.startedAt = none
  started : r.state = .running → r.startedAt.isSome

theorem formed_new (id : Uuid) (now : Instant) (agent function : String) (parameters : Json)
    (timeout : UInt64) : (new id now agent function parameters timeout).Formed where
  result := by simp [new]
  error := by simp [new]
  text := by simp [new]
  finished := by simp [new, RequestState.isTerminal, RequestState.isActive]
  waits _ := rfl
  started := by simp [new]

theorem Formed.begin? {r r' : RequestRecord} {now : Instant} (hp : r.Formed)
    (h : r.begin? now = some r') : r'.Formed := by
  obtain ⟨hs, rfl⟩ := begin?_eq_some h
  obtain ⟨hr, he, ht, hf, -, -⟩ := hp
  rw [hs] at hr he hf
  exact ⟨by simpa using hr, by simpa using he, ht, by simpa using hf, by simp, by simp⟩

theorem Formed.blank {r : RequestRecord} (hp : r.Formed) (h : r.state.isTerminal = false) :
    r.result = none ∧ r.error = none := by
  have hr := hp.result
  have he := hp.error
  cases hs : r.state <;> rw [hs] at h <;> simp_all [RequestState.isTerminal, RequestState.isActive]

theorem Formed.complete? {r r' : RequestRecord} {now : Instant} {v : Json} (hp : r.Formed)
    (h : r.complete? now v = some r') : r'.Formed := by
  obtain ⟨hn, rfl⟩ := complete?_eq_some h
  obtain ⟨-, he⟩ := hp.blank hn
  exact ⟨by simp, by simp [he], by simp [he], by simp; rfl, by simp, by simp⟩

theorem Formed.fail? {r r' : RequestRecord} {now : Instant} {kind : FailureKind}
    {message : String} (hp : r.Formed) (h : r.fail? now kind message = some r') : r'.Formed := by
  obtain ⟨hn, rfl⟩ := fail?_eq_some h
  obtain ⟨hr, -⟩ := hp.blank hn
  refine ⟨?_, ?_, ?_, ?_, ?_, ?_⟩
  · cases kind <;> simp [hr, FailureKind.state]
  · cases kind <;> simp [FailureKind.state]
  · simpa using failureText_ne_empty kind message
  · simp
  · cases kind <;> simp [FailureKind.state]
  · cases kind <;> simp [FailureKind.state]

theorem Proper.formed {r : RequestRecord} (hp : r.Proper) : r.Formed :=
  ⟨hp.result, hp.error, hp.text, hp.finished, hp.waits, fun hs => hp.started (.inl hs)⟩

/-- A record is proper if the request has begun before it ended, or was cancelled. -/
theorem Formed.proper {r : RequestRecord} (hf : r.Formed)
    (h : r.state = .completed ∨ r.state = .failed ∨ r.state = .timeout → r.startedAt.isSome) :
    r.Proper := by
  refine ⟨hf.result, hf.error, hf.text, hf.finished, hf.waits, ?_⟩
  rintro (hs | hs)
  · exact hf.started hs
  · exact h hs

theorem proper_new (id : Uuid) (now : Instant) (agent function : String) (parameters : Json)
    (timeout : UInt64) : (new id now agent function parameters timeout).Proper :=
  (formed_new id now agent function parameters timeout).proper (by simp [new])

theorem Proper.begin? {r r' : RequestRecord} {now : Instant} (hp : r.Proper)
    (h : r.begin? now = some r') : r'.Proper := by
  refine (hp.formed.begin? h).proper ?_
  obtain ⟨-, rfl⟩ := begin?_eq_some h
  simp

theorem Proper.blank {r : RequestRecord} (hp : r.Proper) (h : r.state.isTerminal = false) :
    r.result = none ∧ r.error = none := hp.formed.blank h

theorem Proper.ends {r r' : RequestRecord} (hp : r.Proper) (h : r.Ends r') : r'.Proper := by
  have hstart := h.startedAt
  cases h with
  | complete running h =>
    refine (hp.formed.complete? h).proper fun _ => ?_
    rw [hstart]
    exact hp.started (.inl running)
  | @fail now kind message may h =>
    refine (hp.formed.fail? h).proper fun hs => ?_
    rw [hstart]
    refine hp.started (.inl (may.resolve_right ?_))
    rintro rfl
    rw [(fail?_eq_some h).2] at hs
    simp [FailureKind.state] at hs

theorem document_result (r : RequestRecord) : r.document.get? "result" = r.result := by
  cases he : r.error <;> cases hr : r.result <;>
    simp [document, Json.get?, Entries.find?, he, hr]

theorem document_error (r : RequestRecord) :
    r.document.get? "error" = r.error.map .string := by
  cases he : r.error <;> cases hr : r.result <;>
    simp [document, Json.get?, Entries.find?, he, hr]

end RequestRecord

end RequestEngine
