import Mathlib.Data.List.Nodup
import RequestEngine.Engine.Basic
import RequestEngine.Proofs.Store

/-! The ledger of an engine is what others can see of it: the records, the queue, the counters and
the events. All that happens to requests is a sequence of entries in it, one for each event. -/
namespace RequestEngine

structure Ledger where
  /-- The records, oldest first. -/
  records : List RequestRecord
  waiting : List Uuid
  statistics : Statistics
  events : EventBus RequestEvent

def Engine.ledger (e : Engine) : Ledger := ⟨e.store.records, e.queue.items, e.statistics, e.events⟩

def RequestEvent.submission? : RequestEvent → Option Uuid
  | .submitted id .. => some id
  | _ => none

def RequestEvent.start? : RequestEvent → Option Uuid
  | .started id .. => some id
  | _ => none

def RequestEvent.finish? : RequestEvent → Option (Uuid × RequestState)
  | .finished id state .. => some (id, state)
  | _ => none

namespace Ledger

/-- The requests submitted in a history, in this order. -/
def submitted (log : List RequestEvent) : List Uuid := log.filterMap (·.submission?)

def started (log : List RequestEvent) : List Uuid := log.filterMap (·.start?)

/-- The requests that ended, with their last states. -/
def finished (log : List RequestEvent) : List (Uuid × RequestState) := log.filterMap (·.finish?)

@[simp] theorem submitted_append (log log' : List RequestEvent) :
    submitted (log ++ log') = submitted log ++ submitted log' := List.filterMap_append

@[simp] theorem started_append (log log' : List RequestEvent) :
    started (log ++ log') = started log ++ started log' := List.filterMap_append

@[simp] theorem finished_append (log log' : List RequestEvent) :
    finished (log ++ log') = finished log ++ finished log' := List.filterMap_append

section

variable (id : Uuid) (worker ms : Nat) (agent function : String) (state : RequestState)
  (error : Option String) (now : Instant)

@[simp] theorem submitted_submit : submitted [.submitted id agent function now] = [id] := rfl
@[simp] theorem submitted_start : submitted [.started id worker now] = [] := rfl
@[simp] theorem submitted_finish : submitted [.finished id state error ms now] = [] := rfl

@[simp] theorem started_submit : started [.submitted id agent function now] = [] := rfl
@[simp] theorem started_start : started [.started id worker now] = [id] := rfl
@[simp] theorem started_finish : started [.finished id state error ms now] = [] := rfl

@[simp] theorem finished_submit : finished [.submitted id agent function now] = [] := rfl
@[simp] theorem finished_start : finished [.started id worker now] = [] := rfl
@[simp] theorem finished_finish : finished [.finished id state error ms now] = [(id, state)] := rfl

end

/-- An entry in the ledger, with its event. -/
inductive Step (b : Ledger) : RequestEvent → Ledger → Prop
  | submit {b' : Ledger} (id : Uuid) (now : Instant) (agent function : String)
      (parameters : Json) (timeout : UInt64)
      (records : b'.records = b.records ++ [.new id now agent function parameters timeout])
      (waiting : b'.waiting = b.waiting ++ [id])
      (statistics : b'.statistics = b.statistics.recordSubmitted)
      (events : b'.events = b.events.emit (.submitted id agent function now)) :
      Step b (.submitted id agent function now) b'
  | start {b' : Ledger} {r r' : RequestRecord} {now : Instant} (worker : Nat)
      (begins : r.begin? now = some r') (records : Swapped b.records b'.records r r')
      (waiting : b.waiting = r.id :: b'.waiting) (statistics : b'.statistics = b.statistics)
      (events : b'.events = b.events.emit (.started r.id worker now)) :
      Step b (.started r.id worker now) b'
  | finish {b' : Ledger} {r r' : RequestRecord} (now : Instant) (ends : r.Ends r')
      (records : Swapped b.records b'.records r r') (waiting : b'.waiting = b.waiting.erase r.id)
      (statistics : b'.statistics = b.statistics.recordEnd r'.state r'.executionMs)
      (events : b'.events =
        b.events.emit (.finished r'.id r'.state r'.error (r'.executionMs.getD 0) now)) :
      Step b (.finished r'.id r'.state r'.error (r'.executionMs.getD 0) now) b'

inductive Tells : Ledger → List RequestEvent → Ledger → Prop
  | nil {b : Ledger} : Tells b [] b
  | cons {b b' b'' : Ledger} {event : RequestEvent} {log : List RequestEvent} :
      Step b event b' → Tells b' log b'' → Tells b (event :: log) b''

variable {b b' b'' : Ledger} {event : RequestEvent} {log log' : List RequestEvent}

theorem Step.tells (h : Step b event b') : Tells b [event] b' := .cons h .nil

theorem Tells.append (h : Tells b log b') (h' : Tells b' log' b'') : Tells b (log ++ log') b'' := by
  induction h with
  | nil => exact h'
  | cons step _ ih => exact .cons step (ih h')

/-- The records and the queue agree with each other and with what was submitted. The queue is a
part of the submissions, all of it behind those that have begun to run. -/
structure Sound (log : List RequestEvent) (b : Ledger) : Prop where
  fresh : (submitted log).Nodup
  distinct : (b.records.map (·.id)).Nodup
  known : ∀ r ∈ b.records, r.id ∈ submitted log
  proper : ∀ r ∈ b.records, r.Proper
  waiting : ∀ id, id ∈ b.waiting ↔ ∃ r ∈ b.records, r.id = id ∧ r.state = .pending
  line : ∃ ahead behind, submitted log = ahead ++ behind ∧ (∀ id ∈ started log, id ∈ ahead) ∧
    b.waiting.Sublist behind

namespace Sound

theorem eq_of_id (hb : b.Sound log) {r r' : RequestRecord} (hr : r ∈ b.records)
    (hr' : r' ∈ b.records) (h : r.id = r'.id) : r = r' :=
  List.inj_on_of_nodup_map hb.distinct hr hr' h

theorem waiting_sublist (hb : b.Sound log) : b.waiting.Sublist (submitted log) := by
  obtain ⟨ahead, behind, hlog, -, hsub⟩ := hb.line
  rw [hlog]
  exact hsub.trans (List.sublist_append_right ahead behind)

theorem waiting_nodup (hb : b.Sound log) : b.waiting.Nodup := hb.waiting_sublist.nodup hb.fresh

theorem not_waiting (hb : b.Sound log) {r : RequestRecord} (hr : r ∈ b.records)
    (hs : r.state ≠ .pending) : r.id ∉ b.waiting := by
  intro hw
  obtain ⟨r', hr', hid, hs'⟩ := (hb.waiting r.id).1 hw
  exact hs (hb.eq_of_id hr hr' hid.symm ▸ hs')

theorem pending_swapped (hb : b.Sound log) {records : List RequestRecord} {r r' : RequestRecord}
    (h : Swapped b.records records r r') (hs : r'.state ≠ .pending) (id : Uuid) :
    (∃ x ∈ records, x.id = id ∧ x.state = .pending) ↔ id ≠ r.id ∧ id ∈ b.waiting := by
  have hmem := h.mem_iff (List.Nodup.of_map _ hb.distinct)
  rw [hb.waiting id]
  constructor
  · rintro ⟨x, hx, rfl, hxs⟩
    obtain rfl | ⟨hx, hne⟩ := (hmem x).1 hx
    · exact absurd hxs hs
    · exact ⟨fun hid => hne (hb.eq_of_id hx h.mem hid), x, hx, rfl, hxs⟩
  · rintro ⟨hne, x, hx, rfl, hxs⟩
    exact ⟨x, (hmem x).2 (.inr ⟨hx, fun hxr => hne (hxr ▸ rfl)⟩), rfl, hxs⟩

theorem submit (hb : b.Sound log) {id : Uuid} {now : Instant} {agent function : String}
    {parameters : Json} {timeout : UInt64}
    (records : b'.records = b.records ++ [.new id now agent function parameters timeout])
    (waiting : b'.waiting = b.waiting ++ [id])
    (hfresh : (submitted (log ++ [.submitted id agent function now])).Nodup) :
    b'.Sound (log ++ [.submitted id agent function now]) := by
  have hlog : submitted (log ++ [.submitted id agent function now]) = submitted log ++ [id] := by
    simp
  rw [hlog] at hfresh
  have hnew : id ∉ submitted log :=
    fun hid => (List.nodup_append.1 hfresh).2.2 id hid id (by simp) rfl
  refine ⟨by rw [hlog]; exact hfresh, ?_, ?_, ?_, ?_, ?_⟩
  · rw [records, List.map_append, List.nodup_append]
    refine ⟨hb.distinct, by simp, ?_⟩
    intro a ha c hc hac
    obtain ⟨x, hx, hxa⟩ := List.mem_map.1 ha
    have hxid : x.id = id := by
      rw [hxa, hac, List.mem_singleton.1 hc]
      rfl
    exact hnew (hxid ▸ hb.known x hx)
  · intro r hr
    rw [hlog]
    rw [records] at hr
    obtain hr | hr := List.mem_append.1 hr
    · exact List.mem_append_left _ (hb.known r hr)
    · rw [List.mem_singleton.1 hr]
      exact List.mem_append_right _ (by simp [RequestRecord.new])
  · intro r hr
    rw [records] at hr
    obtain hr | hr := List.mem_append.1 hr
    · exact hb.proper r hr
    · rw [List.mem_singleton.1 hr]
      exact RequestRecord.proper_new ..
  · intro x
    rw [waiting, records, List.mem_append, hb.waiting x]
    simp [RequestRecord.new, or_and_right, exists_or, eq_comm]
  · obtain ⟨ahead, behind, hsplit, hstarted, hsub⟩ := hb.line
    refine ⟨ahead, behind ++ [id], by rw [hlog, hsplit, List.append_assoc], ?_, ?_⟩
    · simpa using hstarted
    · rw [waiting]
      exact hsub.append (List.Sublist.refl _)

/-- A record that moves on gives up its place in the queue, and all else stays as it is. -/
theorem swapped (hb : b.Sound log) (hlog : submitted log' = submitted log) {r r' : RequestRecord}
    (records : Swapped b.records b'.records r r') (hid : r'.id = r.id) (hproper : r'.Proper)
    (hnot : r'.state ≠ .pending) (hwaiting : ∀ id, id ∈ b'.waiting ↔ id ≠ r.id ∧ id ∈ b.waiting)
    (hline : ∃ ahead behind, submitted log' = ahead ++ behind ∧
      (∀ id ∈ started log', id ∈ ahead) ∧ b'.waiting.Sublist behind) : b'.Sound log' := by
  have hmem := records.mem_iff (List.Nodup.of_map _ hb.distinct)
  refine ⟨hlog ▸ hb.fresh, by rw [records.map_eq hid]; exact hb.distinct, ?_, ?_, ?_, hline⟩
  · intro x hx
    rw [hlog]
    obtain rfl | ⟨hx, -⟩ := (hmem x).1 hx
    · rw [hid]
      exact hb.known r records.mem
    · exact hb.known x hx
  · intro x hx
    obtain rfl | ⟨hx, -⟩ := (hmem x).1 hx
    · exact hproper
    · exact hb.proper x hx
  · intro id
    rw [hwaiting, hb.pending_swapped records hnot]

theorem start (hb : b.Sound log) {r r' : RequestRecord} {now : Instant} {worker : Nat}
    (begins : r.begin? now = some r') (records : Swapped b.records b'.records r r')
    (waiting : b.waiting = r.id :: b'.waiting) : b'.Sound (log ++ [.started r.id worker now]) := by
  have hlog : submitted (log ++ [.started r.id worker now]) = submitted log := by
    simp
  obtain ⟨-, hr'⟩ := RequestRecord.begin?_eq_some begins
  refine hb.swapped hlog records (by rw [hr']) ((hb.proper r records.mem).begin? begins)
    (by rw [hr']; exact RequestState.noConfusion) ?_ ?_
  · intro id
    have hn := hb.waiting_nodup
    rw [waiting, List.nodup_cons] at hn
    rw [waiting, List.mem_cons]
    constructor
    · exact fun hw => ⟨fun he => hn.1 (he ▸ hw), .inr hw⟩
    · exact fun ⟨hne, hw⟩ => hw.resolve_left hne
  · obtain ⟨ahead, behind, hsplit, hstarted, hsub⟩ := hb.line
    rw [waiting] at hsub
    obtain ⟨passed, rest, hbehind, hpassed, hrest⟩ := List.cons_sublist_iff.1 hsub
    refine ⟨ahead ++ passed, rest, by rw [hlog, hsplit, hbehind, List.append_assoc], ?_, hrest⟩
    intro id hid
    obtain hid | hid := List.mem_append.1 (started_append log _ ▸ hid)
    · exact List.mem_append_left _ (hstarted id hid)
    · have hidr : id = r.id := by simpa using hid
      exact List.mem_append_right _ (hidr ▸ hpassed)

theorem finish (hb : b.Sound log) {r r' : RequestRecord} {now : Instant} {error : Option String}
    {ms : Nat} (ends : r.Ends r') (records : Swapped b.records b'.records r r')
    (waiting : b'.waiting = b.waiting.erase r.id) :
    b'.Sound (log ++ [.finished r'.id r'.state error ms now]) := by
  have hlog : submitted (log ++ [.finished r'.id r'.state error ms now]) = submitted log := by
    simp
  have hnot : r'.state ≠ .pending := fun h => by have ht := ends.terminal; rw [h] at ht; cases ht
  refine hb.swapped hlog records ends.becomes.id ((hb.proper r records.mem).ends ends) hnot ?_ ?_
  · intro id
    rw [waiting, hb.waiting_nodup.mem_erase_iff]
  · obtain ⟨ahead, behind, hsplit, hstarted, hsub⟩ := hb.line
    refine ⟨ahead, behind, by rw [hlog, hsplit], ?_, ?_⟩
    · simpa using hstarted
    · rw [waiting]
      exact List.erase_sublist.trans hsub

theorem step (hb : b.Sound log) (h : Step b event b')
    (hfresh : (submitted (log ++ [event])).Nodup) : b'.Sound (log ++ [event]) := by
  cases h with
  | submit _ _ _ _ _ _ records waiting => exact hb.submit records waiting hfresh
  | start _ begins records waiting => exact hb.start begins records waiting
  | finish _ ends records waiting => exact hb.finish ends records waiting

end Sound

/-- What holds at first and is kept by each entry holds in the end. All ledgers on the way are
sound. -/
theorem Tells.invariant (h : Tells b log' b') : ∀ {log : List RequestEvent}
    {P : List RequestEvent → Ledger → Prop}, b.Sound log → (submitted (log ++ log')).Nodup →
    P [] b → (∀ {c c' done event}, c.Sound (log ++ done) → Step c event c' →
      c'.Sound (log ++ (done ++ [event])) → P done c → P (done ++ [event]) c') → P log' b' := by
  induction h with
  | nil => exact fun _ _ h₀ _ => h₀
  | @cons b b' _ event rest step _ ih =>
    intro log P hb hfresh h₀ hstep
    have hall : log ++ event :: rest = (log ++ [event]) ++ rest := by simp
    rw [hall] at hfresh
    have hfirst : (submitted (log ++ [event])).Nodup := by
      rw [submitted_append] at hfresh
      exact (List.nodup_append.1 hfresh).1
    have hb' := hb.step step hfirst
    refine ih (P := fun done => P (event :: done)) hb' hfresh
      (hstep (by simpa using hb) step (by simpa using hb') h₀) ?_
    intro c c' done event' hc hstep' hc' hP
    have hbefore : c.Sound (log ++ event :: done) := by simpa using hc
    have hafter : c'.Sound (log ++ (event :: done ++ [event'])) := by simpa using hc'
    exact hstep hbefore hstep' hafter hP

theorem Tells.sound (h : Tells b log' b') (hb : b.Sound log)
    (hfresh : (submitted (log ++ log')).Nodup) : b'.Sound (log ++ log') :=
  h.invariant (P := fun done c => c.Sound (log ++ done)) hb hfresh (by simpa using hb)
    fun _ _ hc' _ => hc'

theorem Step.becomes (hb : b.Sound log) (h : Step b event b') {r : RequestRecord}
    (hr : r ∈ b.records) : ∃ r' ∈ b'.records, r.Becomes r' := by
  have key : ∀ {x x'}, Swapped b.records b'.records x x' → x.Becomes x' →
      ∃ r' ∈ b'.records, r.Becomes r' := by
    intro x x' hswap hbecomes
    by_cases hrx : r = x
    · exact ⟨x', hswap.mem_new, hrx ▸ hbecomes⟩
    · exact ⟨r, (hswap.mem_iff (List.Nodup.of_map _ hb.distinct) r).2 (.inr ⟨hr, hrx⟩), .refl r⟩
  cases h with
  | submit _ _ _ _ _ _ records => exact ⟨r, by rw [records]; simp [hr], .refl r⟩
  | start _ begins records =>
    exact key records (RequestRecord.becomes_of_begin? (hb.proper _ records.mem) begins)
  | finish _ ends records => exact key records ends.becomes

theorem Step.origin (hb : b.Sound log) (h : Step b event b') {r' : RequestRecord}
    (hr' : r' ∈ b'.records) : r'.id ∈ submitted [event] ∨ ∃ r ∈ b.records, r.Becomes r' := by
  have key : ∀ {x x'}, Swapped b.records b'.records x x' → x.Becomes x' →
      ∃ r ∈ b.records, r.Becomes r' := by
    intro x x' hswap hbecomes
    obtain rfl | ⟨hmem, -⟩ := (hswap.mem_iff (List.Nodup.of_map _ hb.distinct) r').1 hr'
    · exact ⟨x, hswap.mem, hbecomes⟩
    · exact ⟨r', hmem, .refl r'⟩
  cases h with
  | submit id _ _ _ _ _ records =>
    rw [records] at hr'
    obtain hr' | hr' := List.mem_append.1 hr'
    · exact .inr ⟨r', hr', .refl r'⟩
    · rw [List.mem_singleton.1 hr']
      exact .inl (by simp [RequestRecord.new])
  | start _ begins records =>
    exact .inr (key records (RequestRecord.becomes_of_begin? (hb.proper _ records.mem) begins))
  | finish _ ends records => exact .inr (key records ends.becomes)

theorem Tells.becomes (h : Tells b log' b') (hb : b.Sound log)
    (hfresh : (submitted (log ++ log')).Nodup) {r : RequestRecord} (hr : r ∈ b.records) :
    ∃ r' ∈ b'.records, r.Becomes r' := by
  refine h.invariant (P := fun _ c => ∃ r' ∈ c.records, r.Becomes r') hb hfresh ⟨r, hr, .refl r⟩ ?_
  rintro c c' done event hc hstep - ⟨r', hr', hbecomes⟩
  obtain ⟨r'', hr'', hbecomes'⟩ := hstep.becomes hc hr'
  exact ⟨r'', hr'', hbecomes.trans hbecomes'⟩

theorem Tells.origin (h : Tells b log' b') (hb : b.Sound log)
    (hfresh : (submitted (log ++ log')).Nodup) {r' : RequestRecord} (hr' : r' ∈ b'.records) :
    r'.id ∈ submitted log' ∨ ∃ r ∈ b.records, r.Becomes r' := by
  refine h.invariant (P := fun done c => ∀ r' ∈ c.records,
    r'.id ∈ submitted done ∨ ∃ r ∈ b.records, r.Becomes r') hb hfresh
    (fun r hr => .inr ⟨r, hr, .refl r⟩) ?_ r' hr'
  intro c c' done event hc hstep _ hP r'' hr''
  rw [submitted_append]
  obtain hnew | ⟨r', hr', hbecomes'⟩ := hstep.origin hc hr''
  · exact .inl (List.mem_append_right _ hnew)
  · obtain hnew | ⟨r, hr, hbecomes⟩ := hP r' hr'
    · exact .inl (List.mem_append_left _ (hbecomes'.id ▸ hnew))
    · exact .inr ⟨r, hr, hbecomes.trans hbecomes'⟩

/-- The ledger is corrected without an entry: refusals are counted, old records are evicted. -/
structure Adjusted (refusals : Nat) (b b' : Ledger) : Prop where
  waiting : b'.waiting = b.waiting
  statistics : b'.statistics = { b.statistics with rejected := b.statistics.rejected + refusals }
  kept : b'.records.Sublist b.records
  active : ∀ r ∈ b.records, r.state.isTerminal = false → r ∈ b'.records

theorem Adjusted.refl (b : Ledger) : Adjusted 0 b b :=
  ⟨rfl, rfl, List.Sublist.refl _, fun _ hr _ => hr⟩

theorem Sound.adjusted {log : List RequestEvent} {refusals : Nat} {b b' : Ledger}
    (hb : b.Sound log) (h : Adjusted refusals b b') : b'.Sound log where
  fresh := hb.fresh
  distinct := (h.kept.map _).nodup hb.distinct
  known r hr := hb.known r (h.kept.subset hr)
  proper r hr := hb.proper r (h.kept.subset hr)
  waiting id := by
    rw [h.waiting, hb.waiting id]
    constructor
    · rintro ⟨r, hr, hid, hp⟩
      exact ⟨r, h.active r hr (by rw [hp]; rfl), hid, hp⟩
    · rintro ⟨r, hr, hid, hp⟩
      exact ⟨r, h.kept.subset hr, hid, hp⟩
  line := h.waiting ▸ hb.line

end Ledger

end RequestEngine
