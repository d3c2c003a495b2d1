import RequestEngine.Proofs.Bus
import RequestEngine.Proofs.Lifecycle
import RequestEngine.Proofs.Submission

/-! What subscribers are told of the requests. Of each request they hear the story that its record
tells, piece by piece and each piece once, from the time of their subscription on. -/
namespace RequestEngine

open Ledger (submitted Tells)

/-- What an event says of its request. -/
inductive Notice where
  | submitted (agent function : String)
  | started
  | finished (state : RequestState) (error : Option String)
  deriving DecidableEq

def RequestEvent.notice : RequestEvent → Notice
  | .submitted _ agent function _ => .submitted agent function
  | .started .. => .started
  | .finished _ state error _ _ => .finished state error

/-- A beginning of one of the two words that may be told of a request. -/
def Notice.Regular (w : List Notice) : Prop :=
  ∃ agent function state error, state.isTerminal ∧
    (w <+: [.submitted agent function, .started, .finished state error] ∨
      w <+: [.submitted agent function, .finished .cancelled error])

namespace RequestRecord

variable {r r' : RequestRecord} {now : Instant}

/-- What is told of a request until it has this record. -/
def story (r : RequestRecord) : List Notice :=
  .submitted r.agent r.function ::
    ((if r.startedAt.isSome then [.started] else []) ++
      if r.state.isTerminal then [.finished r.state r.error] else [])

theorem story_begin? (hp : r.Proper) (h : r.begin? now = some r') :
    r'.story = r.story ++ [.started] := by
  obtain ⟨hs, rfl⟩ := begin?_eq_some h
  simp [story, hs, hp.waits hs]

theorem Ends.story (h : r.Ends r') :
    r'.story = r.story ++ [.finished r'.state r'.error] := by
  have hbecomes := h.becomes
  have hn := h.not_terminal
  have ht := h.terminal
  simp [RequestRecord.story, hbecomes.agent, hbecomes.function, h.startedAt, hn, ht]

/-- A request that ended without having begun was cancelled. -/
theorem Proper.story_regular (hp : r.Proper) : Notice.Regular r.story := by
  by_cases hs : r.startedAt.isSome
  · by_cases ht : r.state.isTerminal
    · exact ⟨r.agent, r.function, r.state, r.error, ht, .inl (by simp [story, hs, ht])⟩
    · exact ⟨r.agent, r.function, .failed, r.error, rfl, .inl (by simp [story, hs, ht])⟩
  · by_cases ht : r.state.isTerminal
    · have hc : r.state = .cancelled := by
        have hstarted := hp.started
        cases hr : r.state <;> simp_all [RequestState.isTerminal, RequestState.isActive]
      exact ⟨r.agent, r.function, .cancelled, r.error, rfl,
        .inr (by simp [story, hs, hc, RequestState.isTerminal, RequestState.isActive])⟩
    · exact ⟨r.agent, r.function, .failed, r.error, rfl, .inl (by simp [story, hs, ht])⟩

end RequestRecord

namespace Ledger

variable {b b' : Ledger} {log new : List RequestEvent} {event : RequestEvent} {id : Uuid}

def about (id : Uuid) (log : List RequestEvent) : List Notice :=
  (log.filter (·.request = id)).map (·.notice)

@[simp] theorem about_append (id : Uuid) (log log' : List RequestEvent) :
    about id (log ++ log') = about id log ++ about id log' := by
  simp [about]

theorem about_self (h : event.request = id) : about id [event] = [event.notice] := by
  simp [about, h]

theorem about_other (h : event.request ≠ id) : about id [event] = [] := by simp [about, h]

theorem Step.map_id (h : Step b event b') :
    b'.records.map (·.id) = b.records.map (·.id) ++ submitted [event] := by
  cases h with
  | submit _ _ _ _ _ _ records =>
    rw [records, List.map_append]
    rfl
  | start _ begins records =>
    rw [records.map_eq (by rw [(RequestRecord.begin?_eq_some begins).2])]
    simp
  | finish _ ends records =>
    rw [records.map_eq ends.becomes.id]
    simp

theorem Tells.map_id (h : Tells b new b') :
    b'.records.map (·.id) = b.records.map (·.id) ++ submitted new := by
  induction h with
  | nil => simp [submitted]
  | @cons _ _ _ event log step _ ih =>
    rw [ih, step.map_id, List.append_assoc, ← submitted_append]
    rfl

theorem Step.request_mem (h : Step b event b') : event.request ∈ b'.records.map (·.id) := by
  cases h with
  | submit _ _ _ _ _ _ records =>
    rw [records, List.map_append]
    exact List.mem_append_right _ (List.mem_singleton_self _)
  | start _ begins records =>
    have hid := congrArg RequestRecord.id (RequestRecord.begin?_eq_some begins).2
    exact List.mem_map.2 ⟨_, records.mem_new, hid⟩
  | finish _ _ records => exact List.mem_map_of_mem records.mem_new

theorem Tells.about_eq_nil (h : Tells b new b') (hid : id ∉ b'.records.map (·.id)) :
    about id new = [] := by
  induction h with
  | nil => rfl
  | @cons _ b₁ _ event log step tells ih =>
    have hne : event.request ≠ id := by
      rintro rfl
      rw [tells.map_id] at hid
      exact hid (List.mem_append_left _ step.request_mem)
    rw [← List.singleton_append, about_append, about_other hne, ih hid]
    rfl

theorem Tells.events (h : Tells b new b') : b'.events = new.foldl EventBus.emit b.events := by
  induction h with
  | nil => rfl
  | cons step _ ih =>
    rw [ih, List.foldl_cons]
    congr 1
    cases step with
    | submit _ _ _ _ _ _ _ _ _ events => exact events
    | start _ _ _ _ _ events => exact events
    | finish _ _ _ _ _ events => exact events

/-- Each record tells what was told of it, and nothing was told of others. -/
structure Heard (log : List RequestEvent) (b : Ledger) : Prop where
  stories : ∀ r ∈ b.records, about r.id log = r.story
  unknown : ∀ id, id ∉ submitted log → about id log = []

theorem Heard.adjusted (h : Heard log b) {refusals : Nat} (ha : Adjusted refusals b b') :
    Heard log b' :=
  ⟨fun r hr => h.stories r (ha.kept.subset hr), h.unknown⟩

theorem Heard.submit (h : Heard log b) {now now' : Instant} {agent function : String}
    {parameters : Json} {timeout : UInt64} (hb : b.Sound log) (hnew : id ∉ submitted log)
    (records : b'.records = b.records ++ [.new id now' agent function parameters timeout]) :
    Heard (log ++ [.submitted id agent function now]) b' := by
  have hother : ∀ other, id ≠ other → about other [.submitted id agent function now] = [] := by
    intro other hne
    apply about_other
    exact hne
  refine ⟨?_, ?_⟩
  · intro r hr
    rw [records] at hr
    obtain hr | hr := List.mem_append.1 hr
    · have hne : id ≠ r.id := fun heq => hnew (heq ▸ hb.known r hr)
      rw [about_append, hother r.id hne, List.append_nil]
      exact h.stories r hr
    · have hbefore := h.unknown id hnew
      have hnow : about id [.submitted id agent function now] = [.submitted agent function] := by
        apply about_self
        rfl
      rw [List.mem_singleton.1 hr]
      change about id (log ++ [.submitted id agent function now]) = _
      rw [about_append, hbefore, hnow]
      rfl
  · intro id' hid'
    rw [submitted_append, List.mem_append] at hid'
    have hne : id ≠ id' := by
      rintro rfl
      exact hid' (.inr (by simp))
    rw [about_append, hother id' hne, List.append_nil]
    exact h.unknown id' fun hmem => hid' (.inl hmem)

/-- A record that moves on tells one piece more. -/
theorem Heard.swapped (h : Heard log b) (hb : b.Sound log) {r r' : RequestRecord}
    (records : Swapped b.records b'.records r r') (hid : r'.id = r.id)
    (hrequest : event.request = r.id) (hstory : r'.story = r.story ++ [event.notice]) :
    Heard (log ++ [event]) b' := by
  have hmem := records.mem_iff (List.Nodup.of_map _ hb.distinct)
  refine ⟨?_, ?_⟩
  · intro x hx
    rw [about_append]
    obtain rfl | ⟨hx, hne⟩ := (hmem x).1 hx
    · rw [hid, h.stories r records.mem, about_self hrequest, hstory]
    · have hother : event.request ≠ x.id := by
        rw [hrequest]
        exact fun heq => hne (hb.eq_of_id hx records.mem heq.symm)
      rw [h.stories x hx, about_other hother, List.append_nil]
  · intro id hnot
    rw [submitted_append, List.mem_append, not_or] at hnot
    have hother : event.request ≠ id := by
      rw [hrequest]
      rintro rfl
      exact hnot.1 (hb.known r records.mem)
    rw [about_append, about_other hother, List.append_nil]
    exact h.unknown id hnot.1

theorem Heard.step (h : Heard log b) (hb : b.Sound log) (hs : b.Step event b')
    (hb' : b'.Sound (log ++ [event])) : Heard (log ++ [event]) b' := by
  cases hs with
  | submit id _ _ _ _ _ records =>
    have hfresh := hb'.fresh
    rw [submitted_append, List.nodup_append] at hfresh
    exact h.submit hb (fun hid => hfresh.2.2 id hid id (by simp) rfl) records
  | start _ begins records =>
    apply h.swapped hb records (by rw [(RequestRecord.begin?_eq_some begins).2]) rfl
    exact RequestRecord.story_begin? (hb.proper _ records.mem) begins
  | finish _ ends records => exact h.swapped hb records ends.becomes.id ends.becomes.id ends.story

theorem Heard.tells (h : Heard log b) (ht : Tells b new b') (hb : b.Sound log)
    (hfresh : (submitted (log ++ new)).Nodup) : Heard (log ++ new) b' := by
  refine ht.invariant (P := fun done c => Heard (log ++ done) c) hb hfresh (by simpa using h) ?_
  intro c c' done event hc hstep hc' hheard
  rw [← List.append_assoc] at hc' ⊢
  exact hheard.step hc hstep hc'

end Ledger

theorem Command.carried_attend {b : EventBus RequestEvent} {log : List RequestEvent}
    (h : b.Carried log) (c : Command) : (c.attend b).Carried log := by
  cases c with
  | subscribe name =>
    rw [Command.attend, EventBus.subscribe_eq h]
    exact h.subscribers _
  | receive name =>
    rw [Command.attend]
    cases hd : b.drain? name with
    | none => exact h
    | some drained => exact (EventBus.drain?_carried h hd).1
  | _ => exact h

namespace Engine

variable {e : Engine} {c : Command}

theorem AtRest.events_cleanup (h : e.AtRest) (keep : Nat) :
    (e.step (.cleanup keep)).2.events = e.events := by
  have hrest : (e.cleanup keep).2.AtRest := h.of_eq rfl rfl rfl rfl rfl
  have hsettle : (e.step (.cleanup keep)).2 = (e.cleanup keep).2 := hrest.settle
  rw [hsettle]
  rfl

theorem AtRest.events_refusal (h : e.AtRest) (hr : (e.step c).1.isRefusal) :
    (e.step c).2.events = e.events := by
  cases c with
  | submit id agent function parameters timeout =>
    cases he : e.enqueue id agent function parameters timeout with
    | ok e' =>
      rw [step_submit_ok he] at hr
      cases hr
    | error reason => rw [step_submit_error he h]
  | loadFile path content =>
    simp only [Engine.step, Engine.perform] at hr
    split at hr <;> cases hr
  | receive name =>
    simp only [Engine.step, Engine.perform] at hr
    split at hr <;> cases hr
  | _ => cases hr

end Engine

/-- What a subscriber got who began after a number of commands, up to another number of them. -/
structure Subscription where
  since : Nat
  upTo : Nat
  received : List (Received RequestEvent)

def Answer.handed : Answer → List (Received RequestEvent)
  | .events received => received
  | _ => []

namespace Session

/-- What the last subscription under a name has led to. -/
def subscription? (s : Session) (name : String) : Nat → Option Subscription
  | 0 => none
  | n + 1 =>
    match s.commands[n]? with
    | some (.subscribe other) =>
      if other = name then some ⟨n, n, []⟩ else s.subscription? name n
    | some (.receive other) =>
      if other = name then
        (s.subscription? name n).map fun sub =>
          ⟨sub.since, n, sub.received ++ ((s.engine n).step (.receive name)).1.handed⟩
      else s.subscription? name n
    | _ => s.subscription? name n

/-- The record of a request as it was last seen. -/
def lastSeen? (s : Session) : Nat → Uuid → Option RequestRecord
  | 0, id => s.record? 0 id
  | n + 1, id => (s.record? (n + 1) id).or (s.lastSeen? n id)

/-- What is told of a request until a resting point. -/
def story (s : Session) (n : Nat) (id : Uuid) : List Notice :=
  ((s.lastSeen? n id).map (·.story)).getD []

def sent (s : Session) (n : Nat) : Nat := (s.engine n).events.sent

variable {s : Session} {n m : Nat} {log new : List RequestEvent} {answer : Answer} {middle : Engine}
  {id : Uuid} {r : RequestRecord} {name : String} {sub : Subscription}

theorem History.heard (h : s.History n log) : (s.engine n).ledger.Heard log :=
  h.invariant (P := Ledger.Heard) ⟨by simp [initial, Engine.records_new], fun _ _ => rfl⟩
    (fun _ ha h => h.adjusted ha) (fun hb hs hb' h => h.step hb hs hb')

theorem lastSeen?_of_record? (h : s.record? n id = some r) : s.lastSeen? n id = some r := by
  cases n <;> simp [lastSeen?, h]

theorem lastSeen?_succ_of_none (h : s.record? (n + 1) id = none) :
    s.lastSeen? (n + 1) id = s.lastSeen? n id := by
  simp [lastSeen?, h]

theorem mem_ids : id ∈ (s.engine n).ledger.records.map (·.id) ↔ s.record? n id ≠ none := by
  rw [Option.ne_none_iff_exists', List.mem_map]
  exact exists_congr fun r => record?_eq_some.symm

/-- What was told of a request is the story of its record as it was last seen. -/
theorem History.about (h : s.History n log) (id : Uuid) : Ledger.about id log = s.story n id := by
  induction h with
  | start => rfl
  | @step n log new answer middle before next ih =>
    cases hr : s.record? (n + 1) id with
    | some r =>
      obtain ⟨hmem, rfl⟩ := record?_eq_some.1 hr
      rw [story, lastSeen?_of_record? hr]
      exact (before.step next).heard.stories r hmem
    | none =>
      have hnot : id ∉ (s.engine (n + 1)).ledger.records.map (·.id) := by
        rw [mem_ids, hr]
        simp
      rw [story, lastSeen?_succ_of_none hr, Ledger.about_append,
        next.carries.proceeds.tells.about_eq_nil hnot, List.append_nil]
      exact ih

theorem lastSeen?_eq_some (h : s.lastSeen? n id = some r) :
    s.record? n id = some r ∨ r.state.isTerminal := by
  induction n with
  | zero => exact .inl h
  | succ n ih =>
    cases hr : s.record? (n + 1) id with
    | some r' =>
      rw [lastSeen?_of_record? hr] at h
      exact .inl h
    | none =>
      rw [lastSeen?_succ_of_none hr] at h
      right
      obtain hnow | ht := ih h
      · by_contra hn
        obtain ⟨log, hlog⟩ := s.history n
        obtain ⟨r', hr', -⟩ := hlog.stays hnow (by simpa using hn)
        rw [hr] at hr'
        cases hr'
      · exact ht

/-- A request that has ended is seen the same ever after. -/
theorem lastSeen?_add (h : s.record? n id = some r) (ht : r.state.isTerminal) (k : Nat) :
    s.lastSeen? (n + k) id = some r := by
  obtain ⟨log, hlog⟩ := s.history n
  have hid := hlog.known h
  induction k with
  | zero => exact lastSeen?_of_record? h
  | succ k ih =>
    cases hr : s.record? (n + (k + 1)) id with
    | some r' =>
      obtain ⟨r₀, hr₀, hbecomes⟩ := s.record?_add n (k + 1) hid r' hr
      rw [h] at hr₀
      obtain rfl := Option.some.inj hr₀
      rw [lastSeen?_of_record? hr, hbecomes.final ht]
    | none => exact (lastSeen?_succ_of_none hr).trans ih

theorem story_regular (s : Session) (n : Nat) (id : Uuid) : Notice.Regular (s.story n id) := by
  have hproper : ∀ n r, s.record? n id = some r → Notice.Regular r.story := by
    intro n r hr
    obtain ⟨log, h⟩ := s.history n
    exact (h.sound.1.ledger.proper r (record?_eq_some.1 hr).1).story_regular
  induction n with
  | zero => exact ⟨"", "", .failed, none, rfl, .inl (List.nil_prefix)⟩
  | succ n ih =>
    cases hr : s.record? (n + 1) id with
    | some r =>
      rw [story, lastSeen?_of_record? hr]
      exact hproper _ r hr
    | none =>
      rw [story, lastSeen?_succ_of_none hr]
      exact ih

theorem Next.events (h : s.Next n log new answer middle) : (s.engine (n + 1)).events =
    new.foldl EventBus.emit
      (s.commands[n]?.elim (s.engine n).events (·.attend (s.engine n).events)) := by
  rw [← h.attended]
  exact h.carries.proceeds.tells.events

theorem History.carried (h : s.History n log) : (s.engine n).events.Carried log := by
  induction h with
  | start => exact EventBus.carried_ofCapacity _
  | @step n log new answer middle before next ih =>
    rw [next.events]
    apply EventBus.Carried.foldl_emit
    cases s.commands[n]? with
    | none => exact ih
    | some c => exact c.carried_attend ih

/-- The history until an earlier resting point is the part that was sent until then. -/
theorem History.take (h : s.History n log) (hm : m ≤ n) :
    s.History m (log.take (s.sent m)) ∧ s.sent m ≤ log.length := by
  induction h with
  | start =>
    rw [Nat.le_zero.1 hm]
    exact ⟨.start, Nat.le_refl _⟩
  | @step n log new answer middle before next ih =>
    obtain hm | rfl := Nat.le_succ_iff.1 hm
    · obtain ⟨hhistory, hle⟩ := ih hm
      rw [List.take_append_of_le_length hle, List.length_append]
      exact ⟨hhistory, by omega⟩
    · have hwhole := before.step next
      have hsent : s.sent (n + 1) = (log ++ new).length := hwhole.carried.sent
      rw [hsent, List.take_length]
      exact ⟨hwhole, Nat.le_refl _⟩

/-- A subscriber at a resting point. The bus knows what was handed out last, and who has not lost
anything got all that was sent in the meantime. -/
structure Follows (s : Session) (n : Nat) (log : List RequestEvent) (name : String)
    (sub : Subscription) : Prop where
  since : sub.since ≤ sub.upTo
  upTo : sub.upTo ≤ n
  place : (s.engine n).events.subscribers.lookup name = some (s.sent sub.upTo)
  got : ∀ events, sub.received = events.map .event →
    events = (log.take (s.sent sub.upTo)).drop (s.sent sub.since)

theorem Follows.later (h : s.Follows n log name sub) (hlog : s.History n log)
    (hplace : (s.engine (n + 1)).events.subscribers.lookup name =
      (s.engine n).events.subscribers.lookup name) : s.Follows (n + 1) (log ++ new) name sub := by
  obtain ⟨-, hle⟩ := hlog.take h.upTo
  refine ⟨h.since, Nat.le_succ_of_le h.upTo, hplace.trans h.place, ?_⟩
  rw [List.take_append_of_le_length hle]
  exact h.got

theorem Next.place (h : s.Next n log new answer middle) :
    (s.engine (n + 1)).events.subscribers =
      (s.commands[n]?.elim (s.engine n).events (·.attend (s.engine n).events)).subscribers := by
  rw [h.events]
  exact EventBus.subscribers_foldl_emit new _

theorem History.subscribe (h : s.History n log) (next : s.Next n log new answer middle)
    (hc : s.commands[n]? = some (.subscribe name)) :
    s.Follows (n + 1) (log ++ new) name ⟨n, n, []⟩ := by
  have hsent : s.sent n = log.length := h.carried.sent
  refine ⟨Nat.le_refl _, Nat.le_succ n, ?_, ?_⟩
  · rw [next.place, hc, hsent]
    exact EventBus.lookup_subscribe h.carried name
  · intro events hgot
    rw [List.map_eq_nil_iff.1 hgot.symm, List.drop_take_self]

/-- What is handed out continues what was handed out before. -/
theorem Follows.receive (hf : s.Follows n log name sub) (h : s.History n log)
    (next : s.Next n log new answer middle) (hc : s.commands[n]? = some (.receive name)) :
    s.Follows (n + 1) (log ++ new) name
      ⟨sub.since, n, sub.received ++ ((s.engine n).step (.receive name)).1.handed⟩ := by
  have hsent : s.sent n = log.length := h.carried.sent
  obtain ⟨b, hdrain, -, hplace⟩ := EventBus.drain?_of_lookup h.carried hf.place
  refine ⟨Nat.le_trans hf.since hf.upTo, Nat.le_succ n, ?_, ?_⟩
  · rw [next.place, hc, hsent]
    simpa [Command.attend, hdrain] using hplace
  · intro events hgot
    have hanswer : ((s.engine n).step (.receive name)).1.handed =
        (s.engine n).events.pending (s.sent sub.upTo) := by
      simp [Engine.step, Engine.perform, hdrain, Answer.handed]
    rw [hanswer] at hgot
    obtain ⟨before, last, rfl, hbefore, hlast⟩ := List.map_eq_append_iff.1 hgot.symm
    have hold := hf.got before hbefore.symm
    have hnew := h.carried.pending hlast.symm
    obtain ⟨hupTo, hle⟩ := h.take hf.upTo
    obtain ⟨-, hsince⟩ := hupTo.take hf.since
    have hwhole : log.take (s.sent sub.upTo) ++ log.drop (s.sent sub.upTo) = log :=
      List.take_append_drop _ _
    rw [hold, hnew, ← List.drop_append_of_le_length hsince, hwhole, hsent, List.take_left]

theorem History.follows (h : s.History n log) (hsub : s.subscription? name n = some sub) :
    s.Follows n log name sub := by
  induction h generalizing sub with
  | start => cases hsub
  | @step n log new answer middle before next ih =>
    have keeps : s.subscription? name n = some sub →
        (s.engine (n + 1)).events.subscribers.lookup name =
          (s.engine n).events.subscribers.lookup name →
        s.Follows (n + 1) (log ++ new) name sub :=
      fun hsame hplace => (ih hsame).later before hplace
    unfold subscription? at hsub
    split at hsub
    · rename_i other hc
      split at hsub
      · rename_i heq
        rw [← Option.some.inj hsub]
        exact before.subscribe next (heq ▸ hc)
      · rename_i hne
        apply keeps hsub
        rw [next.place, hc]
        exact EventBus.lookup_subscribe_ne before.carried fun heq => hne heq.symm
    · rename_i other hc
      split at hsub
      · rename_i heq
        obtain ⟨old, hold, rfl⟩ := Option.map_eq_some_iff.1 hsub
        exact (ih hold).receive before next (heq ▸ hc)
      · rename_i hne
        apply keeps hsub
        rw [next.place, hc]
        cases hd : (s.engine n).events.drain? other with
        | none => simp [Command.attend, hd]
        | some drained =>
          have hkept := (EventBus.drain?_carried before.carried hd).2 name fun heq => hne heq.symm
          simpa [Command.attend, hd] using hkept
    · rename_i hsubscribe hreceive
      apply keeps hsub
      rw [next.place]
      cases hc : s.commands[n]? with
      | none => rfl
      | some c =>
        cases c with
        | subscribe other => exact absurd hc (hsubscribe other)
        | receive other => exact absurd hc (hreceive other)
        | _ => rfl

/-- All events until a resting point, and how they fit what is seen of the requests and what the
subscribers are handed. -/
structure Announced (s : Session) (n : Nat) (log : List RequestEvent) : Prop where
  /-- The events that were sent until each resting point before. -/
  history : ∀ m ≤ n, s.History m (log.take (s.sent m))
  carried : ∀ m ≤ n, (s.engine m).events.Carried (log.take (s.sent m))
  all : s.sent n = log.length
  submissions : ∀ m ≤ n, submitted (log.take (s.sent m)) = s.accepted m
  told : ∀ m ≤ n, ∀ id, Ledger.about id (log.take (s.sent m)) = s.story m id
  regular : ∀ m ≤ n, ∀ id, Notice.Regular (s.story m id)
  seen : ∀ m ≤ n, ∀ id r, s.lastSeen? m id = some r → s.record? m id = some r ∨ r.state.isTerminal
  /-- After the end of a request nothing is told of it any more. -/
  final : ∀ m k, m ≤ k → k ≤ n → ∀ id r, s.record? m id = some r → r.state.isTerminal →
    s.story k id = s.story m id
  /-- A cleanup and a refusal are not told of. -/
  silent : ∀ m < n, ∀ c, s.commands[m]? = some c →
    (∃ keep, c = .cleanup keep) ∨ ((s.engine m).step c).1.isRefusal →
    (s.engine (m + 1)).events = (s.engine m).events
  /-- A subscriber who has lost nothing got all that was sent between two resting points: the rest
  of the story of each request, and all of it if the request was accepted since. -/
  received : ∀ name sub events, s.subscription? name n = some sub →
    sub.received = events.map .event →
    sub.since ≤ sub.upTo ∧ sub.upTo ≤ n ∧
    events = (log.take (s.sent sub.upTo)).drop (s.sent sub.since) ∧
    (∀ id, s.story sub.since id ++ Ledger.about id events = s.story sub.upTo id) ∧
    ∀ id, id ∉ s.accepted sub.since → Ledger.about id events = s.story sub.upTo id

theorem story_of_not_accepted (h : id ∉ s.accepted n) : s.story n id = [] := by
  obtain ⟨log, hlog⟩ := s.history n
  obtain ⟨-, hsubmitted⟩ := hlog.sound
  rw [← hlog.about id]
  exact hlog.heard.unknown id (hsubmitted ▸ h)

/-- What is sent between two resting points tells the rest of each story. -/
theorem History.continues (h : s.History n log) (hm : m ≤ n) (id : Uuid) :
    s.story m id ++ Ledger.about id (log.drop (s.sent m)) = s.story n id := by
  obtain ⟨hbefore, -⟩ := h.take hm
  have hsplit := congrArg (Ledger.about id) (List.take_append_drop (s.sent m) log)
  rw [Ledger.about_append, hbefore.about id, h.about id] at hsplit
  exact hsplit

theorem events_tell_each_transition (s : Session) (n : Nat) : ∃ log, s.Announced n log := by
  obtain ⟨log, h⟩ := s.history n
  have hbefore : ∀ m ≤ n, s.History m (log.take (s.sent m)) := fun m hm => (h.take hm).1
  refine ⟨log, hbefore, fun m hm => (hbefore m hm).carried, h.carried.sent,
    fun m hm => (hbefore m hm).sound.2, fun m hm => (hbefore m hm).about,
    fun m _ => s.story_regular m, fun m _ id r => lastSeen?_eq_some, ?_, ?_, ?_⟩
  · intro m k hmk _ id r hr ht
    obtain ⟨d, rfl⟩ := Nat.exists_eq_add_of_le hmk
    rw [story, story, lastSeen?_add hr ht d, lastSeen?_of_record? hr]
  · intro m _ c hc hsilent
    rw [engine_step hc]
    obtain ⟨keep, rfl⟩ | hrefused := hsilent
    · exact (s.atRest m).events_cleanup keep
    · exact (s.atRest m).events_refusal hrefused
  · intro name sub events hsub hgot
    have hfollows := h.follows hsub
    have hevents := hfollows.got events hgot
    have hstory : ∀ id, s.story sub.since id ++ Ledger.about id events = s.story sub.upTo id := by
      intro id
      rw [hevents]
      exact (hbefore sub.upTo hfollows.upTo).continues hfollows.since id
    refine ⟨hfollows.since, hfollows.upTo, hevents, hstory, fun id hid => ?_⟩
    have hid' := hstory id
    rwa [story_of_not_accepted hid, List.nil_append] at hid'

/-- Someone who subscribes first, and asks when a request is over. -/
def overheard : Session where
  registry := Registry.empty.register .nil (.plain "a" fun _ _ => .value .null)
  config := ⟨1, 10, 60000, 100, 8⟩
  startMs := 0
  commands := [.subscribe "x", .start, .submit (.ofNat 1) "a" "f" .null none, .receive "x"]
  fresh := by decide

example : (overheard.subscription? "x" 4).map (·.received.length) = some 3 ∧
    overheard.story 3 (.ofNat 1) =
      [.submitted "a" "f", .started, .finished .completed none] := by
  decide +kernel

end Session

end RequestEngine
