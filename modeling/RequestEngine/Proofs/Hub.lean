import Mathlib.Order.Bounds.Basic
import RequestEngine.Proofs.RingBuffer
import RequestEngine.Proofs.Subscribers

/-! Readers at a ring, each with a place of its own. In every session they get, slot by slot, what
the subscribers of a bus get; so the bus deals fairly with any number of them, up to and across the
turn of the ring. -/
namespace RequestEngine

universe u

variable {α : Type u}

namespace EventBus

theorem leastPowerOfTwo_pos (n : Nat) : 0 < leastPowerOfTwo n := by
  rw [leastPowerOfTwo, Nat.one_shiftLeft]
  exact Nat.two_pow_pos _

/-- There is room for as many events as were asked for, and for at least one. -/
theorem isLeast_room (capacity : Nat) :
    IsLeast {n | max capacity 1 ≤ n ∧ n.isPowerOfTwo} (ofCapacity capacity : EventBus α).room := by
  change IsLeast _ (leastPowerOfTwo (max capacity 1))
  generalize hn : max capacity 1 = n
  have hne : 2 * n - 1 ≠ 0 := by omega
  rw [leastPowerOfTwo, Nat.one_shiftLeft]
  refine ⟨⟨?_, _, rfl⟩, ?_⟩
  · have hlt : 2 * n - 1 < 2 ^ ((2 * n - 1).log2 + 1) := Nat.lt_log2_self
    rw [Nat.pow_succ] at hlt
    omega
  · rintro _ ⟨hle, k, rfl⟩
    have hlt : 2 * n - 1 < 2 ^ (k + 1) := by
      rw [Nat.pow_succ]
      omega
    exact Nat.pow_le_pow_right (by decide) (Nat.lt_succ_iff.1 ((Nat.log2_lt hne).2 hlt))

end EventBus

structure Hub (α : Type u) where
  ring : RingBuffer α
  readers : List (String × Nat)

namespace Hub

open EventBus (Drained)

def ofSize (n : Nat) : Hub α := ⟨.ofSize n, []⟩

/-- What can come of a command at a ring. -/
inductive Step (h : Hub α) : EventBus.Command α → Option (Drained α) → Hub α → Prop
  | subscribe {name : String} (opened : h.ring.closed = false) :
      Step h (.subscribe name) none
        { h with readers := (name, h.ring.sent) :: h.readers.filter (·.1 ≠ name) }
  | refuse {name : String} (closed : h.ring.closed = true) : Step h (.subscribe name) none h
  | emit (e : α) : Step h (.emit e) none { h with ring := h.ring.write e }
  | drain {name : String} {place last : Nat} {received : List (Received α)} {ended : Bool}
      (found : h.readers.lookup name = some place)
      (reads : h.ring.Drains place received ended last) :
      Step h (.drain name) (some ⟨received, ended⟩)
        { h with readers := h.readers.map fun s => if s.1 = name then (name, last) else s }
  | miss {name : String} (absent : h.readers.lookup name = none) : Step h (.drain name) none h
  | unsubscribe (name : String) :
      Step h (.unsubscribe name) none { h with readers := h.readers.filter (·.1 ≠ name) }
  | close : Step h .close none { h with ring := { h.ring with closed := true } }

inductive Runs : Hub α → List (EventBus.Command α) → List (Option (Drained α)) → Prop
  | nil {h : Hub α} : Runs h [] []
  | cons {h h' : Hub α} {c : EventBus.Command α} {session : List (EventBus.Command α)}
      {answer : Option (Drained α)} {answers : List (Option (Drained α))}
      (step : Step h c answer h') (rest : Runs h' session answers) :
      Runs h (c :: session) (answer :: answers)

/-- The ring holds the events that the bus has carried, and the readers are where its subscribers
are. -/
structure Matches (log : List α) (h : Hub α) (b : EventBus α) : Prop where
  holds : h.ring.Holds log
  steady : b.Steady log
  readers : h.readers = b.subscribers
  closed : h.ring.closed = b.closed
  room : h.ring.room = b.room
  positive : 0 < b.room

variable {h h' h'' : Hub α} {b : EventBus α} {log : List α} {c : EventBus.Command α}
  {answer answer' : Option (Drained α)}

theorem matches_ofSize (capacity : Nat) :
    Matches [] (ofSize (EventBus.ofCapacity capacity : EventBus α).room)
      (EventBus.ofCapacity capacity : EventBus α) where
  holds := RingBuffer.holds_ofSize _
  steady := EventBus.steady_ofCapacity capacity
  readers := rfl
  closed := rfl
  room := by simp [ofSize, RingBuffer.ofSize, RingBuffer.room]
  positive := EventBus.leastPowerOfTwo_pos _

/-- The ring does what the bus does. -/
theorem Matches.step (hm : Matches log h b) (c : EventBus.Command α) :
    ∃ h', Step h c (b.perform c).1 h' ∧ Matches (log ++ c.sent b.closed) h' (b.perform c).2 := by
  obtain ⟨hholds, hsteady, hreaders, hclosed, hroom, hpositive⟩ := hm
  have hafter := hsteady.perform c
  have hsent : h.ring.sent = b.sent := hholds.sent.trans hsteady.carried.sent.symm
  obtain ⟨hcloses, hnext⟩ := EventBus.perform_frame b c
  cases c with
  | subscribe name =>
    simp only [EventBus.Command.sent, List.append_nil] at hafter ⊢
    cases hopen : b.closed with
    | true =>
      have hsame : b.subscribe name = b := by simp [EventBus.subscribe, hopen]
      rw [EventBus.perform, hsame]
      exact ⟨h, .refuse (hclosed.trans hopen), hholds, hsteady, hreaders, hclosed, hroom, hpositive⟩
    | false =>
      refine ⟨_, .subscribe (hclosed.trans hopen), hholds, hafter, ?_, ?_, ?_,
        hpositive.trans_eq ?_⟩
      · simp [EventBus.perform, EventBus.subscribe, hopen, hreaders, hsent]
      · exact hclosed.trans hcloses.symm
      · exact hroom.trans hnext.symm
      · exact hnext.symm
  | emit e =>
    refine ⟨_, .emit e, ?_, hafter, ?_, ?_, ?_, hpositive.trans_eq hnext.symm⟩
    · cases hopen : b.closed with
      | true => simpa [EventBus.Command.sent, RingBuffer.write, hclosed, hopen] using hholds
      | false => exact hholds.write (hroom ▸ hpositive) (hclosed.trans hopen) e
    · simp only [hreaders, EventBus.perform, EventBus.emit]
      split <;> rfl
    · rw [RingBuffer.closed_write, hclosed]
      exact hcloses.symm
    · rw [RingBuffer.room_write, hroom, hnext]
  | drain name =>
    simp only [EventBus.Command.sent, List.append_nil] at hafter ⊢
    rw [EventBus.perform_drain] at hafter ⊢
    cases hplace : b.subscribers.lookup name with
    | none =>
      exact ⟨h, .miss (hreaders ▸ hplace), hholds, hsteady, hreaders, hclosed, hroom, hpositive⟩
    | some place =>
      rw [hplace] at hafter
      have hwithin := hsteady.within name place hplace
      have hdrains := hholds.drains (hroom ▸ hpositive) hwithin
      have hpending : b.pending place = EventBus.handed b.room (log.drop place) :=
        hsteady.carried.pending_eq place
      rw [hroom, hclosed, ← hpending] at hdrains
      refine ⟨_, .drain (hreaders ▸ hplace) hdrains, hholds, hafter, ?_, hclosed, hroom, hpositive⟩
      simp only [hreaders, ← hsent, hholds.sent]
  | unsubscribe name =>
    simp only [EventBus.Command.sent, List.append_nil] at hafter ⊢
    refine ⟨_, .unsubscribe name, hholds, hafter, ?_, hclosed, hroom, hpositive⟩
    simp only [hreaders]
    rfl
  | close =>
    simp only [EventBus.Command.sent, List.append_nil] at hafter ⊢
    exact ⟨_, .close, ⟨hholds.sent, hholds.kept, hholds.empty⟩, hafter, hreaders, rfl, hroom,
      hpositive⟩

theorem Step.unique (hs : Step h c answer h') (hs' : Step h c answer' h'') :
    answer = answer' ∧ h' = h'' := by
  cases hs with
  | subscribe opened => cases hs' with
    | subscribe => exact ⟨rfl, rfl⟩
    | refuse closed => cases opened.symm.trans closed
  | refuse closed => cases hs' with
    | subscribe opened => cases opened.symm.trans closed
    | refuse => exact ⟨rfl, rfl⟩
  | emit e =>
    cases hs'
    exact ⟨rfl, rfl⟩
  | drain found reads => cases hs' with
    | drain found' reads' =>
      obtain rfl := Option.some.inj (found.symm.trans found')
      obtain ⟨rfl, rfl, rfl⟩ := reads.unique reads'
      exact ⟨rfl, rfl⟩
    | miss absent => cases found.symm.trans absent
  | miss absent => cases hs' with
    | drain found => cases found.symm.trans absent
    | miss => exact ⟨rfl, rfl⟩
  | unsubscribe name =>
    cases hs'
    exact ⟨rfl, rfl⟩
  | close =>
    cases hs'
    exact ⟨rfl, rfl⟩

theorem Matches.runs_iff (session : List (EventBus.Command α)) :
    ∀ {log : List α} {h : Hub α} {b : EventBus α} {answers : List (Option (Drained α))},
      Matches log h b → (Runs h session answers ↔ answers = b.answers session) := by
  induction session with
  | nil =>
    intro log h b answers _
    constructor
    · rintro ⟨⟩
      rfl
    · rintro rfl
      exact .nil
  | cons c session ih =>
    intro log h b answers hm
    obtain ⟨h', hstep, hm'⟩ := hm.step c
    constructor
    · rintro (_ | ⟨hstep', hrest⟩)
      obtain ⟨rfl, rfl⟩ := hstep.unique hstep'
      rw [(ih hm').1 hrest]
      rfl
    · rintro rfl
      exact .cons hstep ((ih hm').2 rfl)

end Hub

namespace EventBus

/-- All that a subscriber who comes after a session gets, from the subscription to a last drain. -/
def lifelong (capacity : Nat) (name : String) (before life : List (Command α)) :
    List (Received α) :=
  received name ((ofCapacity capacity).after (before ++ [.subscribe name])) (life ++ [.drain name])

/-- A bus that was asked for some capacity deals fairly with its subscribers. It has room for the
least power of two, and works like a ring with so many slots. -/
structure Fair (α : Type u) (capacity room : Nat) : Prop where
  least : IsLeast {n | max capacity 1 ≤ n ∧ n.isPowerOfTwo} room
  ring : ∀ (session : List (Command α)) (answers : List (Option (Drained α))),
    Hub.Runs (.ofSize room) session answers ↔ answers = (ofCapacity capacity).answers session
  /-- A drain hands over the events since the subscription or the last drain, of which the oldest
  are counted as lost if there are more than there is room for. -/
  drained : ∀ (session : List (Command α)) (name : String),
    (((ofCapacity capacity).after session).perform (.drain name)).1 =
      (backlog name session).missed.map fun missed =>
        ⟨handed room missed, (backlog name session).closed⟩
  /-- Over a whole life, all events are received or counted as lost, once and in order. -/
  whole : ∀ (name : String) (before life : List (Command α)), .close ∉ before →
    (∀ c ∈ life, c ≠ .subscribe name ∧ c ≠ .unsubscribe name) →
      Covers (lifelong capacity name before life) (emitted false life) ∧
      (eventsIn (lifelong capacity name before life)).length +
        lostIn (lifelong capacity name before life) = (emitted false life).length ∧
      (eventsIn (lifelong capacity name before life)).Sublist (emitted false life)
  /-- What the others do makes no difference. -/
  apart : ∀ (name : String) (session : List (Command α)),
    received name (ofCapacity capacity) (session.filter (·.concerns name)) =
      received name (ofCapacity capacity) session
  /-- What was before the subscription makes no difference. -/
  fresh : ∀ (name : String) (before session : List (Command α)), .close ∉ before →
    received name ((ofCapacity capacity).after (before ++ [.subscribe name])) session =
      received name ((ofCapacity capacity).after [.subscribe name]) session
  /-- What is still kept when the bus is closed comes before the end is told. -/
  ended : ∀ (name : String) (session : List (Command α)) (missed : List α),
    (backlog name session).missed = some missed →
      (ofCapacity capacity).answers (session ++ [.close, .drain name, .drain name]) =
        (ofCapacity capacity).answers session ++
          [none, some ⟨handed room missed, true⟩, some ⟨[], true⟩]

theorem answers_append (session session' : List (Command α)) : ∀ b : EventBus α,
    b.answers (session ++ session') = b.answers session ++ (b.after session).answers session' := by
  induction session with
  | nil => exact fun _ => rfl
  | cons c session ih => exact fun b => congrArg ((b.perform c).1 :: ·) (ih (b.perform c).2)

theorem backlog_append (name : String) (session session' : List (Command α)) :
    backlog name (session ++ session') =
      session'.foldl (Backlog.follow name) (backlog name session) := List.foldl_append ..

theorem drain_fst (capacity : Nat) (session : List (Command α)) (name : String) :
    (((ofCapacity capacity).after session).perform (.drain name)).1 =
      (backlog name session).missed.map fun missed =>
        ⟨handed (ofCapacity capacity : EventBus α).room missed, (backlog name session).closed⟩ := by
  obtain ⟨log, hsteady, hroom, howed⟩ := owed_after capacity session name
  rw [hsteady.drain_fst, howed, hroom, ← howed]
  rfl

theorem received_subscribe (capacity : Nat) (name : String) {before : List (Command α)}
    (hopen : .close ∉ before) (session : List (Command α)) :
    received name ((ofCapacity capacity).after (before ++ [.subscribe name])) session =
      (⟨some [], false⟩ : Backlog α).received (ofCapacity capacity : EventBus α).room name
        session := by
  obtain ⟨log, hsteady, hroom, howed⟩ := owed_after capacity (before ++ [.subscribe name]) name
  rw [hsteady.received_eq, howed, hroom, backlog_subscribe hopen]

theorem answers_close (capacity : Nat) {session : List (Command α)} {name : String}
    {missed : List α} (hmissed : (backlog name session).missed = some missed) :
    (ofCapacity capacity).answers (session ++ [.close, .drain name, .drain name]) =
      (ofCapacity capacity).answers session ++ [none,
        some ⟨handed (ofCapacity capacity : EventBus α).room missed, true⟩, some ⟨[], true⟩] := by
  have hfirst := drain_fst capacity (session ++ [.close]) name
  have hsecond := drain_fst capacity (session ++ [.close, .drain name]) name
  rw [backlog_append] at hfirst hsecond
  simp only [List.foldl_cons, List.foldl_nil, Backlog.follow, hmissed, if_pos, Option.map_some]
    at hfirst hsecond
  rw [answers_append]
  congr 1
  rw [after, List.foldl_append] at hfirst hsecond
  exact congrArg₂ (fun first second => [none, first, second]) hfirst hsecond

theorem drain_hands_last_of_room (α : Type u) (capacity : Nat) :
    Fair α capacity (ofCapacity capacity : EventBus α).room where
  least := isLeast_room capacity
  ring session answers := (Hub.matches_ofSize capacity).runs_iff session
  drained session name := drain_fst capacity session name
  whole name before life hopen hstays := by
    have hcovers :=
      Backlog.covers_received (ofCapacity capacity : EventBus α).room life hstays [] false
    rw [← received_subscribe capacity name hopen, List.nil_append] at hcovers
    exact ⟨hcovers, hcovers.balance, hcovers.sublist⟩
  apart name session := by
    have hsteady : (ofCapacity capacity : EventBus α).Steady [] := steady_ofCapacity capacity
    rw [hsteady.received_eq, hsteady.received_eq, Backlog.received_filter]
  fresh name before session hopen := by
    rw [received_subscribe capacity name hopen, ← List.nil_append [Command.subscribe name],
      received_subscribe capacity name List.not_mem_nil]
  ended name session missed hmissed := answers_close capacity hmissed

end EventBus

end RequestEngine
