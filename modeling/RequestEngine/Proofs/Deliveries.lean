import Mathlib.Data.List.Perm.Basic
import RequestEngine.Engine.Waiting

/-! Sequences of commands to a queue at which others wait. A command is given when all who wait are
asleep, and whoever it wakes has looked before the next one. What was added and not dropped has been
handed out, first come first served, or is still queued. -/
namespace RequestEngine

namespace WaitingQueue

/-- What can be asked of a queue. -/
inductive Command where
  | push (id : Uuid)
  | take
  | remove (id : Uuid)
  | setCapacity (capacity : Nat)
  | await (w : Waiter)
  | stop (signal : String)
  deriving DecidableEq

inductive Answer where
  | nothing
  | accepted
  | refused (reason : Rejection)
  | taken (found : Option Uuid)
  | removed (found : Bool)
  deriving DecidableEq

/-- What comes of a command: its answer, the waits that end, and the queue. -/
structure Outcome where
  answer : Answer
  deliveries : List Delivery
  queue : WaitingQueue
  deriving DecidableEq

def perform (q : WaitingQueue) : Command → Outcome
  | .push id =>
    match q.push id with
    | .ok (q, deliveries) => ⟨.accepted, deliveries, q⟩
    | .error reason => ⟨.refused reason, [], q⟩
  | .take =>
    match q.pop? with
    | some (id, q) => ⟨.taken (some id), [], q⟩
    | none => ⟨.taken none, [], q⟩
  | .remove id => ⟨.removed (q.queue.items.contains id), [], q.remove id⟩
  | .setCapacity capacity => ⟨.nothing, [], q.setCapacity capacity⟩
  | .await w =>
    let (q, deliveries) := q.await w
    ⟨.nothing, deliveries, q⟩
  | .stop signal =>
    let (q, deliveries) := q.stop signal
    ⟨.nothing, deliveries, q⟩

def after (q : WaitingQueue) (commands : List Command) : WaitingQueue :=
  commands.foldl (fun q c => (q.perform c).queue) q

/-- Nobody waits beside an identifier, or for a signal that was given. -/
structure Calm (q : WaitingQueue) : Prop where
  idle : q.waiters ≠ [] → q.queue.items = []
  heeds : ∀ w ∈ q.waiters, w.signal ∉ q.stopped

theorem calm_ofCapacity (capacity : Nat) : (ofCapacity capacity).Calm := by
  constructor <;> simp [ofCapacity]

variable {q : WaitingQueue} {c : Command} {o : Outcome} {id : Uuid}

/-- What can come of a command to a calm queue. -/
inductive Performs (q : WaitingQueue) : Command → Outcome → Prop
  | refuse {id : Uuid} (full : q.queue.capacity ≤ q.queue.items.length) :
      Performs q (.push id) ⟨.refused (.queueFull q.queue.capacity), [], q⟩
  | keep {id : Uuid} (room : q.queue.items.length < q.queue.capacity) (nobody : q.waiters = []) :
      Performs q (.push id)
        ⟨.accepted, [],
          { q with queue := ⟨q.queue.items ++ [id], q.queue.capacity⟩, wakeup := true }⟩
  | hand {id : Uuid} {w : Waiter} {rest : List Waiter} (room : 0 < q.queue.capacity)
      (waits : q.waiters = w :: rest) (empty : q.queue.items = []) :
      Performs q (.push id) ⟨.accepted, [⟨w.name, some id⟩], { q with waiters := rest }⟩
  | take {id : Uuid} {ids : List Uuid} (items : q.queue.items = id :: ids) :
      Performs q .take ⟨.taken (some id), [], { q with queue := ⟨ids, q.queue.capacity⟩ }⟩
  | miss (empty : q.queue.items = []) : Performs q .take ⟨.taken none, [], q⟩
  | remove (id : Uuid) :
      Performs q (.remove id) ⟨.removed (q.queue.items.contains id), [],
        { q with queue := ⟨q.queue.items.erase id, q.queue.capacity⟩ }⟩
  | setCapacity (capacity : Nat) :
      Performs q (.setCapacity capacity)
        ⟨.nothing, [], { q with queue := ⟨q.queue.items, capacity⟩ }⟩
  | dismiss {w : Waiter} (stopped : w.signal ∈ q.stopped) :
      Performs q (.await w) ⟨.nothing, [⟨w.name, none⟩], q⟩
  | serve {w : Waiter} {id : Uuid} {ids : List Uuid} (heeds : w.signal ∉ q.stopped)
      (items : q.queue.items = id :: ids) (nobody : q.waiters = []) :
      Performs q (.await w) ⟨.nothing, [⟨w.name, some id⟩],
        { q with queue := ⟨ids, q.queue.capacity⟩, wakeup := q.wakeup || !ids.isEmpty }⟩
  | wait {w : Waiter} (heeds : w.signal ∉ q.stopped) (empty : q.queue.items = []) :
      Performs q (.await w) ⟨.nothing, [], { q with wakeup := false, waiters := q.waiters ++ [w] }⟩
  | stop (signal : String) :
      Performs q (.stop signal)
        ⟨.nothing, (q.waiters.filter (·.signal = signal)).map fun w => ⟨w.name, none⟩,
          { q with
            waiters := q.waiters.filter (·.signal ≠ signal)
            stopped := signal :: q.stopped }⟩

theorem performs_push (h : q.Calm) (id : Uuid) : Performs q (.push id) (q.perform (.push id)) := by
  obtain ⟨⟨items, capacity⟩, wakeup, waiters, stopped⟩ := q
  by_cases hfull : capacity ≤ items.length
  · simpa [perform, push, WorkQueue.push, hfull, bind, Except.bind] using
      Performs.refuse (q := ⟨⟨items, capacity⟩, wakeup, waiters, stopped⟩) hfull
  · have hroom : items.length < capacity := Nat.lt_of_not_le hfull
    cases waiters with
    | nil =>
      simpa [perform, push, WorkQueue.push, hfull, bind, Except.bind, pure, Except.pure, wake] using
        Performs.keep (q := ⟨⟨items, capacity⟩, wakeup, [], stopped⟩) hroom rfl
    | cons w rest =>
      obtain rfl : items = [] := h.idle (List.cons_ne_nil w rest)
      have hzero : capacity ≠ 0 := Nat.ne_of_gt hroom
      simpa [perform, push, WorkQueue.push, WorkQueue.pop?, hzero, bind, Except.bind, pure,
        Except.pure, wake] using
        Performs.hand (q := ⟨⟨[], capacity⟩, wakeup, w :: rest, stopped⟩) hroom rfl rfl

theorem performs_await (h : q.Calm) (w : Waiter) :
    Performs q (.await w) (q.perform (.await w)) := by
  by_cases hstop : w.signal ∈ q.stopped
  · simpa [perform, await, hstop] using Performs.dismiss (q := q) hstop
  · obtain ⟨⟨items, capacity⟩, wakeup, waiters, stopped⟩ := q
    cases items with
    | nil =>
      simpa [perform, await, hstop, WorkQueue.pop?] using
        Performs.wait (q := ⟨⟨[], capacity⟩, wakeup, waiters, stopped⟩) hstop rfl
    | cons id ids =>
      have hnobody : waiters = [] := by
        by_contra hne
        exact List.cons_ne_nil id ids (h.idle hne)
      subst hnobody
      have hserve :=
        Performs.serve (q := ⟨⟨id :: ids, capacity⟩, wakeup, [], stopped⟩) hstop rfl rfl
      cases ids <;> simpa [perform, await, hstop, WorkQueue.pop?, wake] using hserve

theorem performs (h : q.Calm) (c : Command) : Performs q c (q.perform c) := by
  cases c with
  | push id => exact performs_push h id
  | take =>
    obtain ⟨⟨items, capacity⟩, wakeup, waiters, stopped⟩ := q
    cases items with
    | nil => exact .miss rfl
    | cons id ids => exact .take rfl
  | remove id => exact .remove id
  | setCapacity capacity => exact .setCapacity capacity
  | await w => exact performs_await h w
  | stop signal => exact .stop signal

theorem Performs.calm (h : Performs q c o) (hq : q.Calm) : o.queue.Calm := by
  cases h with
  | refuse => exact hq
  | keep room nobody => exact ⟨fun hne => absurd nobody hne, hq.heeds⟩
  | hand room waits empty =>
    refine ⟨fun _ => empty, fun v hv => hq.heeds v ?_⟩
    rw [waits]
    exact List.mem_cons_of_mem _ hv
  | take items =>
    refine ⟨fun hne => ?_, hq.heeds⟩
    rw [hq.idle hne] at items
    cases items
  | miss => exact hq
  | remove id =>
    refine ⟨fun hne => ?_, hq.heeds⟩
    simp [hq.idle hne]
  | setCapacity => exact ⟨hq.idle, hq.heeds⟩
  | dismiss => exact hq
  | serve heeds items nobody => exact ⟨fun hne => absurd nobody hne, hq.heeds⟩
  | wait heeds empty =>
    refine ⟨fun _ => empty, fun v hv => ?_⟩
    obtain hv | hv := List.mem_append.1 hv
    · exact hq.heeds v hv
    · rw [List.mem_singleton.1 hv]
      exact heeds
  | stop signal =>
    refine ⟨fun hne => hq.idle ?_, fun v hv => ?_⟩
    · rintro hnobody
      exact hne (by simp [hnobody])
    · obtain ⟨hv, hne⟩ := List.mem_filter.1 hv
      simpa using ⟨by simpa using hne, hq.heeds v hv⟩

theorem Calm.after (h : q.Calm) (commands : List Command) : (q.after commands).Calm := by
  induction commands generalizing q with
  | nil => exact h
  | cons c commands ih => exact ih ((performs h c).calm h)

/-- What happens to an identifier. -/
inductive Movement where
  | add (id : Uuid)
  | drop (id : Uuid)
  | hand (id : Uuid)
  deriving DecidableEq

def handed (deliveries : List Delivery) : List Uuid := deliveries.filterMap (·.id)

/-- What the answer to a command tells: an accepted addition, a removal that found something, or
what was taken. -/
def Answer.movements : Command → Answer → List Movement
  | .push id, .accepted => [.add id]
  | .remove id, .removed true => [.drop id]
  | .take, .taken (some id) => [.hand id]
  | _, _ => []

def Outcome.movements (o : Outcome) (c : Command) : List Movement :=
  Answer.movements c o.answer ++ (handed o.deliveries).map .hand

def movements (q : WaitingQueue) : List Command → List Movement
  | [] => []
  | c :: commands => (q.perform c).movements c ++ (q.perform c).queue.movements commands

/-- The identifiers added, those of them that were not dropped, those dropped, and those handed
out, each in the order in which it happened. -/
structure Book where
  added : List Uuid
  kept : List Uuid
  dropped : List Uuid
  handed : List Uuid
  deriving DecidableEq

namespace Book

def empty : Book := ⟨[], [], [], []⟩

/-- Strike out the first place of an identifier among those that were not handed out yet. -/
def strike (b : Book) (id : Uuid) : List Uuid :=
  b.kept.take b.handed.length ++ (b.kept.drop b.handed.length).erase id

def enter (b : Book) : Movement → Book
  | .add id => { b with added := b.added ++ [id], kept := b.kept ++ [id] }
  | .drop id => { b with kept := b.strike id, dropped := b.dropped ++ [id] }
  | .hand id => { b with handed := b.handed ++ [id] }

def enterAll (b : Book) (movements : List Movement) : Book := movements.foldl enter b

/-- The book of a queue with these identifiers. -/
structure Balanced (b : Book) (items : List Uuid) : Prop where
  /-- What was not dropped was handed out, in this order, or is queued. -/
  split : b.kept = b.handed ++ items
  order : b.kept.Sublist b.added
  all : b.added.Perm (b.kept ++ b.dropped)

variable {b : Book} {items ids : List Uuid}

theorem balanced_empty : empty.Balanced [] := ⟨rfl, .slnil, .nil⟩

theorem Balanced.add (h : b.Balanced items) (id : Uuid) :
    (b.enter (.add id)).Balanced (items ++ [id]) where
  split := by simp [enter, h.split]
  order := h.order.append (.refl _)
  all := by
    have hmove : (b.kept ++ [id] ++ b.dropped).Perm (b.kept ++ b.dropped ++ [id]) := by
      rw [List.append_assoc, List.append_assoc]
      exact List.perm_append_comm.append_left _
    exact (h.all.append_right _).trans hmove.symm

theorem Balanced.strike (h : b.Balanced items) (id : Uuid) :
    b.strike id = b.handed ++ items.erase id := by simp [Book.strike, h.split]

theorem Balanced.drop (h : b.Balanced items) (hid : id ∈ items) :
    (b.enter (.drop id)).Balanced (items.erase id) where
  split := h.strike id
  order := by
    rw [enter, h.strike]
    refine List.Sublist.trans ?_ h.order
    rw [h.split]
    exact (List.Sublist.refl _).append List.erase_sublist
  all := by
    have hperm : (b.kept ++ b.dropped).Perm (b.strike id ++ (b.dropped ++ [id])) := by
      rw [h.strike, h.split, List.append_assoc, List.append_assoc]
      refine List.Perm.append_left _ ?_
      refine ((List.perm_cons_erase hid).append_right _).trans ?_
      rw [← List.append_assoc]
      exact List.perm_append_singleton id (items.erase id ++ b.dropped) |>.symm
    exact h.all.trans hperm

theorem Balanced.hand (h : b.Balanced (id :: items)) : (b.enter (.hand id)).Balanced items where
  split := by simp [enter, h.split]
  order := h.order
  all := h.all

end Book

theorem Performs.balanced (h : Performs q c o) {b : Book} (hb : b.Balanced q.queue.items) :
    (b.enterAll (o.movements c)).Balanced o.queue.queue.items := by
  cases h with
  | refuse => exact hb
  | @keep id => exact hb.add id
  | @hand id w rest room waits empty =>
    have hadd := hb.add id
    have hhand : (b.enterAll [.add id, .hand id]).Balanced q.queue.items := by
      rw [empty] at hadd ⊢
      exact hadd.hand
    exact hhand
  | take items =>
    rw [items] at hb
    exact hb.hand
  | miss => exact hb
  | remove id =>
    by_cases hid : id ∈ q.queue.items
    · simpa [Outcome.movements, Answer.movements, handed, Book.enterAll, hid] using hb.drop hid
    · simpa [Outcome.movements, Answer.movements, handed, Book.enterAll, hid,
        List.erase_of_not_mem hid] using hb
  | setCapacity => exact hb
  | dismiss => exact hb
  | serve heeds items =>
    rw [items] at hb
    exact hb.hand
  | wait => exact hb
  | stop signal =>
    have hnone : handed ((q.waiters.filter (·.signal = signal)).map fun w => ⟨w.name, none⟩) =
        [] := by simp [handed]
    rw [Outcome.movements, hnone]
    exact hb

theorem Calm.balanced (h : q.Calm) {b : Book} (hb : b.Balanced q.queue.items)
    (commands : List Command) :
    (b.enterAll (q.movements commands)).Balanced (q.after commands).queue.items := by
  induction commands generalizing q b with
  | nil => exact hb
  | cons c commands ih =>
    have hc := performs h c
    have hrest := ih (hc.calm h) (hc.balanced hb)
    rwa [Book.enterAll, Book.enterAll, ← List.foldl_append] at hrest

def capacityAfter (capacity : Nat) (commands : List Command) : Nat :=
  commands.foldl (fun n c =>
    match c with
    | .setCapacity m => m
    | _ => n) capacity

theorem Performs.capacity (h : Performs q c o) :
    o.queue.queue.capacity = capacityAfter q.queue.capacity [c] := by
  cases h <;> rfl

theorem Calm.capacity (h : q.Calm) (commands : List Command) :
    (q.after commands).queue.capacity = capacityAfter q.queue.capacity commands := by
  induction commands generalizing q with
  | nil => rfl
  | cons c commands ih =>
    have hc := performs h c
    have hrest := ih (hc.calm h)
    rw [hc.capacity] at hrest
    exact hrest

/-- Nothing is lost, doubled or reordered between the additions to a queue, what is handed out and
what is queued. A refusal and a removal that finds nothing change nothing. -/
structure Conserved (q : WaitingQueue) (b : Book) (capacity : Nat) : Prop
    extends b.Balanced q.queue.items where
  inForce : q.queue.capacity = capacity
  accepted : ∀ id, (q.perform (.push id)).answer = .accepted ↔ q.queue.size < capacity
  refused : ∀ id, (q.perform (.push id)).answer ≠ .accepted →
    q.perform (.push id) = ⟨.refused (.queueFull capacity), [], q⟩
  removed : ∀ id, (q.perform (.remove id)).answer = .removed true ↔ id ∈ q.queue.items
  erased : ∀ id, (q.perform (.remove id)).queue.queue.items = q.queue.items.erase id
  missed : ∀ id, (q.perform (.remove id)).answer ≠ .removed true →
    q.perform (.remove id) = ⟨.removed false, [], q⟩
  resized : ∀ n, (q.perform (.setCapacity n)).queue.queue.items = q.queue.items ∧
    (q.perform (.setCapacity n)).deliveries = []

theorem Calm.push (h : q.Calm) (id : Uuid) :
    ((q.perform (.push id)).answer = .accepted ↔ q.queue.size < q.queue.capacity) ∧
      ((q.perform (.push id)).answer ≠ .accepted →
        q.perform (.push id) = ⟨.refused (.queueFull q.queue.capacity), [], q⟩) := by
  have hc := performs h (.push id)
  generalize q.perform (.push id) = o at hc ⊢
  cases hc with
  | refuse full => simpa [WorkQueue.size] using full
  | keep room => simpa [WorkQueue.size] using room
  | hand room waits empty => simpa [WorkQueue.size, empty] using room

theorem kept_eq_handed_append_queued (capacity : Nat) (commands : List Command) :
    Conserved ((ofCapacity capacity).after commands)
      (Book.empty.enterAll ((ofCapacity capacity).movements commands))
      (capacityAfter capacity commands) := by
  have hcalm := (calm_ofCapacity capacity).after commands
  have hcapacity := (calm_ofCapacity capacity).capacity commands
  have hbalanced := (calm_ofCapacity capacity).balanced Book.balanced_empty commands
  refine ⟨hbalanced, hcapacity, fun id => ?_, fun id => ?_, fun id => ?_, fun _ => rfl,
    fun id hmissed => ?_, fun _ => ⟨rfl, rfl⟩⟩
  · exact hcapacity ▸ (hcalm.push id).1
  · exact hcapacity ▸ (hcalm.push id).2
  · simp [perform]
  · have hid : id ∉ ((ofCapacity capacity).after commands).queue.items := by
      simpa [perform] using hmissed
    simp [perform, remove, WorkQueue.remove, hid, List.erase_of_not_mem hid]

end WaitingQueue

end RequestEngine
