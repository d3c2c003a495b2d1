import RequestEngine.Proofs.Deliveries

/-! No wakeup is lost. Those who wait look at the queue one at a time, whenever they are awake. In
whatever order they do so, all come to rest in the same way after a command, and nobody rests
beside an identifier. -/
namespace RequestEngine

/-- Those who wait at a queue: some sleep until they are woken, the longest asleep first, and
others are awake and may look at the queue at any moment. -/
structure WaitingRoom where
  queue : WorkQueue
  wakeup : Bool
  asleep : List Waiter
  awake : List Waiter
  stopped : List String

namespace WaitingRoom

/-- Wake the one who has slept longest, or keep the wakeup. -/
def notify (r : WaitingRoom) : WaitingRoom :=
  match r.asleep with
  | [] => { r with wakeup := true }
  | w :: rest => { r with asleep := rest, awake := r.awake ++ [w] }

/-- Someone who is awake beside others looks for a stop signal and then for an identifier. Whoever
takes one wakes another if there are more, and whoever finds none uses up a kept wakeup and looks
again, or falls asleep. -/
def look (r : WaitingRoom) (w : Waiter) (others : List Waiter) : List Delivery × WaitingRoom :=
  if w.signal ∈ r.stopped then ([⟨w.name, none⟩], { r with awake := others })
  else
    match r.queue.pop? with
    | some (id, queue) =>
      let left : WaitingRoom := { r with queue := queue, awake := others }
      ([⟨w.name, some id⟩], if queue.items = [] then left else left.notify)
    | none =>
      if r.wakeup then ([], { r with wakeup := false, awake := w :: others })
      else ([], { r with asleep := r.asleep ++ [w], awake := others })

/-- Someone who is awake looks. -/
def Step (r : WaitingRoom) (deliveries : List Delivery) (r' : WaitingRoom) : Prop :=
  ∃ before w after, r.awake = before ++ w :: after ∧ r.look w (before ++ after) = (deliveries, r')

/-- In whatever order they look, they come to rest in the end, and as described: the deliveries
until then are those, in some order. -/
inductive Settles (goal : WaitingRoom) (all : List Delivery) :
    WaitingRoom → List Delivery → Prop
  | rest {done : List Delivery} (quiet : goal.awake = []) (same : done.Perm all) :
      Settles goal all goal done
  | turn {r : WaitingRoom} {done : List Delivery} (awake : r.awake ≠ [])
      (next : ∀ deliveries r', r.Step deliveries r' → Settles goal all r' (done ++ deliveries)) :
      Settles goal all r done

variable {goal r : WaitingRoom} {all done : List Delivery} {w : Waiter} {others : List Waiter}
  {id : Uuid} {ids : List Uuid}

theorem look_stopped (h : w.signal ∈ r.stopped) :
    r.look w others = ([⟨w.name, none⟩], { r with awake := others }) := if_pos h

theorem look_takes (h : w.signal ∉ r.stopped) (items : r.queue.items = id :: ids) :
    r.look w others = ([⟨w.name, some id⟩],
      if ids = [] then { r with queue := ⟨ids, r.queue.capacity⟩, awake := others }
      else notify { r with queue := ⟨ids, r.queue.capacity⟩, awake := others }) := by
  simp [look, h, WorkQueue.pop?, items]

theorem look_finds_none (h : w.signal ∉ r.stopped) (items : r.queue.items = []) :
    r.look w others = ([],
      if r.wakeup then { r with wakeup := false, awake := w :: others }
      else { r with asleep := r.asleep ++ [w], awake := others }) := by
  cases hw : r.wakeup <;> simp [look, h, WorkQueue.pop?, items, hw]

theorem Settles.of_eq (h : r = goal) (quiet : goal.awake = []) (same : done.Perm all) :
    Settles goal all r done := by
  subst h
  exact .rest quiet same

theorem Settles.alone (hw : r.awake = [w])
    (next : Settles goal all (r.look w []).2 (done ++ (r.look w []).1)) :
    Settles goal all r done := by
  refine .turn (by simp [hw]) ?_
  rintro deliveries r' ⟨before, v, after, hsplit, hlook⟩
  rw [hw] at hsplit
  obtain ⟨rfl, rfl, rfl⟩ : before = [] ∧ v = w ∧ after = [] := by
    cases before with
    | nil =>
      obtain ⟨rfl, rfl⟩ := List.cons.inj hsplit
      exact ⟨rfl, rfl, rfl⟩
    | cons u before =>
      have hlength := congrArg List.length hsplit
      simp at hlength
  rw [List.nil_append] at hlook
  rwa [hlook] at next

theorem settles_stopped (hs : ∀ w ∈ r.awake, w.signal ∈ r.stopped)
    (hall : (done ++ r.awake.map fun w => (⟨w.name, none⟩ : Delivery)).Perm all) :
    Settles { r with awake := [] } all r done := by
  obtain ⟨queue, wakeup, asleep, awake, stopped⟩ := r
  induction hn : awake.length generalizing awake done with
  | zero =>
    obtain rfl := List.length_eq_zero_iff.1 hn
    exact .rest rfl (by simpa using hall)
  | succ n ih =>
    refine .turn (by rintro rfl; simp at hn) ?_
    rintro deliveries r' ⟨before, w, after, hsplit, hlook⟩
    obtain rfl : awake = before ++ w :: after := hsplit
    have hw : w.signal ∈ stopped := hs w (by simp)
    obtain ⟨rfl, rfl⟩ := Prod.mk.inj (hlook.symm.trans (if_pos hw))
    refine ih (before ++ after) (fun v hv => hs v ?_) ?_ (by simp at hn ⊢; omega)
    · obtain hv | hv := List.mem_append.1 hv <;> simp [hv]
    · refine List.Perm.trans ?_ hall
      simp only [List.map_append, List.map_cons, List.append_assoc, List.singleton_append]
      exact List.perm_middle.symm.append_left _

end WaitingRoom

namespace WaitingQueue

/-- The queue at rest: all who wait are asleep. -/
def room (q : WaitingQueue) : WaitingRoom := ⟨q.queue, q.wakeup, q.waiters, [], q.stopped⟩

/-- The moment after a command, before anyone looks. -/
def asked (q : WaitingQueue) : Command → WaitingRoom
  | .push id =>
    match q.queue.push id with
    | .ok queue => { q.room with queue := queue }.notify
    | .error _ => q.room
  | .take =>
    match q.queue.pop? with
    | some (_, queue) => { q.room with queue := queue }
    | none => q.room
  | .remove id => { q.room with queue := q.queue.remove id }
  | .setCapacity capacity => { q.room with queue := q.queue.setCapacity capacity }
  | .await w => { q.room with awake := [w] }
  | .stop signal =>
    { q.room with
      asleep := q.waiters.filter (·.signal ≠ signal)
      awake := q.waiters.filter (·.signal = signal)
      stopped := signal :: q.stopped }

variable {q : WaitingQueue} {c : Command} {o : Outcome}

/-- Someone who finds no identifier falls asleep, if need be after looking twice. -/
theorem settles_wait {w : Waiter} (heeds : w.signal ∉ q.stopped) (empty : q.queue.items = []) :
    WaitingRoom.Settles (room { q with wakeup := false, waiters := q.waiters ++ [w] }) []
      { q.room with awake := [w] } [] := by
  have hsleep : WaitingRoom.Settles (room { q with wakeup := false, waiters := q.waiters ++ [w] })
      [] { q.room with wakeup := false, awake := [w] } [] := by
    refine .alone rfl ?_
    rw [WaitingRoom.look_finds_none heeds empty]
    exact .rest rfl (.refl _)
  refine .alone rfl ?_
  rw [WaitingRoom.look_finds_none heeds empty]
  split
  · exact hsleep
  · rename_i hw
    exact .of_eq (by simpa [room] using hw) rfl (.refl _)

/-- A command to a calm queue is carried out when all have come to rest. -/
theorem Performs.settles (h : Performs q c o) (hq : q.Calm) :
    WaitingRoom.Settles o.queue.room o.deliveries (q.asked c) [] := by
  cases h with
  | @refuse id full =>
    exact .of_eq (by simp [asked, WorkQueue.push, full]) rfl (.refl _)
  | @keep id room nobody =>
    have hasked : q.asked (.push id) = { q.room with
        queue := ⟨q.queue.items ++ [id], q.queue.capacity⟩, wakeup := true } := by
      simp [asked, WorkQueue.push, Nat.not_le_of_lt room, WaitingQueue.room, WaitingRoom.notify,
        nobody]
    exact .of_eq hasked rfl (.refl _)
  | @hand id w rest room waits empty =>
    have hasked : q.asked (.push id) = { q.room with
        queue := ⟨[id], q.queue.capacity⟩, asleep := rest, awake := [w] } := by
      simp [asked, WorkQueue.push, Nat.ne_of_gt room, WaitingQueue.room, WaitingRoom.notify,
        waits, empty]
    have heeds : w.signal ∉ q.stopped := hq.heeds w (by simp [waits])
    have hqueue : (⟨[], q.queue.capacity⟩ : WorkQueue) = q.queue := by rw [← empty]
    rw [hasked]
    refine .alone rfl ?_
    rw [WaitingRoom.look_takes heeds rfl, if_pos rfl]
    exact .of_eq (by simp [WaitingQueue.room, hqueue]) rfl (.refl _)
  | @take id ids items =>
    exact .of_eq (by simp [asked, room, WorkQueue.pop?, items]) rfl (.refl _)
  | miss empty =>
    exact .of_eq (by simp [asked, WorkQueue.pop?, empty]) rfl (.refl _)
  | remove => exact .rest rfl (.refl _)
  | setCapacity => exact .rest rfl (.refl _)
  | dismiss stopped =>
    refine .alone rfl ?_
    rw [WaitingRoom.look_stopped stopped]
    exact .rest rfl (.refl _)
  | @serve w id ids heeds items nobody =>
    refine .alone rfl ?_
    rw [WaitingRoom.look_takes heeds items]
    cases ids with
    | nil => exact .of_eq (by simp [asked, room]) rfl (.refl _)
    | cons next ids =>
      exact .of_eq (by simp [asked, room, nobody, WaitingRoom.notify]) rfl (.refl _)
  | wait heeds empty => exact settles_wait heeds empty
  | stop signal =>
    refine WaitingRoom.settles_stopped (r := q.asked (.stop signal)) (fun w hw => ?_) (.refl _)
    have hsignal := (List.mem_filter.1 hw).2
    simp [asked, by simpa using hsignal]

def begun (commands : List Command) : List String :=
  commands.filterMap fun
    | .await w => some w.name
    | _ => none

/-- How the waits end that end during a sequence of commands. -/
def deliveries (q : WaitingQueue) : List Command → List Delivery
  | [] => []
  | c :: commands => (q.perform c).deliveries ++ (q.perform c).queue.deliveries commands

def served (deliveries : List Delivery) : List String :=
  (deliveries.filter (·.id.isSome)).map (·.waiter)

def waiting (q : WaitingQueue) : List String := q.waiters.map (·.name)

/-- Those who wait are served in the order in which they began. -/
theorem Performs.inOrder (h : Performs q c o) :
    (served o.deliveries ++ o.queue.waiting).Sublist (q.waiting ++ begun [c]) := by
  cases h with
  | hand room waits => simp [served, waiting, begun, waits]
  | dismiss => simp [served, waiting, begun]
  | serve heeds items nobody => simp [served, waiting, begun, nobody]
  | wait => simp [served, waiting, begun]
  | stop signal =>
    have hnone : served ((q.waiters.filter (·.signal = signal)).map fun w => ⟨w.name, none⟩) =
        [] := by simp [served, List.filter_map, Function.comp_def]
    rw [hnone]
    exact (List.filter_sublist.map _).trans (List.sublist_append_left _ _)
  | _ => simp [served, waiting, begun]

/-- Whoever begins to wait, or waits already, ends once or waits on. -/
theorem Performs.once (h : Performs q c o) :
    (o.deliveries.map (·.waiter) ++ o.queue.waiting).Perm (q.waiting ++ begun [c]) := by
  cases h with
  | hand room waits => simp [waiting, begun, waits]
  | @dismiss w => exact (List.perm_append_singleton w.name q.waiting).symm
  | serve heeds items nobody => simp [waiting, begun, nobody]
  | wait => simp [waiting, begun]
  | stop signal =>
    have hsplit := List.filter_append_perm (fun w : Waiter => decide (w.signal = signal)) q.waiters
    simpa [waiting, begun, Function.comp_def] using hsplit.map (·.name)
  | _ => simp [waiting, begun]

theorem begun_cons (c : Command) (commands : List Command) :
    begun (c :: commands) = begun [c] ++ begun commands := by
  cases c <;> simp [begun]

theorem Calm.inOrder (h : q.Calm) (commands : List Command) :
    (served (q.deliveries commands) ++ (q.after commands).waiting).Sublist
      (q.waiting ++ begun commands) := by
  induction commands generalizing q with
  | nil => simp [served, deliveries, begun, WaitingQueue.after]
  | cons c commands ih =>
    have hc := performs h c
    have hrest := ih (hc.calm h)
    have hserved : served (q.deliveries (c :: commands)) =
        served (q.perform c).deliveries ++ served ((q.perform c).queue.deliveries commands) := by
      simp [served, deliveries]
    rw [hserved, begun_cons, List.append_assoc, ← List.append_assoc q.waiting]
    refine (hrest.append_left _).trans ?_
    rw [← List.append_assoc]
    exact hc.inOrder.append_right _

theorem Calm.once (h : q.Calm) (commands : List Command) :
    ((q.deliveries commands).map (·.waiter) ++ (q.after commands).waiting).Perm
      (q.waiting ++ begun commands) := by
  induction commands generalizing q with
  | nil => simp [deliveries, begun, WaitingQueue.after]
  | cons c commands ih =>
    have hc := performs h c
    have hrest := ih (hc.calm h)
    rw [begun_cons, deliveries, List.map_append, List.append_assoc, ← List.append_assoc q.waiting]
    refine (hrest.append_left _).trans ?_
    rw [← List.append_assoc]
    exact hc.once.append_right _

theorem Performs.stopped (h : Performs q c o) (signal : String) :
    signal ∈ o.queue.stopped ↔ signal ∈ q.stopped ∨ c = .stop signal := by
  cases h <;> simp [or_comm, eq_comm]

theorem Calm.stopped (h : q.Calm) (commands : List Command) (signal : String) :
    signal ∈ (q.after commands).stopped ↔ signal ∈ q.stopped ∨ .stop signal ∈ commands := by
  induction commands generalizing q with
  | nil => simp [WaitingQueue.after]
  | cons c commands ih =>
    have hc := performs h c
    have hrest := ih (hc.calm h)
    rw [hc.stopped] at hrest
    rw [List.mem_cons, ← or_assoc, eq_comm]
    exact hrest

/-- How a queue treats those who wait, after a sequence of commands. Each command is given while all
who wait are asleep, and carried out with nobody acting beside it. Those whom it wakes look in any
order, and the next command is given when all are asleep again, so that no stop comes between an
addition and the look of the one whom it woke. -/
structure Attentive (q : WaitingQueue) (commands : List Command) (ended : List Delivery) :
    Prop where
  /-- However those who are awake take turns after one more command, they come to rest, and the
  queue is what the command makes of it. -/
  settles : ∀ c, WaitingRoom.Settles (q.perform c).queue.room (q.perform c).deliveries
    (q.asked c) []
  idle : ∀ w ∈ q.waiters, q.queue.items = [] ∧ .stop w.signal ∉ commands
  /-- Those who were served, and those who wait, began in this order. -/
  inOrder : (served ended ++ q.waiting).Sublist (begun commands)
  /-- Each wait has ended once, or goes on. -/
  once : (ended.map (·.waiter) ++ q.waiting).Perm (begun commands)
  dismissed : ∀ w, .stop w.signal ∈ commands →
    q.perform (.await w) = ⟨.nothing, [⟨w.name, none⟩], q⟩
  stops : ∀ signal, q.perform (.stop signal) =
    ⟨.nothing, (q.waiters.filter (·.signal = signal)).map fun w => ⟨w.name, none⟩,
      { q with
        waiters := q.waiters.filter (·.signal ≠ signal)
        stopped := signal :: q.stopped }⟩

theorem waits_end_once_in_order (capacity : Nat) (commands : List Command) :
    Attentive ((ofCapacity capacity).after commands) commands
      ((ofCapacity capacity).deliveries commands) := by
  have hnew := calm_ofCapacity capacity
  have hcalm := hnew.after commands
  have hstopped : ∀ signal, signal ∈ ((ofCapacity capacity).after commands).stopped ↔
      .stop signal ∈ commands := by
    intro signal
    rw [hnew.stopped]
    simp [ofCapacity]
  refine ⟨fun c => (performs hcalm c).settles hcalm, fun w hw => ⟨?_, ?_⟩, ?_, ?_, fun w hw => ?_,
    fun _ => rfl⟩
  · exact hcalm.idle (List.ne_nil_of_mem hw)
  · exact fun hstop => hcalm.heeds w hw ((hstopped _).2 hstop)
  · simpa [waiting, ofCapacity] using hnew.inOrder commands
  · simpa [waiting, ofCapacity] using hnew.once commands
  · have hstop := (hstopped _).2 hw
    simp [perform, await, hstop]

end WaitingQueue

end RequestEngine
