import RequestEngine.Proofs.Bus

/-! Sessions on a bus with many subscribers. Each of them gets what it would get from a list of its
own, cut to the room of the bus when it drains: fast and slow subscribers share one ring and do not
touch each other. -/
namespace RequestEngine

universe u

variable {α : Type u}

namespace EventBus

/-- What can be done with a bus. -/
inductive Command (α : Type u) where
  | subscribe (name : String)
  | emit (e : α)
  | drain (name : String)
  | unsubscribe (name : String)
  | close

/-- What a subscriber drains, and whether it is told that nothing more will come. -/
structure Drained (α : Type u) where
  received : List (Received α)
  ended : Bool

namespace Command

/-- The events that a command sends. A closed bus takes none. -/
def sent (closed : Bool) : Command α → List α
  | .emit e => if closed then [] else [e]
  | _ => []

def closes (closed : Bool) : Command α → Bool
  | .close => true
  | _ => closed

/-- Whether a command is none of another subscriber. -/
def concerns (name : String) : Command α → Bool
  | .subscribe other | .drain other | .unsubscribe other => other = name
  | .emit _ | .close => true

/-- What a subscriber gets out of the answer to a command. -/
def portion (name : String) : Command α → Option (Drained α) → List (Received α)
  | .drain other, some d => if other = name then d.received else []
  | _, _ => []

end Command

/-- The events of a session on a bus that is closed already or not. -/
def emitted : (closed : Bool) → List (Command α) → List α
  | _, [] => []
  | closed, c :: cs => c.sent closed ++ emitted (c.closes closed) cs

/-- Carry out a command. A drain by somebody who is subscribed has an answer. -/
def perform (b : EventBus α) : Command α → Option (Drained α) × EventBus α
  | .subscribe name => (none, b.subscribe name)
  | .emit e => (none, b.emit e)
  | .drain name =>
    match b.drain? name with
    | some (received, drained) => (some ⟨received, b.closed⟩, drained)
    | none => (none, b)
  | .unsubscribe name => (none, b.unsubscribe name)
  | .close => (none, b.close)

def after (b : EventBus α) (session : List (Command α)) : EventBus α :=
  session.foldl (fun b c => (b.perform c).2) b

def answers : EventBus α → List (Command α) → List (Option (Drained α))
  | _, [] => []
  | b, c :: cs => (b.perform c).1 :: answers (b.perform c).2 cs

/-- All that a subscriber gets in a session, drain after drain. -/
def received (name : String) : EventBus α → List (Command α) → List (Received α)
  | _, [] => []
  | b, c :: cs => c.portion name (b.perform c).1 ++ received name (b.perform c).2 cs

/-- The events since a subscriber subscribed or last drained, if it is subscribed. -/
structure Backlog (α : Type u) where
  missed : Option (List α)
  closed : Bool

namespace Backlog

def follow (name : String) (w : Backlog α) : Command α → Backlog α
  | .subscribe other => if other = name ∧ w.closed = false then { w with missed := some [] } else w
  | .emit e => { w with missed := w.missed.map (· ++ Command.sent w.closed (.emit e)) }
  | .drain other => if other = name then { w with missed := w.missed.map fun _ => [] } else w
  | .unsubscribe other => if other = name then { w with missed := none } else w
  | .close => { w with closed := true }

/-- What a subscriber with such a backlog gets, if some events are kept. -/
def portion (room : Nat) (name : String) (w : Backlog α) : Command α → List (Received α)
  | .drain other => if other = name then (w.missed.map (handed room)).getD [] else []
  | _ => []

def received (room : Nat) (name : String) : Backlog α → List (Command α) → List (Received α)
  | _, [] => []
  | w, c :: cs => w.portion room name c ++ received room name (w.follow name c) cs

end Backlog

/-- The backlog of a subscriber after a session. Nobody else's commands are looked at. -/
def backlog (name : String) (session : List (Command α)) : Backlog α :=
  session.foldl (Backlog.follow name) ⟨none, false⟩

/-- The bus has carried some events, be it closed by now or not, and nobody is beyond them. -/
structure Steady (log : List α) (b : EventBus α) : Prop where
  carried : ({ b with closed := false } : EventBus α).Carried log
  within : ∀ name place, b.subscribers.lookup name = some place → place ≤ log.length

/-- What the bus has in store for a subscriber: the events since its place. -/
def owed (log : List α) (name : String) (b : EventBus α) : Backlog α :=
  ⟨(b.subscribers.lookup name).map fun place => log.drop place, b.closed⟩

variable {b : EventBus α} {log : List α} {name : String} {session : List (Command α)}

theorem steady_ofCapacity (capacity : Nat) : (ofCapacity capacity : EventBus α).Steady [] where
  carried := carried_ofCapacity capacity
  within _ _ h := by cases h

theorem perform_drain (b : EventBus α) (name : String) : b.perform (.drain name) =
    match b.subscribers.lookup name with
    | some place => (some ⟨b.pending place, b.closed⟩, { b with
        subscribers := b.subscribers.map fun s => if s.1 = name then (name, b.sent) else s })
    | none => (none, b) := by
  cases h : b.subscribers.lookup name <;> simp [perform, drain?, h]

theorem perform_frame (b : EventBus α) (c : Command α) :
    (b.perform c).2.closed = c.closes b.closed ∧ (b.perform c).2.room = b.room := by
  cases c with
  | subscribe other =>
    simp only [perform, subscribe]
    split <;> exact ⟨rfl, rfl⟩
  | emit e =>
    simp only [perform, emit]
    split <;> exact ⟨rfl, rfl⟩
  | drain other =>
    rw [perform_drain]
    split <;> exact ⟨rfl, rfl⟩
  | unsubscribe other => exact ⟨rfl, rfl⟩
  | close => exact ⟨rfl, rfl⟩

def Command.place (name : String) (b : EventBus α) : Command α → Option Nat
  | .subscribe other =>
    if other = name ∧ b.closed = false then some b.sent else b.subscribers.lookup name
  | .drain other =>
    if other = name then (b.subscribers.lookup name).map fun _ => b.sent
    else b.subscribers.lookup name
  | .unsubscribe other => if other = name then none else b.subscribers.lookup name
  | .emit _ | .close => b.subscribers.lookup name

theorem lookup_perform (b : EventBus α) (c : Command α) (name : String) :
    (b.perform c).2.subscribers.lookup name = c.place name b := by
  cases c with
  | subscribe other =>
    cases hclosed : b.closed with
    | true => simp [perform, subscribe, Command.place, hclosed]
    | false =>
      by_cases hname : other = name
      · simp [perform, subscribe, Command.place, hclosed, hname]
      · have hne : (name == other) = false := by simpa using Ne.symm hname
        simp only [perform, subscribe, hclosed, Bool.false_eq_true, if_false, List.lookup_cons, hne,
          Command.place, hname, false_and]
        exact lookup_filter_ne (Ne.symm hname) b.subscribers
  | emit e =>
    simp only [perform, emit]
    split <;> rfl
  | drain other =>
    rw [perform_drain]
    cases hother : b.subscribers.lookup other with
    | none =>
      by_cases hname : other = name
      · subst hname
        simp [Command.place, hother]
      · simp [Command.place, hname]
    | some place =>
      by_cases hname : other = name
      · subst hname
        simp only [Command.place, if_pos, hother, Option.map_some]
        exact lookup_map_self hother b.sent
      · simp only [Command.place, if_neg hname]
        exact lookup_map_ne (Ne.symm hname) b.sent b.subscribers
  | unsubscribe other =>
    by_cases hname : other = name
    · subst hname
      simp only [perform, unsubscribe, Command.place, if_pos]
      exact lookup_filter_self other b.subscribers
    · simp only [perform, unsubscribe, Command.place, if_neg hname]
      exact lookup_filter_ne (Ne.symm hname) b.subscribers
  | close => rfl

theorem Steady.reopened (h : b.Steady log) (hopen : b.closed = false) : b.Carried log := by
  have hcarried := h.carried
  rwa [← hopen] at hcarried

theorem Steady.carried_perform (h : b.Steady log) (c : Command α) :
    ({ (b.perform c).2 with closed := false } : EventBus α).Carried (log ++ c.sent b.closed) := by
  cases c with
  | subscribe other =>
    simp only [Command.sent, List.append_nil, perform, subscribe]
    split
    · exact h.carried
    · exact h.carried.subscribers _
  | emit e =>
    simp only [Command.sent, perform]
    cases hclosed : b.closed with
    | true => simpa [emit, hclosed] using h.carried
    | false =>
      have hemit := (h.reopened hclosed).emit e
      exact ⟨rfl, hemit.sent, hemit.kept⟩
  | drain other =>
    rw [perform_drain]
    simp only [Command.sent, List.append_nil]
    split
    · exact h.carried.subscribers _
    · exact h.carried
  | unsubscribe other =>
    simp only [Command.sent, List.append_nil]
    exact h.carried.subscribers _
  | close =>
    simp only [Command.sent, List.append_nil]
    exact h.carried

theorem Steady.perform (h : b.Steady log) (c : Command α) :
    (b.perform c).2.Steady (log ++ c.sent b.closed) := by
  refine ⟨h.carried_perform c, fun name place hplace => ?_⟩
  have hsent : b.sent = log.length := h.carried.sent
  have hwithin := h.within name
  rw [lookup_perform] at hplace
  rw [List.length_append]
  suffices hle : place ≤ log.length by omega
  cases c with
  | emit e => exact hwithin place hplace
  | close => exact hwithin place hplace
  | subscribe other =>
    simp only [Command.place] at hplace
    split at hplace
    · exact Nat.le_of_eq ((Option.some.inj hplace).symm.trans hsent)
    · exact hwithin place hplace
  | drain other =>
    simp only [Command.place] at hplace
    split at hplace
    · obtain ⟨-, -, rfl⟩ := Option.map_eq_some_iff.1 hplace
      exact Nat.le_of_eq hsent
    · exact hwithin place hplace
  | unsubscribe other =>
    simp only [Command.place] at hplace
    split at hplace
    · cases hplace
    · exact hwithin place hplace

theorem Steady.owed_perform (h : b.Steady log) (c : Command α) (name : String) :
    (b.perform c).2.owed (log ++ c.sent b.closed) name = (b.owed log name).follow name c := by
  have hsent : b.sent = log.length := h.carried.sent
  simp only [owed, lookup_perform, (perform_frame b c).1]
  cases c with
  | subscribe other =>
    by_cases hname : other = name ∧ b.closed = false
    · simp [Command.place, Backlog.follow, Command.sent, Command.closes, hname, hsent]
    · simp [Command.place, Backlog.follow, Command.sent, Command.closes, hname]
  | emit e =>
    simp only [Command.place, Backlog.follow, Command.closes, Option.map_map]
    congr 1
    refine Option.map_congr fun place hplace => ?_
    exact List.drop_append_of_le_length (h.within name place hplace)
  | drain other =>
    by_cases hname : other = name
    · simp [Command.place, Backlog.follow, Command.sent, Command.closes, hname, hsent,
        Function.comp_def]
    · simp [Command.place, Backlog.follow, Command.sent, Command.closes, hname]
  | unsubscribe other =>
    by_cases hname : other = name
    · simp [Command.place, Backlog.follow, Command.closes, hname]
    · simp [Command.place, Backlog.follow, Command.sent, Command.closes, hname]
  | close => simp [Command.place, Backlog.follow, Command.sent, Command.closes]

theorem Steady.drain_fst (h : b.Steady log) (name : String) : (b.perform (.drain name)).1 =
    (b.owed log name).missed.map fun missed => ⟨handed b.room missed, b.closed⟩ := by
  rw [perform_drain]
  cases hplace : b.subscribers.lookup name with
  | none => simp [owed, hplace]
  | some place =>
    have hpending := h.carried.pending_eq place
    simp only [owed, hplace, Option.map_some]
    exact congrArg (fun received => some (Drained.mk received b.closed)) hpending

theorem Steady.portion (h : b.Steady log) (c : Command α) (name : String) :
    c.portion name (b.perform c).1 = (b.owed log name).portion b.room name c := by
  cases c with
  | drain other =>
    rw [h.drain_fst]
    by_cases hname : other = name
    · subst hname
      cases hmissed : (b.owed log other).missed <;>
        simp [Command.portion, Backlog.portion, hmissed]
    · cases (b.owed log other).missed <;> simp [Command.portion, Backlog.portion, hname]
  | subscribe other => rfl
  | emit e => rfl
  | unsubscribe other => rfl
  | close => rfl

theorem Steady.after (session : List (Command α)) : ∀ {b : EventBus α} {log : List α},
    b.Steady log → (b.after session).Steady (log ++ emitted b.closed session) ∧
      (b.after session).room = b.room ∧ ∀ name,
        (b.after session).owed (log ++ emitted b.closed session) name =
          session.foldl (Backlog.follow name) (b.owed log name) := by
  induction session with
  | nil =>
    intro b log h
    simp only [emitted, List.append_nil]
    exact ⟨h, rfl, fun _ => rfl⟩
  | cons c session ih =>
    intro b log h
    obtain ⟨hclosed, hroom⟩ := perform_frame b c
    obtain ⟨hsteady, hsame, howed⟩ := ih (h.perform c)
    rw [hclosed, List.append_assoc] at hsteady
    refine ⟨hsteady, hsame.trans hroom, fun name => ?_⟩
    have hname := howed name
    rwa [h.owed_perform, hclosed, List.append_assoc] at hname

theorem Steady.received_eq (name : String) (session : List (Command α)) :
    ∀ {b : EventBus α} {log : List α}, b.Steady log →
      received name b session = (b.owed log name).received b.room name session := by
  induction session with
  | nil => exact fun _ => rfl
  | cons c session ih =>
    intro b log h
    rw [received, Backlog.received, h.portion, ih (h.perform c), h.owed_perform,
      (perform_frame b c).2]

theorem owed_after (capacity : Nat) (session : List (Command α)) (name : String) :
    ∃ log, ((ofCapacity capacity).after session).Steady log ∧
      ((ofCapacity capacity).after session).room = (ofCapacity capacity : EventBus α).room ∧
      ((ofCapacity capacity).after session).owed log name = backlog name session := by
  obtain ⟨hsteady, hroom, howed⟩ := (steady_ofCapacity capacity).after session
  exact ⟨_, hsteady, hroom, howed name⟩

namespace Backlog

variable {c : Command α} {room : Nat}

theorem of_not_concerns (hc : c.concerns name = false) (room : Nat) (w : Backlog α) :
    w.portion room name c = [] ∧ w.follow name c = w := by
  cases c with
  | subscribe other => simp_all [Command.concerns, portion, follow]
  | emit e => cases hc
  | drain other => simp_all [Command.concerns, portion, follow]
  | unsubscribe other => simp_all [Command.concerns, portion, follow]
  | close => cases hc

/-- What the others do makes no difference. -/
theorem received_filter (session : List (Command α)) : ∀ w : Backlog α,
    w.received room name (session.filter (·.concerns name)) = w.received room name session := by
  induction session with
  | nil => exact fun _ => rfl
  | cons c session ih =>
    intro w
    cases hc : c.concerns name with
    | true =>
      rw [List.filter_cons_of_pos hc]
      simp only [received, ih]
    | false =>
      obtain ⟨hportion, hfollow⟩ := of_not_concerns hc room w
      rw [List.filter_cons_of_neg (by simp [hc]), ih, received, hportion, hfollow, List.nil_append]

end Backlog

/-- What was received tells of all events of a list: each is there in its turn or is among those
that are counted as lost at its place. -/
inductive Covers : List (Received α) → List α → Prop
  | nil : Covers [] []
  | event {got : List (Received α)} {es : List α} (e : α) (rest : Covers got es) :
      Covers (.event e :: got) (e :: es)
  | lost {got : List (Received α)} {es : List α} (skipped : List α) (rest : Covers got es) :
      Covers (.lost skipped.length :: got) (skipped ++ es)

def eventsIn (got : List (Received α)) : List α :=
  got.filterMap fun
    | .event e => some e
    | .lost _ => none

def lostIn : List (Received α) → Nat
  | [] => 0
  | .event _ :: got => lostIn got
  | .lost count :: got => count + lostIn got

variable {got got' : List (Received α)} {es es' : List α}

theorem Covers.append (h : Covers got es) (h' : Covers got' es') :
    Covers (got ++ got') (es ++ es') := by
  induction h with
  | nil => exact h'
  | event e _ ih => exact .event e ih
  | lost skipped _ ih =>
    rw [List.append_assoc]
    exact .lost skipped ih

theorem covers_map_event (es : List α) : Covers (es.map .event) es := by
  induction es with
  | nil => exact .nil
  | cons e es ih => exact .event e ih

theorem covers_handed (room : Nat) (missed : List α) : Covers (handed room missed) missed := by
  unfold handed
  split
  · exact covers_map_event missed
  · have hlength : (missed.take (missed.length - room)).length = missed.length - room :=
      List.length_take_of_le (Nat.sub_le _ _)
    have hlost := Covers.lost (missed.take (missed.length - room))
      (covers_map_event (missed.drop (missed.length - room)))
    rwa [hlength, List.take_append_drop] at hlost

/-- Nothing is counted twice or left out. -/
theorem Covers.balance (h : Covers got es) : (eventsIn got).length + lostIn got = es.length := by
  induction h with
  | nil => rfl
  | event e _ ih =>
    simp only [eventsIn, lostIn, List.filterMap_cons, List.length_cons] at ih ⊢
    omega
  | lost skipped _ ih =>
    simp only [eventsIn, lostIn, List.filterMap_cons, List.length_append] at ih ⊢
    omega

/-- Nothing comes twice or out of turn. -/
theorem Covers.sublist (h : Covers got es) : (eventsIn got).Sublist es := by
  induction h with
  | nil => exact .slnil
  | event e _ ih => exact ih.cons_cons e
  | lost skipped _ ih => exact ih.trans (List.sublist_append_right skipped _)

/-- A subscriber that stays and drains in the end has been told of all events since it began. -/
theorem Backlog.covers_received (room : Nat) (life : List (Command α))
    (hstays : ∀ c ∈ life, c ≠ .subscribe name ∧ c ≠ .unsubscribe name) :
    ∀ (missed : List α) (closed : Bool),
      Covers ((⟨some missed, closed⟩ : Backlog α).received room name (life ++ [.drain name]))
        (missed ++ emitted closed life) := by
  induction life with
  | nil =>
    intro missed closed
    simpa [Backlog.received, Backlog.portion, emitted] using covers_handed room missed
  | cons c life ih =>
    intro missed closed
    have hc := hstays c List.mem_cons_self
    have hrest := ih fun x hx => hstays x (List.mem_cons_of_mem c hx)
    rw [List.cons_append, Backlog.received, emitted]
    cases c with
    | subscribe other =>
      have hname : other ≠ name := fun heq => hc.1 (heq ▸ rfl)
      simpa [Backlog.portion, Backlog.follow, Command.sent, Command.closes, hname] using
        hrest missed closed
    | emit e =>
      have hrest := hrest (missed ++ Command.sent closed (.emit e)) closed
      rwa [List.append_assoc] at hrest
    | drain other =>
      by_cases hname : other = name
      · subst hname
        simpa [Backlog.portion, Backlog.follow, Command.sent, Command.closes] using
          (covers_handed room missed).append (hrest [] closed)
      · simpa [Backlog.portion, Backlog.follow, Command.sent, Command.closes, hname] using
          hrest missed closed
    | unsubscribe other =>
      have hname : other ≠ name := fun heq => hc.2 (heq ▸ rfl)
      simpa [Backlog.portion, Backlog.follow, Command.sent, Command.closes, hname] using
        hrest missed closed
    | close => exact hrest missed true

theorem Backlog.closed_follow (w : Backlog α) (c : Command α) :
    (w.follow name c).closed = c.closes w.closed := by
  cases c with
  | subscribe other =>
    simp only [follow]
    split <;> rfl
  | emit e => rfl
  | drain other =>
    simp only [follow]
    split <;> rfl
  | unsubscribe other =>
    simp only [follow]
    split <;> rfl
  | close => rfl

theorem Backlog.closed_foldl {before : List (Command α)} (hopen : .close ∉ before) :
    ∀ {w : Backlog α}, w.closed = false → (before.foldl (follow name) w).closed = false := by
  induction before with
  | nil => exact id
  | cons c before ih =>
    intro w hw
    refine ih (fun hmem => hopen (List.mem_cons_of_mem c hmem)) ?_
    rw [closed_follow, hw]
    cases c with
    | close => exact absurd List.mem_cons_self hopen
    | subscribe _ | emit _ | drain _ | unsubscribe _ => rfl

theorem backlog_subscribe {before : List (Command α)} (hopen : .close ∉ before) (name : String) :
    backlog name (before ++ [.subscribe name]) = ⟨some [], false⟩ := by
  have hclosed : (before.foldl (Backlog.follow name) ⟨none, false⟩).closed = false :=
    Backlog.closed_foldl hopen rfl
  simp [backlog, Backlog.follow, hclosed]

end EventBus

end RequestEngine
