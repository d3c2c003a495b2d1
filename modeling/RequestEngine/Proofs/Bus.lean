import RequestEngine.Engine.EventBus
import RequestEngine.Proofs.Lists

/-! The bus and its subscribers. It keeps the end of all that it was sent, and whoever is not too
far behind gets just what came since the last time. -/
namespace RequestEngine.EventBus

universe u

variable {α : Type u} {b : EventBus α} {log : List α} {name other : String} {behind : Nat}

/-- The bus has carried some events, of which it keeps the last. -/
structure Carried (log : List α) (b : EventBus α) : Prop where
  opened : b.closed = false
  sent : b.sent = log.length
  kept : b.kept = log.drop (log.length - b.room)

theorem carried_ofCapacity (capacity : Nat) :
    (ofCapacity capacity : EventBus α).Carried [] := ⟨rfl, rfl, by simp [ofCapacity]⟩

theorem Carried.emit (h : b.Carried log) (e : α) : (b.emit e).Carried (log ++ [e]) := by
  obtain ⟨hopened, hsent, hkept⟩ := h
  simp only [EventBus.emit, hopened, Bool.false_eq_true, if_false]
  refine ⟨rfl, by simp [hsent], ?_⟩
  have hend : b.kept ++ [e] = (log ++ [e]).drop (log.length - b.room) := by
    rw [hkept, List.drop_append_of_le_length (Nat.sub_le _ _)]
  simp only [hend, List.drop_drop, List.length_drop, List.length_append, List.length_singleton]
  congr 1
  omega

theorem Carried.foldl_emit (h : b.Carried log) (new : List α) :
    (new.foldl EventBus.emit b).Carried (log ++ new) := by
  induction new generalizing b log with
  | nil => simpa using h
  | cons e new ih =>
    have hrest := ih (h.emit e)
    rwa [List.append_assoc] at hrest

theorem Carried.subscribers (h : b.Carried log) (subscribers : List (String × Nat)) :
    ({ b with subscribers := subscribers } : EventBus α).Carried log :=
  ⟨h.opened, h.sent, h.kept⟩

theorem subscribe_eq (h : b.Carried log) (name : String) : b.subscribe name =
    { b with subscribers := (name, log.length) :: b.subscribers.filter (·.1 ≠ name) } := by
  simp [subscribe, h.opened, h.sent]

theorem subscribers_foldl_emit (new : List α) :
    ∀ b : EventBus α, (new.foldl emit b).subscribers = b.subscribers := by
  induction new with
  | nil => exact fun b => rfl
  | cons e new ih =>
    intro b
    rw [List.foldl_cons, ih, emit]
    split <;> rfl

/-- What there is to get of the events that were missed, when some of them are kept. -/
def handed (room : Nat) (missed : List α) : List (Received α) :=
  if missed.length ≤ room then missed.map .event
  else .lost (missed.length - room) :: (missed.drop (missed.length - room)).map .event

/-- What a subscriber gets depends on nothing but the events that it missed. -/
theorem Carried.pending_eq (h : b.Carried log) (behind : Nat) :
    b.pending behind = handed b.room (log.drop behind) := by
  obtain ⟨-, hsent, hkept⟩ := h
  have hevents : b.kept.drop (b.kept.length - (b.sent - behind)) =
      log.drop (max behind (log.length - b.room)) := by
    rw [hsent, hkept, List.drop_drop, List.length_drop]
    by_cases hle : behind ≤ log.length
    · congr 1
      omega
    · rw [List.drop_eq_nil_of_le (by omega), List.drop_eq_nil_of_le (by omega)]
  unfold EventBus.pending handed
  dsimp only
  rw [hevents, hsent, List.length_drop]
  by_cases hlost : b.room < log.length - behind
  · rw [if_pos hlost, if_neg (Nat.not_le.2 hlost), List.drop_drop]
    congr 3
    omega
  · have hlast : log.length - b.room ≤ behind := by omega
    rw [if_neg hlost, if_pos (Nat.not_lt.1 hlost), Nat.max_eq_left hlast]

/-- Who is behind by no more than is kept gets all that came since. -/
theorem Carried.pending (h : b.Carried log) {events : List α}
    (hgot : b.pending behind = events.map .event) : events = log.drop behind := by
  rw [h.pending_eq, handed] at hgot
  split at hgot
  · exact List.map_injective_iff.2 (fun _ _ heq => Received.event.inj heq) hgot.symm
  · cases events <;> simp at hgot

theorem lookup_subscribe (h : b.Carried log) (name : String) :
    (b.subscribe name).subscribers.lookup name = some log.length := by
  simp [subscribe_eq h]

theorem lookup_subscribe_ne (h : b.Carried log) (hne : name ≠ other) :
    (b.subscribe other).subscribers.lookup name = b.subscribers.lookup name := by
  have hno : (name == other) = false := by simpa using hne
  rw [subscribe_eq h]
  simp only [List.lookup_cons, hno]
  exact lookup_filter_ne hne b.subscribers

theorem drain?_of_lookup (h : b.Carried log) (hname : b.subscribers.lookup name = some behind) :
    ∃ b', b.drain? name = some (b.pending behind, b') ∧ b'.Carried log ∧
      b'.subscribers.lookup name = some log.length := by
  have hdrain : b.drain? name = some (b.pending behind, { b with
      subscribers := b.subscribers.map fun s => if s.1 = name then (name, b.sent) else s }) := by
    simp only [drain?, hname, Option.map_some]
  refine ⟨_, hdrain, h.subscribers _, ?_⟩
  rw [← h.sent]
  exact lookup_map_self hname b.sent

theorem drain?_carried (h : b.Carried log) {received : List (Received α)} {b' : EventBus α}
    (hd : b.drain? other = some (received, b')) : b'.Carried log ∧
      ∀ name, name ≠ other → b'.subscribers.lookup name = b.subscribers.lookup name := by
  obtain ⟨behind, -, hb⟩ := Option.map_eq_some_iff.1 hd
  obtain ⟨-, rfl⟩ := Prod.mk.inj hb
  exact ⟨h.subscribers _, fun name hne => lookup_map_ne hne b.sent b.subscribers⟩

end RequestEngine.EventBus
