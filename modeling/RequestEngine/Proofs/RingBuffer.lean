import RequestEngine.Proofs.Bus

/-! A ring of slots. Each holds the last event that fell to it, with its place among all events. A
reader knows nothing but its own place: the slot of that place shows whether the event is there, is
still to come, or has been overwritten. Whoever reads on to the end gets just what a bus with as
much room hands over. -/
namespace RequestEngine

universe u

variable {α : Type u}

/-- Slots with the events they hold, and the places of these among all events. -/
structure RingBuffer (α : Type u) where
  slots : List (Option (Nat × α))
  sent : Nat
  closed : Bool

/-- What a reader finds at its place. -/
inductive Reading (α : Type u) where
  | event (e : α)
  | lost (count : Nat)
  | nothing
  | ended

namespace RingBuffer

def ofSize (n : Nat) : RingBuffer α := ⟨List.replicate n none, 0, false⟩

def room (r : RingBuffer α) : Nat := r.slots.length

/-- Put an event into the slot of its place, over what was there. -/
def write (r : RingBuffer α) (e : α) : RingBuffer α :=
  if r.closed then r
  else { r with slots := r.slots.set (r.sent % r.room) (some (r.sent, e)), sent := r.sent + 1 }

/-- What a reader finds who has got all there is. -/
def silence (r : RingBuffer α) : Reading α := if r.closed then .ended else .nothing

/-- Look at the slot of a place. If the event there is one round too early, the reader has got all
there is; if it is later than that, the events from the place to the oldest that is kept are
lost. -/
def read (r : RingBuffer α) (place : Nat) : Reading α :=
  match r.slots[place % r.room]?.join with
  | none => r.silence
  | some (found, e) =>
    if found = place then .event e
    else if found + r.room = place then r.silence
    else .lost (r.sent - r.room - place)

/-- Read from a place on as long as there is something: what is got, whether the end is told after
it, and the place that is reached. -/
inductive Drains (r : RingBuffer α) : Nat → List (Received α) → Bool → Nat → Prop
  | nothing {place : Nat} (found : r.read place = .nothing) : Drains r place [] false place
  | ended {place : Nat} (found : r.read place = .ended) : Drains r place [] true place
  | event {place last : Nat} {e : α} {received : List (Received α)} {ended : Bool}
      (found : r.read place = .event e) (rest : Drains r (place + 1) received ended last) :
      Drains r place (.event e :: received) ended last
  | lost {place last count : Nat} {received : List (Received α)} {ended : Bool}
      (found : r.read place = .lost count) (rest : Drains r (place + count) received ended last) :
      Drains r place (.lost count :: received) ended last

/-- The slots hold the last of some events, and those that no event fell to yet are empty. -/
structure Holds (log : List α) (r : RingBuffer α) : Prop where
  sent : r.sent = log.length
  kept : ∀ place e, log[place]? = some e → log.length ≤ place + r.room →
    r.slots[place % r.room]? = some (some (place, e))
  empty : ∀ place, log.length ≤ place → place < r.room → r.slots[place]? = some none

variable {r : RingBuffer α} {log : List α} {place : Nat}

theorem holds_ofSize (n : Nat) : (ofSize n : RingBuffer α).Holds [] where
  sent := rfl
  kept place e hplace := by simp at hplace
  empty place _ hlt := by
    have hlt : place < n := by simpa [room, ofSize] using hlt
    simp [ofSize, hlt]

@[simp] theorem room_write (r : RingBuffer α) (e : α) : (r.write e).room = r.room := by
  unfold write
  split
  · rfl
  · exact List.length_set

@[simp] theorem closed_write (r : RingBuffer α) (e : α) : (r.write e).closed = r.closed := by
  unfold write
  split <;> rfl

/-- Two places less than a round apart fall to different slots. -/
theorem mod_ne_of_lt_round {n i j : Nat} (hlt : i < j) (hround : j < i + n) : i % n ≠ j % n := by
  intro heq
  have hdvd : n ∣ j - i := Nat.dvd_of_mod_eq_zero (Nat.sub_mod_eq_zero_of_mod_eq heq.symm)
  have hle := Nat.le_of_dvd (Nat.sub_pos_of_lt hlt) hdvd
  omega

theorem Holds.write (h : r.Holds log) (hroom : 0 < r.room) (hclosed : r.closed = false) (e : α) :
    (r.write e).Holds (log ++ [e]) := by
  obtain ⟨hsent, hkept, hempty⟩ := h
  have hwrite : r.write e = { r with
      slots := r.slots.set (log.length % r.room) (some (log.length, e))
      sent := log.length + 1 } := by
    simp [RingBuffer.write, hclosed, hsent]
  have hslot : log.length % r.room < r.slots.length := Nat.mod_lt _ hroom
  refine ⟨by simp [hwrite], fun place x hx hlast => ?_, fun place hplace hlt => ?_⟩
  · rw [room_write] at hlast ⊢
    rw [List.length_append, List.length_singleton] at hlast
    simp only [hwrite, List.getElem?_set]
    by_cases hplace : place < log.length
    · rw [if_neg (mod_ne_of_lt_round hplace (by omega)).symm]
      rw [List.getElem?_append_left hplace] at hx
      exact hkept place x hx (by omega)
    · obtain rfl : place = log.length := by
        have hin := (List.getElem?_eq_some_iff.1 hx).1
        rw [List.length_append, List.length_singleton] at hin
        omega
      rw [List.getElem?_concat_length] at hx
      rw [if_pos rfl, if_pos hslot, Option.some.inj hx]
  · rw [room_write] at hlt
    rw [List.length_append, List.length_singleton] at hplace
    have hother : log.length % r.room ≠ place := by
      have hmod := Nat.mod_le log.length r.room
      omega
    simp only [hwrite, List.getElem?_set, if_neg hother]
    exact hempty place (by omega) hlt

theorem Holds.read_event (h : r.Holds log) {e : α} (he : log[place]? = some e)
    (hlast : log.length ≤ place + r.room) : r.read place = .event e := by
  simp [read, h.kept place e he hlast]

theorem Holds.read_end (h : r.Holds log) (hroom : 0 < r.room) : r.read log.length = r.silence := by
  by_cases hfull : log.length < r.room
  · simp [read, Nat.mod_eq_of_lt hfull, h.empty log.length (Nat.le_refl _) hfull]
  · obtain ⟨old, hold⟩ : ∃ old, log.length = old + r.room := ⟨log.length - r.room, by omega⟩
    have hlt : old < log.length := by omega
    have hslot := h.kept old log[old] (List.getElem?_eq_getElem hlt) (by omega)
    simp [read, hold, hslot, Nat.ne_of_gt hroom]

theorem Holds.read_lost (h : r.Holds log) (hroom : 0 < r.room)
    (hlost : place + r.room < log.length) :
    r.read place = .lost (log.length - r.room - place) := by
  have hdiv := Nat.div_add_mod (log.length - 1 - place) r.room
  have hmod := Nat.mod_lt (log.length - 1 - place) hroom
  generalize (log.length - 1 - place) / r.room = rounds at hdiv
  have hlt : place + r.room * rounds < log.length := by omega
  have hslot := h.kept (place + r.room * rounds) log[place + r.room * rounds]
    (List.getElem?_eq_getElem hlt) (by omega)
  rw [Nat.add_mul_mod_self_left] at hslot
  have hlater : place < place + r.room * rounds := by omega
  simp only [read, hslot, Option.join_some, if_neg (Nat.ne_of_gt hlater), h.sent]
  rw [if_neg (by omega)]

theorem Holds.drains_kept (h : r.Holds log) (hroom : 0 < r.room) (hplace : place ≤ log.length)
    (hlast : log.length ≤ place + r.room) :
    r.Drains place ((log.drop place).map .event) r.closed log.length := by
  induction hk : log.length - place generalizing place with
  | zero =>
    obtain rfl : place = log.length := by omega
    have hend := h.read_end hroom
    rw [List.drop_length]
    unfold silence at hend
    cases hclosed : r.closed with
    | false => exact .nothing (by simpa [hclosed] using hend)
    | true => exact .ended (by simpa [hclosed] using hend)
  | succ k ih =>
    have hlt : place < log.length := by omega
    rw [List.drop_eq_getElem_cons hlt, List.map_cons]
    refine .event (h.read_event (List.getElem?_eq_getElem hlt) hlast) ?_
    exact ih (by omega) (by omega) (by omega)

/-- Whoever reads on to the end gets what there is to get of the events since its place. -/
theorem Holds.drains (h : r.Holds log) (hroom : 0 < r.room) (hplace : place ≤ log.length) :
    r.Drains place (EventBus.handed r.room (log.drop place)) r.closed log.length := by
  unfold EventBus.handed
  rw [List.length_drop]
  by_cases hlost : log.length - place ≤ r.room
  · rw [if_pos hlost]
    exact h.drains_kept hroom hplace (by omega)
  · rw [if_neg hlost, List.drop_drop, Nat.sub_right_comm]
    refine .lost (h.read_lost hroom (by omega)) ?_
    exact h.drains_kept hroom (by omega) (by omega)

theorem Drains.unique {received received' : List (Received α)} {ended ended' : Bool}
    {last last' : Nat} (h : r.Drains place received ended last)
    (h' : r.Drains place received' ended' last') :
    received = received' ∧ ended = ended' ∧ last = last' := by
  induction h generalizing received' with
  | nothing found => cases h' with
    | nothing => exact ⟨rfl, rfl, rfl⟩
    | ended found' | event found' | lost found' => cases found.symm.trans found'
  | ended found => cases h' with
    | ended => exact ⟨rfl, rfl, rfl⟩
    | nothing found' | event found' | lost found' => cases found.symm.trans found'
  | event found rest ih => cases h' with
    | event found' rest' =>
      obtain rfl := Reading.event.inj (found.symm.trans found')
      obtain ⟨rfl, rfl, rfl⟩ := ih rest'
      exact ⟨rfl, rfl, rfl⟩
    | nothing found' | ended found' | lost found' => cases found.symm.trans found'
  | lost found rest ih => cases h' with
    | lost found' rest' =>
      obtain rfl := Reading.lost.inj (found.symm.trans found')
      obtain ⟨rfl, rfl, rfl⟩ := ih rest'
      exact ⟨rfl, rfl, rfl⟩
    | nothing found' | ended found' | event found' => cases found.symm.trans found'

end RingBuffer

end RequestEngine
