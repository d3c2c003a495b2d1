import RequestEngine.Time.Date

/-! Instants of universal time to the nanosecond, leap seconds included, and the milliseconds
between two of them. -/
namespace RequestEngine

/-- A date and a time of day. The second 60 is a leap second, which may end any minute. -/
structure Instant where
  date : Date
  hour : Nat
  minute : Nat
  second : Nat
  nanos : Nat
  valid : hour < 24 ∧ minute < 60 ∧ second ≤ 60 ∧ nanos < 1000000000
  deriving DecidableEq

namespace Instant

def of? (date : Date) (hour minute second nanos : Nat) : Option Instant :=
  if h : hour < 24 ∧ minute < 60 ∧ second ≤ 60 ∧ nanos < 1000000000 then
    some ⟨date, hour, minute, second, nanos, h⟩
  else none

def epoch : Instant := ⟨.epoch, 0, 0, 0, 0, by decide⟩

instance : Inhabited Instant := ⟨epoch⟩

def ofMillis (ms : Nat) : Instant where
  date := .ofEpochDays (ms / 86400000)
  hour := ms / 3600000 % 24
  minute := ms / 60000 % 60
  second := ms / 1000 % 60
  nanos := ms % 1000 * 1000000
  valid := by omega

/-- The second of the day, a leap second counting as the one before it. -/
def daySecond (t : Instant) : Int := t.hour * 3600 + t.minute * 60 + min t.second 59

/-- The nanoseconds past that second, more than 10^9 of them in a leap second. -/
def fraction (t : Instant) : Int := t.nanos + if t.second = 60 then 1000000000 else 0

/-- The nanoseconds from one instant to another. A leap second between two times of day counts,
one that both or neither have behind them does not. -/
def nanosSince (t s : Instant) : Int :=
  let leap : Int :=
    if t.daySecond > s.daySecond ∧ s.fraction ≥ 1000000000 then 1
    else if t.daySecond < s.daySecond ∧ t.fraction ≥ 1000000000 then -1
    else 0
  let seconds := (t.date.dayNumber - s.date.dayNumber) * 86400 + (t.daySecond - s.daySecond) + leap
  seconds * 1000000000 + (t.fraction - s.fraction)

/-- Whole milliseconds from one instant to a later one, zero if it is not later. -/
def millisSince (t s : Instant) : Nat := (t.nanosSince s / 1000000).toNat

example : (ofMillis 86400123).millisSince (ofMillis 5) = 86400118 := by decide +kernel

end Instant

end RequestEngine
