/-! Dates of the Gregorian calendar, extended to all years. -/
namespace RequestEngine

def isLeapYear (year : Int) : Bool :=
  year % 4 == 0 && (year % 100 != 0 || year % 400 == 0)

def daysInMonth (year : Int) (month : Nat) : Nat :=
  if month = 2 then (if isLeapYear year then 29 else 28)
  else if month = 4 ∨ month = 6 ∨ month = 9 ∨ month = 11 then 30 else 31

structure Date where
  year : Int
  month : Nat
  day : Nat
  valid : 1 ≤ month ∧ month ≤ 12 ∧ 1 ≤ day ∧ day ≤ daysInMonth year month
  deriving DecidableEq

namespace Date

def epoch : Date := ⟨1970, 1, 1, by decide⟩

instance : Inhabited Date := ⟨epoch⟩

def of? (year : Int) (month day : Nat) : Option Date :=
  if h : 1 ≤ month ∧ month ≤ 12 ∧ 1 ≤ day ∧ day ≤ daysInMonth year month then
    some ⟨year, month, day, h⟩
  else none

def next (d : Date) : Date :=
  ((of? d.year d.month (d.day + 1)).or
    ((of? d.year (d.month + 1) 1).or (of? (d.year + 1) 1 1))).getD d

def previous (d : Date) : Date :=
  let lastOf (year : Int) (month : Nat) := of? year month (daysInMonth year month)
  ((of? d.year d.month (d.day - 1)).or
    ((lastOf d.year (d.month - 1)).or (lastOf (d.year - 1) 12))).getD d

/-- Days before a month in a year that begins with March. -/
def daysBeforeMonth (month : Nat) : Int := (153 * ((month + 9) % 12 : Nat) + 2) / 5

/-- The number of days from 1 March of the year 0. Years begin with March, so that the leap day is
the last of its year. -/
def dayNumber (d : Date) : Int :=
  let year := if d.month ≤ 2 then d.year - 1 else d.year
  365 * year + year / 4 - year / 100 + year / 400 + daysBeforeMonth d.month + d.day - 1

/-- The month and day that lie a number of days after the first of January. -/
def ofYearDay (year : Int) : (months : Nat) → (month days : Nat) → Option Date
  | 0, _, _ => none
  | months + 1, month, days =>
    let length := daysInMonth year month
    if days < length then of? year month (days + 1)
    else ofYearDay year months (month + 1) (days - length)

def after : (years : Nat) → (year : Int) → (days : Nat) → Date
  | 0, _, _ => epoch
  | years + 1, year, days =>
    let length := if isLeapYear year then 366 else 365
    if days < length then (ofYearDay year 12 1 days).getD epoch
    else after years (year + 1) (days - length)

/-- The date some days after the epoch. Cycles of 400 years have the same calendar. -/
def ofEpochDays (n : Nat) : Date :=
  after 401 (1970 + 400 * (n / 146097 : Nat)) (n % 146097)

example : (ofEpochDays 18321).year = 2020 ∧ (ofEpochDays 18321).month = 2 ∧
    (ofEpochDays 18321).day = 29 := by decide +kernel
example : (ofEpochDays 18321).dayNumber - epoch.dayNumber = 18321 := by decide +kernel

end Date

end RequestEngine
