/-! Hexadecimal digits, written in small or capital letters and read in either. -/
namespace RequestEngine.Hexadecimal

def digitChar (upper : Bool) (d : Nat) : Char :=
  if d < 10 then Char.ofNat ('0'.toNat + d)
  else Char.ofNat ((if upper then 'A' else 'a').toNat + (d - 10))

def digit? (c : Char) : Option Nat :=
  if '0' ≤ c ∧ c ≤ '9' then some (c.toNat - '0'.toNat)
  else if 'a' ≤ c ∧ c ≤ 'f' then some (c.toNat - 'a'.toNat + 10)
  else if 'A' ≤ c ∧ c ≤ 'F' then some (c.toNat - 'A'.toNat + 10)
  else none

/-- The number written by a run of digits, if all of them are such. -/
def ofDigits? (cs : List Char) : Option Nat :=
  cs.foldlM (fun n c => (digit? c).map (16 * n + ·)) 0

/-- The last digits of a number, a fixed count of them. -/
def lastDigits (upper : Bool) : (width : Nat) → Nat → List Char
  | 0, _ => []
  | width + 1, n => lastDigits upper width (n / 16) ++ [digitChar upper (n % 16)]

theorem digit?_digitChar : ∀ upper, ∀ d, d < 16 → digit? (digitChar upper d) = some d := by decide

end RequestEngine.Hexadecimal
