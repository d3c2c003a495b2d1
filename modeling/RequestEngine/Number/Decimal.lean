/-! Natural numbers and integers as decimal digits, and digits read back as a number. -/
namespace RequestEngine.Decimal

def digitChar (d : Nat) : Char := Char.ofNat ('0'.toNat + d)

def digitValue (c : Char) : Nat := c.toNat - '0'.toNat

/-- The decimal digits of a number, most significant first, without leading zeros. -/
def digits (n : Nat) : List Char :=
  if n < 10 then [digitChar n] else digits (n / 10) ++ [digitChar (n % 10)]
termination_by n
decreasing_by omega

def signed : Int → List Char
  | .ofNat n => digits n
  | .negSucc n => '-' :: digits (n + 1)

/-- The number written by a run of digits. -/
def ofDigits (cs : List Char) : Nat :=
  cs.foldl (fun n c => 10 * n + digitValue c) 0

/-- A number written with at least `width` digits, padded with zeros. -/
def padded (width n : Nat) : List Char :=
  let ds := digits n
  List.replicate (width - ds.length) '0' ++ ds

def tenTo (k : Nat) : Nat := Nat.pow 10 k

def text (n : Nat) : String := String.ofList (digits n)

def signedText (n : Int) : String := String.ofList (signed n)

theorem digitValue_digitChar : ∀ d, d < 10 → digitValue (digitChar d) = d := by decide

theorem ofDigits_append_digit (cs : List Char) (c : Char) :
    ofDigits (cs ++ [c]) = 10 * ofDigits cs + digitValue c := by
  simp [ofDigits, List.foldl_append]

theorem ofDigits_digits (n : Nat) : ofDigits (digits n) = n := by
  induction n using Nat.strongRecOn with
  | _ n ih =>
    rw [digits]
    split
    · rename_i h
      simpa [ofDigits] using digitValue_digitChar n h
    · rename_i h
      rw [ofDigits_append_digit, ih (n / 10) (by omega), digitValue_digitChar _ (by omega)]
      omega

example : digits 1050 = ['1', '0', '5', '0'] := by decide +kernel
example : padded 3 7 = ['0', '0', '7'] := by decide +kernel

end RequestEngine.Decimal
