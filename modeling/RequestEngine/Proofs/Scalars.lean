import Mathlib.Data.Nat.Basic
import RequestEngine.Json.Printer
import RequestEngine.Proofs.Reading
import RequestEngine.Proofs.Spelling

/-! Numbers and strings in JSON text. An integer in the range of words reads back from its digits,
and a string from its characters, escaped where they have to be. -/
namespace RequestEngine

theorem ne_of_isDigit {c d : Char} (hc : c.isDigit) (hd : d.isDigit = false) : c ≠ d := by
  rintro rfl
  rw [hc] at hd
  cases hd

namespace Decimal

theorem isDigit_digitChar : ∀ d, d < 10 → (digitChar d).isDigit := by decide

theorem digits_ne_nil (n : Nat) : digits n ≠ [] := by
  rw [digits]
  split <;> simp

theorem isDigit_of_mem_digits {n : Nat} {c : Char} (h : c ∈ digits n) : c.isDigit := by
  induction n using Nat.strongRecOn with
  | _ n ih =>
    rw [digits] at h
    split at h
    · rw [List.mem_singleton.1 h]
      exact isDigit_digitChar n ‹_›
    · rcases List.mem_append.1 h with h | h
      · exact ih (n / 10) (by omega) h
      · rw [List.mem_singleton.1 h]
        exact isDigit_digitChar _ (Nat.mod_lt _ (by decide))

theorem exists_digits_cons (n : Nat) : ∃ c cs, digits n = c :: cs ∧ c.isDigit := by
  obtain ⟨c, cs, hcs⟩ := List.exists_cons_of_ne_nil (digits_ne_nil n)
  exact ⟨c, cs, hcs, isDigit_of_mem_digits (hcs ▸ List.mem_cons_self)⟩

theorem head?_digits_ne_zero {n : Nat} (h : n ≠ 0) : (digits n).head? ≠ some '0' := by
  induction n using Nat.strongRecOn with
  | _ n ih =>
    have hsmall : ∀ d, d < 10 → d ≠ 0 → digitChar d ≠ '0' := by decide
    rw [digits]
    split
    · simpa using hsmall n ‹_› h
    · rw [List.head?_append_of_ne_nil _ (digits_ne_nil _)]
      exact ih (n / 10) (by omega) (by omega)

end Decimal

namespace Json

open Reader

variable {n : Nat} {s : List Char} {c : Char}

/-- Nothing that would go on with a number. -/
def Stops (s : List Char) : Prop :=
  ∀ c ∈ s.head?, c.isDigit = false ∧ c ≠ '.' ∧ c ≠ 'e' ∧ c ≠ 'E'

theorem le_foldl_digits (n : Nat) (ds : List Char) :
    n ≤ ds.foldl (fun n c => 10 * n + Decimal.digitValue c) n := by
  induction ds generalizing n with
  | nil => exact Nat.le_refl n
  | cons c ds ih => exact Nat.le_trans (by omega) (ih (10 * n + Decimal.digitValue c))

theorem growWithin_eq {limit n : Nat} {ds : List Char}
    (h : ds.foldl (fun n c => 10 * n + Decimal.digitValue c) n ≤ limit) :
    growWithin limit n ds = (ds.foldl (fun n c => 10 * n + Decimal.digitValue c) n, []) := by
  induction ds generalizing n with
  | nil => rfl
  | cons c ds ih =>
    have hle : 10 * n + Decimal.digitValue c ≤ limit := Nat.le_trans (le_foldl_digits _ ds) h
    rw [growWithin, if_pos hle, ih h, List.foldl_cons]

theorem growWithin_digits {limit : Nat} (h : n ≤ limit) :
    growWithin limit 0 (Decimal.digits n) = (n, []) := by
  have hvalue : (Decimal.digits n).foldl (fun n c => 10 * n + Decimal.digitValue c) 0 = n :=
    Decimal.ofDigits_digits n
  rw [growWithin_eq (by rwa [hvalue]), hvalue]

theorem takes_readTail (hs : Stops s) (negative : Bool) (n : Nat) :
    Takes (readTail negative n) s (integerValue negative n) s := by
  refine (takes_peek? s).bind ?_
  cases s with
  | nil => exact takes_pure _ _
  | cons c s =>
    obtain ⟨-, hpoint, he, hE⟩ := hs c rfl
    rw [List.head?_cons]
    split
    · rename_i heq
      exact absurd (Option.some.inj heq) hpoint
    · rename_i heq
      exact absurd (Option.some.inj heq) he
    · rename_i heq
      exact absurd (Option.some.inj heq) hE
    · exact takes_pure _ _

theorem takes_readNumber (hn : n < UInt64.size) (hs : Stops s) (negative : Bool) :
    Takes (readNumber negative) (Decimal.digits n ++ s) (integerValue negative n) s := by
  refine (takes_peek? _).bind ?_
  have hdigits : ∀ c ∈ Decimal.digits n, c.isDigit := fun c => Decimal.isDigit_of_mem_digits
  have hstop : ∀ c ∈ s.head?, c.isDigit = false := fun c hc => (hs c hc).1
  obtain ⟨c, cs, hcs, hc⟩ := Decimal.exists_digits_cons n
  rw [List.head?_append_of_ne_nil _ (Decimal.digits_ne_nil n), hcs, List.head?_cons]
  by_cases h0 : n = 0
  · subst h0
    have hzero : Decimal.digits 0 = ['0'] := by decide +kernel
    rw [hzero] at hcs
    cases hcs
    have hnext : ((s.head?.map Char.isDigit).getD false) = false := by
      cases h : s.head? with
      | none => rfl
      | some d => exact hstop d h
    dsimp only [List.cons_append, List.nil_append]
    rw [if_pos rfl]
    refine (takes_advance _ _).bind ((takes_peek? _).bind ?_)
    simp only [hnext, Bool.false_eq_true, if_false]
    exact takes_readTail hs negative 0
  · have hne : c ≠ '0' := by
      have hhead := Decimal.head?_digits_ne_zero h0
      rw [hcs] at hhead
      exact fun h => hhead (congrArg some h)
    simp only [hne, if_false, hc, if_true]
    rw [← hcs]
    refine (takes_takeDigits hdigits hstop).bind ?_
    rw [growWithin_digits (show n ≤ maxWord by simp only [maxWord]; omega)]
    exact takes_readTail hs negative n

theorem hexQuad_lastDigits (upper : Bool) (hn : n < 0x10000) (s : List Char) :
    hexQuad (Hexadecimal.lastDigits upper 4 n ++ s) = .ok (n, s) := by
  have hvalue := Hexadecimal.ofDigits?_lastDigits upper 4 n
  have hmod : n % Nat.pow 16 4 = n := Nat.mod_eq_of_lt hn
  rw [hmod] at hvalue
  simp only [Hexadecimal.lastDigits, List.nil_append, List.cons_append] at hvalue ⊢
  rw [hexQuad, hvalue]

theorem unescape_lastDigits (hc : c.toNat < 0x20) (s : List Char) :
    unescape ('u' :: (Hexadecimal.lastDigits false 4 c.toNat ++ s)) = .ok (c, s) := by
  have hlow : ¬ (0xDC00 ≤ c.toNat ∧ c.toNat ≤ 0xDFFF) := by omega
  have hplane : c.toNat < 0xD800 ∨ 0xDBFF < c.toNat := by omega
  simp only [unescape]
  rw [hexQuad_lastDigits false (by omega)]
  simp only [hlow, if_false, hplane, if_true, Char.ofNat_toNat]

/-- An escape stands for the character, and what has none for itself. -/
theorem escape_cases (c : Char) :
    (escape c = [c] ∧ c ≠ '"' ∧ c ≠ '\\' ∧ ¬ c.toNat < 0x20) ∨
      ∃ cs, escape c = '\\' :: cs ∧ ∀ s, unescape (cs ++ s) = .ok (c, s) := by
  unfold escape
  split_ifs with hquote hbackslash hcontrol hnewline hreturn htab hbackspace hfeed
  · exact .inr ⟨_, rfl, fun s => by rw [hquote]; rfl⟩
  · exact .inr ⟨_, rfl, fun s => by rw [hbackslash]; rfl⟩
  · exact .inr ⟨_, rfl, fun s => by rw [hnewline]; rfl⟩
  · exact .inr ⟨_, rfl, fun s => by rw [hreturn]; rfl⟩
  · exact .inr ⟨_, rfl, fun s => by rw [htab]; rfl⟩
  · have hc : c = '\x08' := Char.toNat_inj.1 hbackspace
    exact .inr ⟨_, rfl, fun s => by rw [hc]; rfl⟩
  · have hc : c = '\x0c' := Char.toNat_inj.1 hfeed
    exact .inr ⟨_, rfl, fun s => by rw [hc]; rfl⟩
  · exact .inr ⟨_, rfl, unescape_lastDigits hcontrol⟩
  · exact .inl ⟨rfl, hquote, hbackslash, hcontrol⟩

theorem stringBody_escape (c : Char) (s : List Char) :
    stringBody (escape c ++ s) = (stringBody s).map fun p => (c :: p.1, p.2) := by
  obtain ⟨hself, hquote, hbackslash, hcontrol⟩ | ⟨cs, hescape, hvalue⟩ := escape_cases c
  · rw [hself, List.singleton_append, stringBody]
    · rw [if_neg hcontrol]
    · exact hquote
    · exact hbackslash
  · rw [hescape, List.cons_append, stringBody]
    split
    · rename_i heq
      rw [hvalue] at heq
      cases heq
    · rename_i heq
      rw [hvalue] at heq
      cases heq
      rfl

theorem stringBody_flatMap_escape (cs s : List Char) :
    stringBody (cs.flatMap escape ++ '"' :: s) = .ok (cs, s) := by
  induction cs with
  | nil => simp [stringBody]
  | cons c cs ih =>
    rw [List.flatMap_cons, List.append_assoc, stringBody_escape, ih]
    rfl

/-- A string reads back from what stands between its quotes and the quote at its end. -/
theorem takes_readString (text : String) (s : List Char) :
    Takes readString (text.toList.flatMap escape ++ '"' :: s) text s := by
  refine (takes_get _).bind ?_
  rw [stringBody_flatMap_escape]
  have hset := takes_modify (fun _ => s) (text.toList.flatMap escape ++ '"' :: s)
  refine Takes.bind (a := ()) hset ?_
  rw [String.ofList_toList]
  exact takes_pure _ _

end Json

end RequestEngine
