import Mathlib.Data.List.Basic
import RequestEngine.Proofs.Scalars
import RequestEngine.Time.Rfc3339

/-! Instants read back from their texts. What is written has no blanks, and every number is followed
by a mark, so each part takes its own characters and no more. -/
namespace RequestEngine

namespace Decimal

theorem ofDigits_replicate_append (k : Nat) (ds : List Char) :
    ofDigits (List.replicate k '0' ++ ds) = ofDigits ds := by
  induction k with
  | zero => rfl
  | succ k ih => exact ih

theorem ofDigits_padded (width n : Nat) : ofDigits (padded width n) = n := by
  rw [padded, ofDigits_replicate_append, ofDigits_digits]

theorem isDigit_of_mem_padded {width n : Nat} {c : Char} (h : c ∈ padded width n) : c.isDigit := by
  rcases List.mem_append.1 h with h | h
  · rw [List.eq_of_mem_replicate h]
    rfl
  · exact isDigit_of_mem_digits h

theorem padded_ne_nil (width n : Nat) : padded width n ≠ [] :=
  List.append_ne_nil_of_right_ne_nil _ (digits_ne_nil n)

theorem length_digits_le {k n : Nat} (h : n < tenTo (k + 1)) : (digits n).length ≤ k + 1 := by
  induction k generalizing n with
  | zero =>
    have hdigit : n < 10 := h
    rw [digits, if_pos hdigit]
    exact Nat.le_refl 1
  | succ k ih =>
    rw [digits]
    split
    · exact Nat.le_add_left 1 (k + 1)
    · have hpow : tenTo (k + 1 + 1) = tenTo (k + 1) * 10 := rfl
      have hdigits := ih (n := n / 10) (by omega)
      rw [List.length_append, List.length_singleton]
      omega

theorem length_padded {k n : Nat} (h : n < tenTo (k + 1)) : (padded (k + 1) n).length = k + 1 := by
  have hle := length_digits_le h
  rw [padded, List.length_append, List.length_replicate]
  omega

end Decimal

theorem Text.isBlank_of_isDigit {c : Char} (h : c.isDigit) : Text.isBlank c = false := by
  have hrange : 48 ≤ c.toNat ∧ c.toNat ≤ 57 := by simpa [Char.isDigit, UInt32.le_iff_toNat_le] using h
  simp [Text.isBlank]
  omega

namespace Instant

namespace Scan

variable {α β : Type} {r : Scan α} {f : α → Scan β} {s s' s'' ds : List Char} {a : α} {b : β}
  {c : Char}

/-- The reader succeeds with a part and leaves the rest of the text. -/
def Takes (r : Scan α) (s : List Char) (a : α) (s' : List Char) : Prop := r s = .ok (a, s')

theorem takes_pure (a : α) (s : List Char) : Takes (pure a) s a s := rfl

theorem takes_get (s : List Char) : Takes get s s s := rfl

theorem takes_set (s s' : List Char) : Takes (set s') s () s' := rfl

theorem takes_modify (g : List Char → List Char) (s : List Char) : Takes (modify g) s () (g s) :=
  rfl

theorem Takes.bind (h : Takes r s a s') (h' : Takes (f a) s' b s'') : Takes (r >>= f) s b s'' := by
  change (r s).bind (fun p => f p.1 p.2) = _
  rw [h]
  exact h'

theorem takes_blanks (hc : Text.isBlank c = false) (s : List Char) :
    Takes blanks (c :: s) () (c :: s) := by
  have h := takes_modify Text.dropBlanks (c :: s)
  rwa [Text.dropBlanks, List.dropWhile_cons_of_neg (by simp [hc])] at h

theorem takes_mark (hc : Text.isBlank c = false) (s : List Char) : Takes (mark c) (c :: s) () s := by
  refine (takes_blanks hc s).bind ((takes_get _).bind ?_)
  simp only [List.head?_cons, if_true]
  exact takes_modify (·.drop 1) (c :: s)

theorem head?_cons_of_not_isDigit (hc : c.isDigit = false) (s : List Char) :
    ∀ d ∈ (c :: s).head?, d.isDigit = false := by
  rintro d hd
  rwa [← Option.some.inj hd]

theorem takeWhile_isDigit (hds : ∀ c ∈ ds, c.isDigit) (hs : ∀ c ∈ s.head?, c.isDigit = false) :
    (ds ++ s).takeWhile Char.isDigit = ds := by
  rw [List.takeWhile_append_of_pos hds]
  cases s with
  | nil => exact List.append_nil ds
  | cons c s =>
    rw [List.takeWhile_cons_of_neg (by simpa using hs c rfl), List.append_nil]

theorem takeWhile_isDigit_take {w : Nat} (hds : ∀ c ∈ ds, c.isDigit)
    (hs : ∀ c ∈ s.head?, c.isDigit = false) (hw : ds.length ≤ w) :
    ((ds ++ s).take w).takeWhile Char.isDigit = ds := by
  rw [List.take_append, List.take_of_length_le hw]
  refine takeWhile_isDigit hds fun c hc => hs c ?_
  cases hrest : w - ds.length with
  | zero => simp [hrest] at hc
  | succ n => cases s <;> simp_all

theorem takes_number (width : Option Nat) (hne : ds ≠ []) (hds : ∀ c ∈ ds, c.isDigit)
    (hwidth : ∀ w ∈ width, ds.length ≤ w) (hsize : Decimal.ofDigits ds < UInt64.size / 2)
    (hs : ∀ c ∈ s.head?, c.isDigit = false) :
    Takes (number width) (ds ++ s) (Decimal.ofDigits ds) s := by
  have hhead : ∃ c, (ds ++ s).head? = some c ∧ c.isDigit := by
    obtain ⟨c, cs, rfl⟩ := List.exists_cons_of_ne_nil hne
    exact ⟨c, rfl, hds c List.mem_cons_self⟩
  obtain ⟨c, hhead, hc⟩ := hhead
  have hrest : Takes (do set ((ds ++ s).drop ds.length); return Decimal.ofDigits ds) (ds ++ s)
      (Decimal.ofDigits ds) s := by
    rw [List.drop_left]
    exact (takes_set _ _).bind (takes_pure _ s)
  refine (takes_get _).bind ?_
  rw [hhead]
  simp only [hc, Bool.not_true, Bool.false_eq_true, if_false]
  refine (takes_get _).bind ?_
  cases width with
  | none =>
    simp only [takeWhile_isDigit hds hs]
    rwa [if_neg (Nat.not_le.2 hsize)]
  | some w =>
    simp only [takeWhile_isDigit_take hds hs (hwidth w rfl)]
    rwa [if_neg (Nat.not_le.2 hsize)]

theorem takes_blanks_digits (hne : ds ≠ []) (hds : ∀ c ∈ ds, c.isDigit) (s : List Char) :
    Takes blanks (ds ++ s) () (ds ++ s) := by
  obtain ⟨c, cs, rfl⟩ := List.exists_cons_of_ne_nil hne
  exact takes_blanks (Text.isBlank_of_isDigit (hds c List.mem_cons_self)) (cs ++ s)

theorem takes_number_padded {k n : Nat} (h : n < Decimal.tenTo (k + 1)) (hsize : n < UInt64.size / 2)
    (hs : ∀ c ∈ s.head?, c.isDigit = false) :
    Takes (number (some (k + 1))) (Decimal.padded (k + 1) n ++ s) n s := by
  have hnumber := takes_number (some (k + 1)) (Decimal.padded_ne_nil (k + 1) n)
    (fun c => Decimal.isDigit_of_mem_padded)
    (fun w hw => by rw [← Option.some.inj hw, Decimal.length_padded h])
    (by rwa [Decimal.ofDigits_padded]) hs
  rwa [Decimal.ofDigits_padded] at hnumber

theorem takes_field {low high n : Nat} (hlow : low ≤ n) (hhigh : n ≤ high) (h : n < 100)
    (hs : ∀ c ∈ s.head?, c.isDigit = false) :
    Takes (field low high) (Decimal.padded 2 n ++ s) n s := by
  have hsize : n < UInt64.size / 2 := Nat.lt_trans h (by decide)
  refine (takes_blanks_digits (Decimal.padded_ne_nil 2 n)
    (fun c => Decimal.isDigit_of_mem_padded) s).bind ?_
  refine (takes_number_padded h hsize hs).bind ?_
  rw [if_pos ⟨hlow, hhigh⟩]
  exact takes_pure n s

/-- Years of more than four digits have a sign, so that all of their digits are taken. -/
theorem takes_year {y : Int} (hlow : minYear ≤ y) (hhigh : y ≤ maxYear)
    (hs : ∀ c ∈ s.head?, c.isDigit = false) : Takes year (yearChars y ++ s) y s := by
  rw [minYear] at hlow
  rw [maxYear] at hhigh
  have hrange : -0x80000000 ≤ y ∧ y < 0x80000000 := by omega
  have hsize : y.natAbs < UInt64.size / 2 := by
    have : UInt64.size / 2 = 9223372036854775808 := rfl
    omega
  have hsigned : Takes (number none) (Decimal.padded 4 y.natAbs ++ s) y.natAbs s := by
    have hnumber := takes_number none (Decimal.padded_ne_nil 4 y.natAbs)
      (fun c => Decimal.isDigit_of_mem_padded) (fun w hw => by cases hw)
      (by rwa [Decimal.ofDigits_padded]) hs
    rwa [Decimal.ofDigits_padded] at hnumber
  have hdone : ∀ n : Int, n = y →
      Takes (if -0x80000000 ≤ n ∧ n < 0x80000000 then return n else throw .outOfRange) s y s := by
    rintro n rfl
    rw [if_pos hrange]
    exact takes_pure n s
  rw [yearChars]
  split
  · rename_i hshort
    have hfour : y.toNat < 10000 := by omega
    obtain ⟨c, cs, hcs⟩ := List.exists_cons_of_ne_nil (Decimal.padded_ne_nil 4 y.toNat)
    have hc : c.isDigit := Decimal.isDigit_of_mem_padded (by rw [hcs]; exact List.mem_cons_self)
    have hnumber := takes_number_padded (k := 3) hfour (by omega) hs
    rw [hcs] at hnumber ⊢
    refine (takes_blanks (Text.isBlank_of_isDigit hc) _).bind ((takes_get _).bind ?_)
    dsimp only [List.head?_cons]
    split
    · rename_i heq
      exact absurd (Option.some.inj heq) (ne_of_isDigit hc rfl)
    · rename_i heq
      exact absurd (Option.some.inj heq) (ne_of_isDigit hc rfl)
    · exact hnumber.bind ((takes_pure _ _).bind (hdone _ (by omega)))
  · split
    · exact (takes_blanks (by decide) _).bind ((takes_get _).bind
        ((takes_modify _ _).bind (hsigned.bind ((takes_pure _ _).bind (hdone _ (by omega))))))
    · exact (takes_blanks (by decide) _).bind ((takes_get _).bind
        ((takes_modify _ _).bind (hsigned.bind ((takes_pure _ _).bind (hdone _ (by omega))))))

theorem takes_fraction_digits {k n nanos : Nat} (hk : k < 9) (h : n < Decimal.tenTo (k + 1))
    (hnanos : n * Decimal.tenTo (8 - k) = nanos) :
    Takes fraction ('.' :: (Decimal.padded (k + 1) n ++ ['Z'])) nanos ['Z'] := by
  have hlength := Decimal.length_padded h
  have hpow : Decimal.tenTo (k + 1) ≤ Decimal.tenTo 9 := Nat.pow_le_pow_right (by decide) hk
  have hsize : n < UInt64.size / 2 := Nat.lt_of_lt_of_le h (Nat.le_trans hpow (by decide))
  have hnumber := takes_number (s := ['Z']) (some 9) (Decimal.padded_ne_nil (k + 1) n)
    (fun c => Decimal.isDigit_of_mem_padded)
    (fun w hw => by rw [← Option.some.inj hw, hlength]; omega)
    (by rwa [Decimal.ofDigits_padded]) (head?_cons_of_not_isDigit (by decide) [])
  rw [Decimal.ofDigits_padded] at hnumber
  refine (takes_get _).bind ?_
  rw [List.head?_cons, if_pos rfl]
  refine (takes_modify _ _).bind ((takes_get _).bind (hnumber.bind ((takes_get _).bind ?_)))
  refine (takes_modify _ _).bind ?_
  have hused : (Decimal.padded (k + 1) n ++ ['Z']).length - ['Z'].length = k + 1 := by
    rw [List.length_append, hlength, Nat.add_sub_cancel]
  have hscale : 9 - (k + 1) = 8 - k := by omega
  rw [List.drop_one, List.tail_cons, hused, hscale, hnanos]
  exact takes_pure _ _

theorem takes_fraction {nanos : Nat} (h : nanos < 1000000000) :
    Takes fraction (fractionChars nanos ++ ['Z']) nanos ['Z'] := by
  rw [fractionChars]
  split
  · rename_i hzero
    rw [hzero]
    exact (takes_get _).bind (takes_pure _ _)
  split
  · have hlt : nanos / 1000000 < 1000 := by omega
    have hnanos : nanos / 1000000 * 1000000 = nanos := by omega
    exact takes_fraction_digits (k := 2) (by decide) hlt hnanos
  split
  · have hlt : nanos / 1000 < 1000000 := by omega
    have hnanos : nanos / 1000 * 1000 = nanos := by omega
    exact takes_fraction_digits (k := 5) (by decide) hlt hnanos
  · exact takes_fraction_digits (k := 8) (by decide) h (Nat.mul_one nanos)

theorem head?_fractionChars (nanos : Nat) :
    ∀ c ∈ (fractionChars nanos ++ ['Z']).head?, c.isDigit = false := by
  rw [fractionChars]
  split_ifs <;> exact head?_cons_of_not_isDigit (by decide) _

theorem takes_offset : Takes offset ['Z'] 0 [] := rfl

end Scan

theorem lessOffset_zero (t : Instant) : t.lessOffset 0 = t := by
  obtain ⟨date, hour, minute, second, nanos, hvalid⟩ := t
  have hminutes : ¬ (hour * 60 + minute - 0 : Int) < 0 ∧ ¬ 1440 ≤ (hour * 60 + minute - 0 : Int) := by
    omega
  simp only [lessOffset, mk.injEq, hminutes.1, hminutes.2, if_false, true_and, and_true]
  omega

theorem local_eq (t : Instant) :
    (Date.of? t.date.year t.date.month t.date.day).bind
      (of? · t.hour t.minute t.second t.nanos) = some t := by
  rw [Date.of?, dif_pos t.date.valid, Option.bind_some, of?, dif_pos t.valid]

theorem takes_scan {t : Instant} (h : inRange t.date) : Scan.Takes scan t.chars t [] := by
  have hdate := t.date.valid
  have htime := t.valid
  have hday : t.date.day ≤ 31 :=
    Nat.le_trans hdate.2.2.2 (by unfold daysInMonth; split_ifs <;> decide)
  have hyear : minYear ≤ t.date.year ∧ t.date.year ≤ maxYear := by simpa [inRange] using h
  have hmark : ∀ {c : Char}, c.isDigit = false → ∀ s, ∀ d ∈ (c :: s).head?, d.isDigit = false :=
    fun hc => Scan.head?_cons_of_not_isDigit hc
  rw [chars]
  simp only [List.append_assoc, List.cons_append]
  refine (Scan.takes_year hyear.1 hyear.2 (hmark (by decide) _)).bind ?_
  refine (Scan.takes_mark (by decide) _).bind ?_
  refine (Scan.takes_field hdate.1 hdate.2.1 (by omega) (hmark (by decide) _)).bind ?_
  refine (Scan.takes_mark (by decide) _).bind ?_
  refine (Scan.takes_field hdate.2.2.1 hday (by omega) (hmark (by decide) _)).bind ?_
  refine (Scan.takes_get _).bind ((Scan.takes_modify _ _).bind ?_)
  rw [List.drop_one, List.tail_cons]
  refine (Scan.takes_field (Nat.zero_le _) (by omega) (by omega) (hmark (by decide) _)).bind ?_
  refine (Scan.takes_mark (by decide) _).bind ?_
  refine (Scan.takes_field (Nat.zero_le _) (by omega) (by omega) (hmark (by decide) _)).bind ?_
  refine (Scan.takes_mark (by decide) _).bind ?_
  refine (Scan.takes_field (Nat.zero_le _) (by omega) (by omega)
    (Scan.head?_fractionChars _)).bind ?_
  refine (Scan.takes_fraction htime.2.2.2).bind ?_
  refine (Scan.takes_blanks (by decide) []).bind (Scan.takes_offset.bind ?_)
  refine (Scan.takes_modify _ _).bind ((Scan.takes_get _).bind ?_)
  simp only [local_eq, lessOffset_zero, h]
  exact Scan.takes_pure t []

/-- An instant of a year that can be denoted reads back from its text. -/
theorem parse_text {t : Instant} (h : inRange t.date) : parse t.text = .ok t := by
  rw [parse, text, String.toList_ofList, takes_scan h]
  rfl

end Instant

end RequestEngine
