import RequestEngine.Proofs.Bytes
import RequestEngine.Uuid

/-! Every spelling of an identifier reads back as that identifier. -/
namespace RequestEngine

namespace Hexadecimal

theorem ofDigits?_append_digit (cs : List Char) (c : Char) :
    ofDigits? (cs ++ [c]) = (ofDigits? cs).bind fun n => (digit? c).map (16 * n + ·) := by
  simp [ofDigits?, List.foldlM_append]

@[simp] theorem length_lastDigits (upper : Bool) (width n : Nat) :
    (lastDigits upper width n).length = width := by
  induction width generalizing n with
  | zero => rfl
  | succ width ih => simp [lastDigits, ih]

/-- Digits of a fixed width keep the number up to multiples of the power they reach. -/
theorem ofDigits?_lastDigits (upper : Bool) (width n : Nat) :
    ofDigits? (lastDigits upper width n) = some (n % Nat.pow 16 width) := by
  induction width generalizing n with
  | zero => simp [lastDigits, ofDigits?, Nat.mod_one]
  | succ width ih =>
    have hdigit : digit? (digitChar upper (n % 16)) = some (n % 16) :=
      digit?_digitChar upper _ (Nat.mod_lt _ (by decide))
    have hpow : Nat.pow 16 (width + 1) = 16 * Nat.pow 16 width := Nat.mul_comm ..
    rw [lastDigits, ofDigits?_append_digit, ih, Option.bind_some, hdigit, Option.map_some, hpow,
      Nat.mod_mul, Nat.add_comm]

theorem utf8Size_digitChar : ∀ upper, ∀ d, d < 16 → (digitChar upper d).utf8Size = 1 := by decide

theorem utf8Size_of_mem_lastDigits {upper : Bool} {width n : Nat} {c : Char}
    (h : c ∈ lastDigits upper width n) : c.utf8Size = 1 := by
  induction width generalizing n with
  | zero => cases h
  | succ width ih =>
    rcases List.mem_append.1 h with h | h
    · exact ih h
    · rw [List.mem_singleton.1 h]
      exact utf8Size_digitChar upper _ (Nat.mod_lt _ (by decide))

end Hexadecimal

namespace Uuid

open Hexadecimal (lastDigits)

variable {ds : List Char}

theorem ofSimple?_digits (u : Uuid) (upper : Bool) : ofSimple? (u.digits upper) = some u := by
  have hmod : u.value % Nat.pow 16 32 = u.value := Nat.mod_eq_of_lt u.bound
  rw [ofSimple?, digits, Hexadecimal.ofDigits?_lastDigits, hmod, Option.map_some, Option.some.injEq]
  exact Uuid.ext (Nat.mod_eq_of_lt u.bound)

@[simp] theorem length_digits (u : Uuid) (upper : Bool) : (u.digits upper).length = 32 :=
  Hexadecimal.length_lastDigits ..

theorem exists_groups (h : ds.length = 32) : ∃ a b c d e, ds = a ++ (b ++ (c ++ (d ++ e))) ∧
    a.length = 8 ∧ b.length = 4 ∧ c.length = 4 ∧ d.length = 4 ∧ e.length = 12 := by
  refine ⟨ds.take 8, (ds.drop 8).take 4, (ds.drop 12).take 4, (ds.drop 16).take 4, ds.drop 20, ?_,
    by simp [h], by simp [h], by simp [h], by simp [h], by simp [h]⟩
  have step : ∀ m n, ds.drop m = (ds.drop m).take n ++ ds.drop (m + n) := by
    intro m n
    rw [← List.drop_drop, List.take_append_drop]
  rw [← step 16 4, ← step 12 4, ← step 8 4, List.take_append_drop]

theorem group_eq {a b c d e : List Char} (ha : a.length = 8) (hb : b.length = 4)
    (hc : c.length = 4) (hd : d.length = 4) :
    group (a ++ (b ++ (c ++ (d ++ e)))) =
      a ++ '-' :: (b ++ '-' :: (c ++ '-' :: (d ++ '-' :: e))) := by
  simp [group, List.drop_append, List.drop_eq_nil_of_le, ha, hb, hc, hd]

/-- Taking the hyphens out undoes putting them in. -/
theorem ofHyphenated?_group (h : ds.length = 32) : ofHyphenated? (group ds) = ofSimple? ds := by
  obtain ⟨a, b, c, d, e, rfl, ha, hb, hc, hd, -⟩ := exists_groups h
  rw [group_eq ha hb hc hd, ofHyphenated?, if_pos (by simp [List.getElem?_append, ha, hb, hc, hd])]
  congr 1
  simp [List.drop_append, List.drop_eq_nil_of_le, ha, hb, hc, hd]

theorem length_group (h : ds.length = 32) : (group ds).length = 36 := by
  obtain ⟨a, b, c, d, e, rfl, ha, hb, hc, hd, he⟩ := exists_groups h
  simp [group_eq ha hb hc hd, ha, hb, hc, hd, he]

theorem byteCount_digits (u : Uuid) (upper : Bool) : Text.byteCount (u.digits upper) = 32 := by
  rw [Text.byteCount_eq_length, length_digits]
  exact fun c hc => Hexadecimal.utf8Size_of_mem_lastDigits hc

theorem mem_group {c : Char} (h : c ∈ group ds) : c ∈ ds ∨ c = '-' := by
  simp only [group, List.mem_append, List.mem_cons] at h
  rcases h with (((h | rfl | h) | rfl | h) | rfl | h) | rfl | h
  · exact .inl (List.mem_of_mem_take h)
  · exact .inr rfl
  · exact .inl (List.mem_of_mem_drop (List.mem_of_mem_take h))
  · exact .inr rfl
  · exact .inl (List.mem_of_mem_drop (List.mem_of_mem_take h))
  · exact .inr rfl
  · exact .inl (List.mem_of_mem_drop (List.mem_of_mem_take h))
  · exact .inr rfl
  · exact .inl (List.mem_of_mem_drop h)

theorem byteCount_group (u : Uuid) (upper : Bool) :
    Text.byteCount (group (u.digits upper)) = 36 := by
  rw [Text.byteCount_eq_length, length_group (u.length_digits upper)]
  intro c hc
  obtain hmem | rfl := mem_group hc
  · exact Hexadecimal.utf8Size_of_mem_lastDigits hmem
  · decide

theorem ofHyphenated?_group_digits (u : Uuid) (upper : Bool) :
    ofHyphenated? (group (u.digits upper)) = some u := by
  rw [ofHyphenated?_group (u.length_digits upper), ofSimple?_digits]

theorem parseChars_spell (u : Uuid) (s : Spelling) : parseChars (u.spell s) = .ok u := by
  have hgroup (upper : Bool) : parseChars (group (u.digits upper)) = .ok u := by
    simp [parseChars, byteCount_group, ofHyphenated?_group_digits]
  cases s with
  | hyphenated => exact hgroup false
  | upper => exact hgroup true
  | simple => simp [parseChars, spell, byteCount_digits, ofSimple?_digits]
  | braced =>
    have hbytes : Text.byteCount (u.spell .braced) = 38 := by
      simp [spell, Text.byteCount, byteCount_group]
      rfl
    have hlast : (u.spell .braced).getLast? = some '}' := by
      rw [spell, ← List.cons_append, List.getLast?_concat]
    simp [parseChars, hbytes, hlast]
    simp [spell, ofHyphenated?_group_digits]
  | urn =>
    have hbytes : Text.byteCount (u.spell .urn) = 45 := by
      simp [spell, byteCount_group]
      rfl
    simp [parseChars, hbytes]
    simp [spell, urnMark, ofHyphenated?_group_digits]

/-- An identifier reads back from each of its spellings. -/
theorem parse_spell (u : Uuid) (s : Spelling) : parse (String.ofList (u.spell s)) = .ok u := by
  rw [parse, String.toList_ofList, parseChars_spell]

theorem parse?_spell (u : Uuid) (s : Spelling) : parse? (String.ofList (u.spell s)) = some u := by
  rw [parse?, parse_spell]
  rfl

end Uuid

end RequestEngine
