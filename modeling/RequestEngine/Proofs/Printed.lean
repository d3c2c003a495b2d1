import Mathlib.Data.List.Forall2
import RequestEngine.Proofs.Entries
import RequestEngine.Proofs.Scalars
import RequestEngine.Proofs.Values

/-! Printed values read back, in any layout and whatever follows. Lists and objects are read back by
any reader that reads back what they contain. -/
namespace RequestEngine

theorem Binary64.exists_chars_cons (x : Binary64) :
    ∃ c cs, x.chars = c :: cs ∧ (c = '-' ∨ c.isDigit) := by
  obtain ⟨d, ds, hds, hd⟩ := Decimal.exists_digits_cons x.shortest.digits
  rw [chars, withSign, hds]
  split
  · exact ⟨_, _, rfl, .inl rfl⟩
  split
  · exact ⟨_, _, rfl, .inr (by decide)⟩
  split
  · rw [positional]
    split
    · exact ⟨_, _, rfl, .inr (by decide)⟩
    split
    · exact ⟨_, _, rfl, .inr hd⟩
    · rename_i hwhole _
      obtain ⟨n, hn⟩ := Nat.exists_eq_succ_of_ne_zero fun h => hwhole (Int.toNat_eq_zero.1 h)
      exact ⟨d, ds.take n ++ '.' :: (d :: ds).drop (n + 1), by rw [hn]; rfl, .inr hd⟩
  · cases ds with
    | nil => exact ⟨_, _, rfl, .inr hd⟩
    | cons _ _ => exact ⟨_, _, rfl, .inr hd⟩

namespace Json

open Reader

variable {α σ : Type} {l : Layout} {v : Json} {a : α} {depth : Nat} {c : Char}
  {blanks s : List Char}

/-- A layout puts nothing but blanks between the tokens of a value. -/
structure Layout.Proper (l : Layout) : Prop where
  gap : ∀ depth, Blank (l.gap depth)
  colon : ∃ blanks, Blank blanks ∧ l.colon = ':' :: blanks

theorem Layout.proper_compact : Layout.compact.Proper where
  gap _ := blank_nil
  colon := ⟨[], blank_nil, rfl⟩

theorem Layout.proper_pretty : Layout.pretty.Proper where
  gap depth := by
    intro c hc
    rcases List.mem_cons.1 hc with rfl | hc
    · rfl
    · rw [List.eq_of_mem_replicate hc]
      rfl
  colon := ⟨[' '], fun c hc => by rw [List.mem_singleton.1 hc]; rfl, rfl⟩

/-- The first character of a printed value is neither blank nor the end of a list, and tells null
from other values. -/
theorem exists_print_cons (l : Layout) (depth : Nat) (v : Json) :
    ∃ c cs, print l depth v = c :: cs ∧ isBlank c = false ∧ c ≠ ']' ∧ (c = 'n' → v = .null) := by
  have hnumber : ∀ {cs' : List Char}, (∃ c cs, cs' = c :: cs ∧ (c = '-' ∨ c.isDigit)) →
      ∃ c cs, cs' = c :: cs ∧ isBlank c = false ∧ c ≠ ']' ∧ (c = 'n' → v = .null) := by
    rintro cs' ⟨c, cs, rfl, rfl | hc⟩
    · exact ⟨_, _, rfl, by decide, by decide, by simp⟩
    · have hblank : isBlank c = false := by
        simp [isBlank, ne_of_isDigit hc]
      exact ⟨c, cs, rfl, hblank, ne_of_isDigit hc rfl, fun h => absurd h (ne_of_isDigit hc rfl)⟩
  cases v with
  | null => exact ⟨_, _, rfl, by decide, by decide, fun _ => rfl⟩
  | bool b => cases b <;> exact ⟨_, _, rfl, by decide, by decide, by simp⟩
  | int n =>
    refine hnumber ?_
    cases n with
    | ofNat n =>
      obtain ⟨d, ds, hds, hd⟩ := Decimal.exists_digits_cons n
      exact ⟨d, ds, hds, .inr hd⟩
    | negSucc n => exact ⟨_, _, rfl, .inl rfl⟩
  | double x => exact hnumber x.exists_chars_cons
  | string s => exact ⟨_, _, rfl, by decide, by decide, by simp⟩
  | array items => cases items <;> exact ⟨_, _, rfl, by decide, by decide, by simp⟩
  | object members => cases members <;> exact ⟨_, _, rfl, by decide, by decide, by simp⟩

theorem stops_nil : Stops [] := by simp [Stops]

theorem stops_cons (hc : c.isDigit = false ∧ c ≠ '.' ∧ c ≠ 'e' ∧ c ≠ 'E') (s : List Char) :
    Stops (c :: s) := by simpa [Stops] using hc

theorem Stops.after (hs : Stops s) (hb : Blank blanks) : Stops (blanks ++ s) := by
  cases blanks with
  | nil => exact hs
  | cons c blanks =>
    refine stops_cons ?_ _
    have hc := hb c List.mem_cons_self
    simp only [isBlank, Bool.or_eq_true, beq_iff_eq] at hc
    rcases hc with ((rfl | rfl) | rfl) | rfl <;> decide

namespace Reader

/-- The reader makes a value of every print of a JSON value, after blanks and before what does not
go on with a number. -/
def Reads (r : Reader α) (v : Json) (a : α) : Prop :=
  ∀ l : Layout, l.Proper → ∀ depth blanks s, Blank blanks → Stops s →
    Takes r (blanks ++ (print l depth v ++ s)) a s

theorem Reads.takes {r : Reader α} (h : r.Reads v a) (hl : l.Proper) (depth : Nat)
    (hs : Stops s) : Takes r (print l depth v ++ s) a s :=
  h l hl depth [] s blank_nil hs

/-- The next token is the first character of the printed value. -/
theorem takes_peekToken?_print (l : Layout) (depth : Nat) (v : Json) (hb : Blank blanks)
    (s : List Char) : Takes peekToken? (blanks ++ (print l depth v ++ s))
      (print l depth v).head? (print l depth v ++ s) := by
  obtain ⟨c, cs, hprint, hblank, -⟩ := exists_print_cons l depth v
  rw [hprint]
  exact takes_peekToken? hb hblank (cs ++ s)

theorem takes_thenClose {body : Reader α} {close : Reader Unit} {s' s'' : List Char}
    (h : Takes body s a s') (hclose : Takes close s' () s'') :
    Takes (thenClose body close) s a s'' := by
  rw [Takes, thenClose, h]
  dsimp only
  rw [hclose]

theorem Takes.exists_of_thenClose {body : Reader α} {close : Reader Unit} {s'' : List Char}
    (h : Takes (thenClose body close) s a s'') : ∃ s', Takes body s a s' ∧ Takes close s' () s'' := by
  rw [Takes, thenClose] at h
  split at h
  · rename_i s' hbody
    split at h
    · rename_i hclose
      cases h
      exact ⟨s', hbody, hclose⟩
    · cases h
  · cases h

theorem takes_located {r : Reader α} {s' : List Char} (h : Takes r s a s') :
    Takes (located r) s a s' := by
  rw [Takes, located, h]

theorem takes_closeList (hb : Blank blanks) (s : List Char) :
    Takes closeList (blanks ++ ']' :: s) () s :=
  (takes_peekToken? hb (by decide) s).bind (takes_advance _ _)

theorem takes_anotherItem_end (hb : Blank blanks) (first : Bool) (s : List Char) :
    Takes (anotherItem first) (blanks ++ ']' :: s) false (']' :: s) :=
  (takes_peekToken? hb (by decide) s).bind (takes_pure _ _)

theorem takes_anotherItem_first (l : Layout) (depth : Nat) (v : Json) (hb : Blank blanks)
    (s : List Char) : Takes (anotherItem true) (blanks ++ (print l depth v ++ s)) true
      (print l depth v ++ s) := by
  obtain ⟨c, cs, hprint, -, hend, -⟩ := exists_print_cons l depth v
  refine (takes_peekToken?_print l depth v hb s).bind ?_
  rw [hprint]
  simp only [List.head?_cons, hend, if_false, if_true]
  exact takes_pure _ _

theorem takes_anotherItem_next (l : Layout) (depth : Nat) (v : Json) (hb : Blank blanks)
    (s : List Char) : Takes (anotherItem false) (',' :: (blanks ++ (print l depth v ++ s))) true
      (print l depth v ++ s) := by
  obtain ⟨c, cs, hprint, -, hend, -⟩ := exists_print_cons l depth v
  refine (takes_peekToken?_cons (by decide) _).bind ?_
  simp only [Char.reduceEq, if_false, if_true, Bool.false_eq_true]
  refine (takes_advance _ _).bind ((takes_peekToken?_print l depth v hb s).bind ?_)
  rw [hprint]
  simp only [List.head?_cons, hend, if_false]
  exact takes_pure _ _

theorem takes_readItems {item : Reader α} {items : List Json} {as : List α}
    (h : List.Forall₂ item.Reads items as) (hl : l.Proper) (depth : Nat) (hb : Blank blanks)
    (s : List Char) : ∀ room, items.length < room →
      Takes (readItems item room false) (printItems l depth items ++ (blanks ++ ']' :: s)) as
        (']' :: s) := by
  induction h with
  | nil =>
    rintro (_ | room) hroom
    · cases hroom
    · exact (takes_anotherItem_end hb false s).bind (takes_pure _ _)
  | @cons v a items as hv _ ih =>
    rintro (_ | room) hroom
    · cases hroom
    have hrest : Stops (printItems l depth items ++ (blanks ++ ']' :: s)) := by
      cases items with
      | nil => exact (stops_cons (by decide) s).after hb
      | cons v items => exact stops_cons (by decide) _
    rw [printItems]
    simp only [List.cons_append, List.append_assoc]
    refine (takes_anotherItem_next l depth v (hl.gap depth) _).bind ?_
    refine (hv.takes hl depth hrest).bind ?_
    exact (ih room (by simpa using hroom)).bind (takes_pure _ _)

theorem length_printItems (l : Layout) (depth : Nat) (items : List Json) :
    items.length ≤ (printItems l depth items).length := by
  induction items with
  | nil => exact Nat.le_refl _
  | cons v items ih =>
    rw [printItems]
    simp only [List.length_cons, List.length_append]
    omega

theorem takes_room (s : List Char) : Takes room s (s.length + 1) s :=
  (takes_get s).bind (takes_pure _ s)

theorem lt_room_array (l : Layout) (depth : Nat) (items : List Json) (s : List Char) :
    items.length < ((print l depth (.array items)).tail ++ s).length + 1 := by
  cases items with
  | nil => exact Nat.succ_pos _
  | cons v items =>
    have hlength := length_printItems l (depth + 1) items
    rw [print, List.tail_cons]
    simp only [List.length_append, List.length_cons]
    omega

theorem takes_list {item : Reader α} {items : List Json} {as : List α}
    (h : List.Forall₂ item.Reads items as) (hl : l.Proper) (depth : Nat) (s : List Char)
    {room : Nat} (hroom : items.length < room) :
    Takes (thenClose (readItems item room true) closeList)
      ((print l depth (.array items)).tail ++ s) as s := by
  have hclose : Takes closeList (']' :: s) () s := takes_closeList blank_nil s
  refine takes_thenClose ?_ hclose
  obtain ⟨room, rfl⟩ := Nat.exists_eq_add_of_lt (Nat.zero_lt_of_lt hroom)
  rw [Nat.zero_add] at hroom ⊢
  cases h with
  | nil => exact (takes_anotherItem_end blank_nil true s).bind (takes_pure _ _)
  | @cons v a items as hv hitems =>
    have hrest : Stops (printItems l (depth + 1) items ++ (l.gap depth ++ ']' :: s)) := by
      cases items with
      | nil => exact (stops_cons (by decide) s).after (hl.gap depth)
      | cons v items => exact stops_cons (by decide) _
    rw [print, List.tail_cons]
    simp only [List.append_assoc, List.cons_append, List.nil_append]
    refine (takes_anotherItem_first l (depth + 1) v (hl.gap _) _).bind ?_
    refine (hv.takes hl (depth + 1) hrest).bind ?_
    exact (takes_readItems hitems hl (depth + 1) (hl.gap depth) s room
      (by simpa using hroom)).bind (takes_pure _ _)

theorem takes_closeObject (hb : Blank blanks) (s : List Char) :
    Takes closeObject (blanks ++ '}' :: s) () s :=
  (takes_peekToken? hb (by decide) s).bind (takes_advance _ _)

theorem takes_anotherKey_end (hb : Blank blanks) (first : Bool) (s : List Char) :
    Takes (anotherKey first) (blanks ++ '}' :: s) false ('}' :: s) :=
  (takes_peekToken? hb (by decide) s).bind (takes_pure _ _)

theorem takes_anotherKey_first (hb : Blank blanks) (s : List Char) :
    Takes (anotherKey true) (blanks ++ '"' :: s) true ('"' :: s) := by
  refine (takes_peekToken? hb (by decide) s).bind ?_
  simp only [Char.reduceEq, if_false, if_true]
  exact (takes_pure _ _).bind (takes_pure _ _)

theorem takes_anotherKey_next (hb : Blank blanks) (s : List Char) :
    Takes (anotherKey false) (',' :: (blanks ++ '"' :: s)) true ('"' :: s) := by
  refine (takes_peekToken?_cons (by decide) _).bind ?_
  simp only [Char.reduceEq, if_false, if_true, Bool.false_eq_true]
  refine (takes_advance _ _).bind ?_
  exact (takes_peekToken? hb (by decide) s).bind (takes_pure _ _)

theorem takes_readColon (hl : l.Proper) :
    ∃ blanks, Blank blanks ∧ ∀ s, Takes readColon (l.colon ++ s) () (blanks ++ s) := by
  obtain ⟨blanks, hb, hcolon⟩ := hl.colon
  refine ⟨blanks, hb, fun s => ?_⟩
  rw [hcolon]
  exact (takes_peekToken?_cons (by decide) _).bind (takes_advance _ _)

/-- The reader of members adds the member to what was collected before. -/
def Adds (member : String → σ → Reader σ) (key : String) (v : Json) (acc acc' : σ) : Prop :=
  ∀ l : Layout, l.Proper → ∀ depth s, Stops s →
    Takes (member key acc) (l.colon ++ (print l depth v ++ s)) acc' s

/-- The reader of members collects them one after the other. -/
inductive Collects (member : String → σ → Reader σ) : σ → List (String × Json) → σ → Prop
  | nil {acc : σ} : Collects member acc [] acc
  | cons {acc acc' acc'' : σ} {key : String} {v : Json} {members : List (String × Json)}
      (h : Adds member key v acc acc') (hmembers : Collects member acc' members acc'') :
      Collects member acc ((key, v) :: members) acc''

/-- A key with its value, and the rest of the members. -/
theorem takes_key {member : String → σ → Reader σ} {key : String} {acc acc' acc'' : σ}
    (h : Adds member key v acc acc') (hl : l.Proper) (depth : Nat) {s' : List Char} {room : Nat}
    (hs : Stops s) (hrest : Takes (readMembers member room false acc') s acc'' s') :
    Takes (do
        advance
        let key ← readString
        readMembers member room false (← member key acc))
      (quoted key ++ (l.colon ++ (print l depth v ++ s))) acc'' s' := by
  rw [quoted]
  simp only [List.append_assoc, List.cons_append, List.nil_append]
  refine (takes_advance _ _).bind ?_
  exact (takes_readString key _).bind ((h l hl depth s hs).bind hrest)

theorem takes_readMembers {member : String → σ → Reader σ} {members : List (String × Json)}
    {acc acc' : σ} (h : Collects member acc members acc') (hl : l.Proper) (depth : Nat)
    (hb : Blank blanks) (s : List Char) : ∀ room, members.length < room →
      Takes (readMembers member room false acc)
        (printMembers l depth members ++ (blanks ++ '}' :: s)) acc' ('}' :: s) := by
  induction h with
  | nil =>
    rintro (_ | room) hroom
    · cases hroom
    · exact (takes_anotherKey_end hb false s).bind (takes_pure _ _)
  | @cons acc acc' acc'' key v members h _ ih =>
    rintro (_ | room) hroom
    · cases hroom
    have hrest : Stops (printMembers l depth members ++ (blanks ++ '}' :: s)) := by
      cases members with
      | nil => exact (stops_cons (by decide) s).after hb
      | cons m members => exact stops_cons (by decide) _
    rw [printMembers]
    simp only [List.cons_append, List.append_assoc]
    refine (takes_anotherKey_next (hl.gap depth) _).bind ?_
    exact takes_key h hl depth hrest (ih room (by simpa using hroom))

theorem length_printMembers (l : Layout) (depth : Nat) (members : List (String × Json)) :
    members.length ≤ (printMembers l depth members).length := by
  induction members with
  | nil => exact Nat.le_refl _
  | cons m members ih =>
    rw [printMembers]
    simp only [List.length_cons, List.length_append]
    omega

theorem lt_room_object (l : Layout) (depth : Nat) (members : List (String × Json))
    (s : List Char) :
    members.length < ((print l depth (.object members)).tail ++ s).length + 1 := by
  cases members with
  | nil => exact Nat.succ_pos _
  | cons m members =>
    have hlength := length_printMembers l (depth + 1) members
    rw [print, List.tail_cons]
    simp only [List.length_append, List.length_cons]
    omega

theorem takes_object {member : String → σ → Reader σ} {members : List (String × Json)}
    {acc acc' : σ} (h : Collects member acc members acc') (hl : l.Proper) (depth : Nat)
    (s : List Char) {room : Nat} (hroom : members.length < room) :
    Takes (thenClose (readMembers member room true acc) closeObject)
      ((print l depth (.object members)).tail ++ s) acc' s := by
  have hclose : Takes closeObject ('}' :: s) () s := takes_closeObject blank_nil s
  refine takes_thenClose ?_ hclose
  obtain ⟨room, rfl⟩ := Nat.exists_eq_add_of_lt (Nat.zero_lt_of_lt hroom)
  rw [Nat.zero_add] at hroom ⊢
  cases h with
  | nil => exact (takes_anotherKey_end blank_nil true s).bind (takes_pure _ _)
  | @cons _ _ _ key v members h hmembers =>
    have hrest : Stops (printMembers l (depth + 1) members ++ (l.gap depth ++ '}' :: s)) := by
      cases members with
      | nil => exact (stops_cons (by decide) s).after (hl.gap depth)
      | cons m members => exact stops_cons (by decide) _
    rw [print, List.tail_cons]
    simp only [List.append_assoc, List.cons_append, List.nil_append]
    refine (takes_anotherKey_first (hl.gap _) _).bind ?_
    refine takes_key h hl (depth + 1) hrest ?_
    exact takes_readMembers hmembers hl (depth + 1) (hl.gap depth) s room (by simpa using hroom)

variable {list object : Reader Json}

theorem reads_null : (readByKind list object).Reads .null .null := by
  intro l _ depth blanks s hb _
  exact (takes_peekToken? hb (by decide) _).bind
    ((takes_advance _ _).bind ((takes_literal _ s).bind (takes_pure _ _)))

theorem reads_bool (b : Bool) : (readByKind list object).Reads (.bool b) (.bool b) := by
  intro l _ depth blanks s hb _
  cases b <;> exact (takes_peekToken? hb (by decide) _).bind
    ((takes_advance _ _).bind ((takes_literal _ s).bind (takes_pure _ _)))

theorem reads_string (text : String) :
    (readByKind list object).Reads (.string text) (.string text) := by
  intro l _ depth blanks s hb _
  rw [print, quoted]
  simp only [List.append_assoc, List.cons_append, List.nil_append]
  exact (takes_peekToken? hb (by decide) _).bind
    ((takes_advance _ _).bind ((takes_readString text s).bind (takes_pure _ _)))

theorem reads_nat {n : Nat} (hn : n < UInt64.size) :
    (readByKind list object).Reads (.int n) (.int n) := by
  intro l _ depth blanks s hb hs
  obtain ⟨c, cs, hcs, hc⟩ := Decimal.exists_digits_cons n
  have hprint : print l depth (.int n) = Decimal.digits n := rfl
  refine (takes_peekToken?_print l depth (.int n) hb s).bind ?_
  rw [hprint]
  have hnumber := takes_readNumber hn hs false
  rw [hcs] at hnumber ⊢
  dsimp only [List.head?_cons]
  split
  any_goals exact absurd rfl (ne_of_isDigit hc rfl)
  rw [if_pos hc]
  exact hnumber

theorem reads_negSucc {n : Nat} (hn : n < UInt64.size / 2) :
    (readByKind list object).Reads (.int (.negSucc n)) (.int (.negSucc n)) := by
  intro l _ depth blanks s hb hs
  have hvalue : integerValue true (n + 1) = .int (.negSucc n) := by
    have hrange : ¬ (n + 1 = 0 ∨ UInt64.size / 2 < n + 1) := by omega
    rw [integerValue, if_neg (by decide), if_neg hrange, Int.negSucc_eq]
    rfl
  have hsize : n + 1 < UInt64.size := by omega
  refine (takes_peekToken? hb (by decide) _).bind ((takes_advance _ _).bind ?_)
  rw [← hvalue]
  exact takes_readNumber hsize hs true

theorem reads_int {n : Int} (hn : (int n).Integral) :
    (readByKind list object).Reads (.int n) (.int n) := by
  rw [integral_int] at hn
  cases n with
  | ofNat n =>
    rw [Int.ofNat_eq_natCast] at hn ⊢
    exact reads_nat (by simp only [UInt64.size]; omega)
  | negSucc n => exact reads_negSucc (by simp only [UInt64.size]; omega)

theorem print_array_eq (l : Layout) (depth : Nat) (items : List Json) :
    print l depth (.array items) = '[' :: (print l depth (.array items)).tail := by
  cases items <;> rfl

theorem print_object_eq (l : Layout) (depth : Nat) (members : List (String × Json)) :
    print l depth (.object members) = '{' :: (print l depth (.object members)).tail := by
  cases members <;> rfl

/-- Members are added one after the other, each value as it is read. -/
theorem collects_foldl {item : Reader α} (add : σ → String → α → σ)
    {members : List (String × Json)} {entries : List (String × α)}
    (h : List.Forall₂ (fun m e => m.1 = e.1 ∧ item.Reads m.2 e.2) members entries) (acc : σ) :
    Collects (fun key acc => do
        readColon
        return add acc key (← item))
      acc members (entries.foldl (fun acc e => add acc e.1 e.2) acc) := by
  induction h generalizing acc with
  | nil => exact .nil
  | @cons m e members entries hm _ ih =>
    obtain ⟨hkey, hvalue⟩ := hm
    refine .cons (fun l hl depth s hs => ?_) (ih _)
    obtain ⟨blanks, hb, hcolon⟩ := takes_readColon hl
    rw [hkey]
    exact (hcolon _).bind ((hvalue l hl depth blanks s hb hs).bind (takes_pure _ _))

/-- A value within the depth is read back if its numbers are integers and its members in order. -/
theorem reads_readAny (v : Json) : v.Integral → v.Ordered → ∀ depth, v.nesting ≤ depth →
    (readAny depth).Reads v v := by
  induction v using Json.induction with
  | null => rintro - - (_ | depth) - <;> exact reads_null
  | bool b => rintro - - (_ | depth) - <;> exact reads_bool b
  | int n => rintro hn - (_ | depth) - <;> exact reads_int hn
  | double x => exact fun hx => absurd hx (not_integral_double x)
  | string text => rintro - - (_ | depth) - <;> exact reads_string text
  | array items ih =>
    rintro hint hord (_ | depth) hdepth
    · exact absurd hdepth not_nesting_array_le
    rw [integral_array] at hint
    rw [ordered_array] at hord
    rw [nesting_array_le] at hdepth
    have hitems : List.Forall₂ (readAny depth).Reads items items :=
      List.forall₂_same.2 fun v hv => ih v hv (hint v hv) (hord v hv) depth (hdepth v hv)
    intro l hl k blanks s hb hs
    rw [print_array_eq, List.cons_append]
    refine (takes_peekToken? hb (by decide) _).bind ((takes_advance _ _).bind ?_)
    refine (takes_room _).bind ?_
    exact (takes_list hitems hl k s (lt_room_array l k items s)).bind (takes_pure _ _)
  | object members ih =>
    rintro hint hord (_ | depth) hdepth
    · exact absurd hdepth not_nesting_object_le
    rw [integral_object] at hint
    rw [ordered_object] at hord
    rw [nesting_object_le] at hdepth
    have hmembers : List.Forall₂ (fun m e => m.1 = e.1 ∧ (readAny depth).Reads m.2 e.2) members
        members :=
      List.forall₂_same.2 fun m hm => ⟨rfl, ih m hm (hint m hm) (hord.2 m hm) depth (hdepth m hm)⟩
    have hcollects := collects_foldl (fun acc key v => Entries.insert key v acc) hmembers []
    have hsame : Entries.ofList members = members := Entries.ofList_eq_of_perm hord.1 (.refl _)
    rw [← Entries.ofList, hsame] at hcollects
    intro l hl k blanks s hb hs
    rw [print_object_eq, List.cons_append]
    refine (takes_peekToken? hb (by decide) _).bind ((takes_advance _ _).bind ?_)
    refine (takes_room _).bind ?_
    exact (takes_object hcollects hl k s (lt_room_object l k members s)).bind (takes_pure _ _)

end Reader

end Json

end RequestEngine
