import Mathlib.Data.List.Forall2
import Mathlib.Data.List.Nodup
import Mathlib.Data.List.Perm.Subperm

/-! Lists with keys, lists without repetitions, and lists that were changed in one place or element
by element. -/
namespace RequestEngine

universe u v

section

variable {κ : Type u} {β : Type v} [BEq κ] [LawfulBEq κ] {key other : κ} {entries : List (κ × β)}

theorem lookup_eq_some_iff_mem {value : β} (h : (entries.map (·.1)).Nodup) :
    entries.lookup key = some value ↔ (key, value) ∈ entries := by
  rw [List.lookup_eq_some_iff]
  constructor
  · rintro ⟨before, after, rfl, -⟩
    simp
  · intro hmem
    obtain ⟨before, after, rfl⟩ := List.append_of_mem hmem
    refine ⟨before, after, rfl, fun e he => ?_⟩
    rw [List.map_append, List.nodup_append] at h
    have hne : e.1 ≠ key := h.2.2 e.1 (List.mem_map_of_mem he) key (by simp)
    exact bne_iff_ne.2 hne.symm

variable [DecidableEq κ]

theorem lookup_filter_ne (h : key ≠ other) (entries : List (κ × β)) :
    (entries.filter (·.1 ≠ other)).lookup key = entries.lookup key := by
  induction entries with
  | nil => rfl
  | cons e entries ih =>
    obtain ⟨k, value⟩ := e
    by_cases hk : k = other
    · have hkey : (key == k) = false := beq_eq_false_iff_ne.2 (hk ▸ h)
      rw [List.filter_cons_of_neg (by simpa using hk), List.lookup_cons, hkey, ih]
    · rw [List.filter_cons_of_pos (by simpa using hk), List.lookup_cons, List.lookup_cons, ih]

theorem lookup_filter_self (key : κ) (entries : List (κ × β)) :
    (entries.filter (·.1 ≠ key)).lookup key = none := by
  rw [List.lookup_eq_none_iff]
  intro e he
  have hne : e.1 ≠ key := of_decide_eq_true (List.mem_filter.1 he).2
  exact bne_iff_ne.2 hne.symm

theorem lookup_map_ne (h : key ≠ other) (value : β) (entries : List (κ × β)) :
    (entries.map fun e => if e.1 = other then (other, value) else e).lookup key =
      entries.lookup key := by
  induction entries with
  | nil => rfl
  | cons e entries ih =>
    obtain ⟨k, old⟩ := e
    by_cases hk : k = other
    · have hkey : (key == other) = false := beq_eq_false_iff_ne.2 h
      simp [hk, List.lookup_cons, hkey, ih]
    · simp [hk, List.lookup_cons, ih]

theorem lookup_map_self {old : β} (h : entries.lookup key = some old) (value : β) :
    (entries.map fun e => if e.1 = key then (key, value) else e).lookup key = some value := by
  induction entries with
  | nil => cases h
  | cons e entries ih =>
    obtain ⟨k, old'⟩ := e
    by_cases hk : k = key
    · simp [hk]
    · have hkey : (key == k) = false := beq_eq_false_iff_ne.2 (Ne.symm hk)
      rw [List.lookup_cons, hkey] at h
      simpa [hk, List.lookup_cons, hkey] using ih h

end

section

variable {α : Type u} {κ : Type v} [DecidableEq κ] {l : List α} {key : α → κ}

theorem find?_key_eq_some (hl : (l.map key).Nodup) {k : κ} {x : α} :
    l.find? (fun y => decide (key y = k)) = some x ↔ x ∈ l ∧ key x = k := by
  constructor
  · intro h
    exact ⟨List.mem_of_find?_eq_some h, by simpa using List.find?_some h⟩
  · rintro ⟨hx, rfl⟩
    have hsome : (l.find? fun y => decide (key y = key x)).isSome :=
      List.find?_isSome.2 ⟨x, hx, by simp⟩
    obtain ⟨y, hy⟩ := Option.isSome_iff_exists.1 hsome
    have hyx : y = x := List.inj_on_of_nodup_map hl (List.mem_of_find?_eq_some hy) hx
      (by simpa using List.find?_some hy)
    rw [hy, hyx]

/-- What a list of keys takes out of a list, in which each of them stands once, is as long as the
list of keys. -/
theorem length_filter_not_contains {keys : List κ} (hl : (l.map key).Nodup) (hkeys : keys.Nodup)
    (hmem : ∀ k ∈ keys, k ∈ l.map key) :
    (l.filter fun x => !keys.contains (key x)).length + keys.length = l.length := by
  have htaken : ((l.map key).filter keys.contains).Perm keys := by
    refine (List.perm_ext_iff_of_nodup (List.filter_sublist.nodup hl) hkeys).2 fun k => ?_
    rw [List.mem_filter, List.contains_iff_mem]
    exact ⟨fun h => h.2, fun h => ⟨hmem k h, h⟩⟩
  have hlength : (l.filter fun x => keys.contains (key x)).length = keys.length := by
    rw [← htaken.length_eq, List.filter_map, List.length_map]
    rfl
  have hsplit := List.length_eq_length_filter_add (l := l) fun x => keys.contains (key x)
  omega

end

theorem nodup_eraseDups {α : Type u} [DecidableEq α] : ∀ l : List α, l.eraseDups.Nodup
  | [] => List.nodup_nil
  | x :: l => by
    rw [List.eraseDups_cons]
    refine List.nodup_cons.2 ⟨fun hx => ?_, nodup_eraseDups _⟩
    simpa using (List.mem_filter.1 (List.mem_eraseDups.1 hx)).2
  termination_by l => l.length
  decreasing_by exact Nat.lt_succ_of_le (List.length_filter_le _ _)

theorem eraseDups_of_nodup {α : Type u} [DecidableEq α] {l : List α} (h : l.Nodup) :
    l.eraseDups = l := by
  induction l with
  | nil => rfl
  | cons x l ih =>
    obtain ⟨hnew, hrest⟩ := List.nodup_cons.1 h
    have hothers : l.filter (fun y => !y == x) = l := by
      refine List.filter_eq_self.2 fun y hy => ?_
      simpa using fun hyx : y = x => hnew (hyx ▸ hy)
    rw [List.eraseDups_cons, hothers, ih hrest]

theorem eq_filter_of_sublist {α : Type u} [DecidableEq α] {part whole : List α}
    (h : part.Sublist whole) (hn : whole.Nodup) : part = whole.filter (· ∈ part) := by
  have hpart : (part.filter (· ∈ part)).Sublist (whole.filter (· ∈ part)) := h.filter _
  rw [List.filter_eq_self.2 (by simp)] at hpart
  refine hpart.eq_of_length_le ((hn.filter _).subperm fun x hx => ?_).length_le
  simpa using (List.mem_filter.1 hx).2

/-- What stands before a member of the front part is in the front part. -/
theorem mem_front_of_sublist {α : Type u} {x y : α} {front back : List α}
    (h : [x, y].Sublist (front ++ back)) (hn : (front ++ back).Nodup) (hy : y ∈ front) :
    x ∈ front := by
  obtain ⟨l, l', hsplit, hl, hl'⟩ := List.sublist_append_iff.1 h
  cases l with
  | nil =>
    rw [List.nil_append] at hsplit
    rw [← hsplit] at hl'
    exact absurd rfl ((List.nodup_append.1 hn).2.2 y hy y (hl'.subset (by simp)))
  | cons z l =>
    obtain ⟨rfl, -⟩ := List.cons.inj hsplit
    exact hl.subset List.mem_cons_self

theorem filter_range (m n : Nat) : (List.range m).filter (· < n) = (List.range n).take m := by
  rw [List.take_range]
  induction m with
  | zero => simp
  | succ m ih =>
    rw [List.range_succ, List.filter_append, ih]
    by_cases h : m < n
    · rw [Nat.min_eq_left (Nat.le_of_lt h), Nat.min_eq_left h, List.range_succ]
      simp [h]
    · rw [Nat.min_eq_right (Nat.le_of_not_lt h), Nat.min_eq_right (by omega)]
      simp [h]

/-- The last elements of a list, backwards, are the same after earlier ones are gone. -/
theorem take_reverse_drop {α : Type u} (l : List α) (keep : Nat) :
    (l.drop (l.length - keep)).reverse.take keep = l.reverse.take keep := by
  rw [List.reverse_drop, List.take_take]
  by_cases h : keep ≤ l.length
  · rw [show min keep (l.length - (l.length - keep)) = keep by omega]
  · rw [List.take_of_length_le (by simp; omega), List.take_of_length_le (by simp; omega)]

theorem getLast?_filterMap_concat {α : Type u} {β : Type v} (f : α → Option β) (l : List α) (x : α)
    (d : β) :
    ((l ++ [x]).filterMap f).getLast?.getD d = (f x).getD ((l.filterMap f).getLast?.getD d) := by
  rw [List.filterMap_append]
  cases h : f x <;> simp [h]

/-- One element of a list has given its place to another. -/
def Swapped {α : Type u} (l l' : List α) (x x' : α) : Prop :=
  ∃ before after, l = before ++ x :: after ∧ l' = before ++ x' :: after

namespace Swapped

variable {α : Type u} {β : Type v} {l l' : List α} {x x' : α}

theorem mem (h : Swapped l l' x x') : x ∈ l := by
  obtain ⟨_, _, rfl, rfl⟩ := h
  simp

theorem mem_new (h : Swapped l l' x x') : x' ∈ l' := by
  obtain ⟨_, _, rfl, rfl⟩ := h
  simp

theorem map (h : Swapped l l' x x') (f : α → β) : Swapped (l.map f) (l'.map f) (f x) (f x') := by
  obtain ⟨before, after, rfl, rfl⟩ := h
  exact ⟨before.map f, after.map f, by simp, by simp⟩

theorem map_eq (h : Swapped l l' x x') {f : α → β} (hf : f x' = f x) : l'.map f = l.map f := by
  obtain ⟨_, _, rfl, rfl⟩ := h
  simp [hf]

theorem mem_iff (h : Swapped l l' x x') (hn : l.Nodup) (y : α) :
    y ∈ l' ↔ y = x' ∨ y ∈ l ∧ y ≠ x := by
  obtain ⟨before, after, rfl, rfl⟩ := h
  have hnot : x ∉ before ∧ x ∉ after := by
    have := (List.nodup_middle.1 hn)
    simpa using (List.nodup_cons.1 this).1
  constructor
  · intro hy
    obtain hy | rfl | hy : y ∈ before ∨ y = x' ∨ y ∈ after := by simpa using hy
    · exact .inr ⟨by simp [hy], fun he => hnot.1 (he ▸ hy)⟩
    · exact .inl rfl
    · exact .inr ⟨by simp [hy], fun he => hnot.2 (he ▸ hy)⟩
  · rintro (rfl | ⟨hy, hne⟩)
    · simp
    · obtain hy | hy : y ∈ before ∨ y ∈ after := by simpa [hne] using hy
      · simp [hy]
      · simp [hy]

theorem countP (h : Swapped l l' x x') (p : α → Bool) :
    l'.countP p + (if p x then 1 else 0) = l.countP p + (if p x' then 1 else 0) := by
  obtain ⟨_, _, rfl, rfl⟩ := h
  simp only [List.countP_append, List.countP_cons]
  omega

end Swapped

section

variable {α : Type u} {R : α → α → Prop} {l l' : List α} {x x' : α}

theorem Swapped.forall₂ (h : Swapped l l' x x') (hrefl : ∀ y, R y y) (hx : R x x') :
    List.Forall₂ R l l' := by
  obtain ⟨before, after, rfl, rfl⟩ := h
  have hsame : ∀ l : List α, List.Forall₂ R l l := fun l => List.forall₂_same.2 fun y _ => hrefl y
  apply List.rel_append (hsame before)
  exact .cons hx (hsame after)

theorem forall₂_comp {β γ : Type u} {R : α → β → Prop} {S : β → γ → Prop} {T : α → γ → Prop}
    {l' : List β} {l'' : List γ} (h : List.Forall₂ R l l') (h' : List.Forall₂ S l' l'')
    (hcomp : ∀ x y z, R x y → S y z → T x z) : List.Forall₂ T l l'' := by
  induction h generalizing l'' with
  | nil =>
    cases h'
    exact .nil
  | cons hxy _ ih =>
    cases h' with
    | cons hyz h' => exact .cons (hcomp _ _ _ hxy hyz) (ih h')

theorem exists_of_forall₂ (h : List.Forall₂ R l l') {y : α} (hy : y ∈ l') : ∃ x ∈ l, R x y := by
  induction h with
  | nil => cases hy
  | cons hxy _ ih =>
    obtain rfl | hy := List.mem_cons.1 hy
    · exact ⟨_, List.mem_cons_self, hxy⟩
    · obtain ⟨x, hx, hxy⟩ := ih hy
      exact ⟨x, List.mem_cons_of_mem _ hx, hxy⟩

theorem exists_of_forall₂_concat (h : List.Forall₂ R (l ++ [x]) l') :
    ∃ front y, l' = front ++ [y] ∧ List.Forall₂ R l front ∧ R x y := by
  induction l generalizing l' with
  | nil =>
    cases h with
    | cons hxy h =>
      cases h
      exact ⟨[], _, rfl, .nil, hxy⟩
  | cons z l ih =>
    cases h with
    | cons hz h =>
      obtain ⟨front, y, rfl, hfront, hxy⟩ := ih h
      exact ⟨_ :: front, y, rfl, .cons hz hfront, hxy⟩

end

end RequestEngine
