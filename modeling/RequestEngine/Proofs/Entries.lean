import Mathlib.Data.List.Perm.Basic
import RequestEngine.Dictionary

/-! Ordered entries have no other order, so whatever order they are put in, they come out the same.
-/
namespace RequestEngine

universe u

namespace Entries

variable {α : Type u} {key : String} {value : α} {entries l : List (String × α)}

theorem Sorted.nodup_keys (h : Sorted entries) : (entries.map (·.1)).Nodup :=
  List.pairwise_map.2 (h.imp fun hlt => String.ne_of_lt hlt)

theorem Sorted.eq_of_perm (h : Sorted entries) (hl : Sorted l) (hp : l.Perm entries) :
    l = entries :=
  hp.eq_of_pairwise (fun _ _ _ _ hlt hgt => absurd hgt (String.lt_asymm hlt)) hl h

theorem perm_insert (h : key ∉ entries.map (·.1)) :
    (insert key value entries).Perm ((key, value) :: entries) := by
  induction entries with
  | nil => exact .refl _
  | cons e rest ih =>
    obtain ⟨k, v⟩ := e
    rw [List.map_cons, List.mem_cons, not_or] at h
    obtain ⟨hne, hrest⟩ := h
    have hne' : key ≠ k := hne
    rw [insert, if_neg hne']
    split
    · exact .refl _
    · exact ((ih hrest).cons _).trans (.swap ..)

theorem perm_foldl_insert (h : ((entries ++ l).map (·.1)).Nodup) :
    (l.foldl (fun acc e => insert e.1 e.2 acc) entries).Perm (entries ++ l) := by
  induction l generalizing entries with
  | nil => simp
  | cons e l ih =>
    have hmoved : (entries ++ e :: l).Perm ((e :: entries) ++ l) := List.perm_middle
    have hkey : e.1 ∉ entries.map (·.1) := by
      have hnodup := (hmoved.map (·.1)).nodup_iff.1 h
      rw [List.cons_append, List.map_cons, List.nodup_cons, List.map_append] at hnodup
      exact fun hmem => hnodup.1 (List.mem_append_left _ hmem)
    have hinsert : (insert e.1 e.2 entries ++ l).Perm (entries ++ e :: l) :=
      ((perm_insert hkey).append_right l).trans hmoved.symm
    exact (ih ((hinsert.map (·.1)).nodup_iff.2 h)).trans hinsert

/-- Entries with distinct keys come into their order from any other. -/
theorem ofList_eq_of_perm (h : Sorted entries) (hp : l.Perm entries) : ofList l = entries := by
  have hnodup : (l.map (·.1)).Nodup := (hp.map (·.1)).nodup_iff.2 h.nodup_keys
  have hkept : (ofList l).Perm ([] ++ l) := perm_foldl_insert hnodup
  exact h.eq_of_perm (sorted_ofList l) (hkept.trans hp)

theorem find?_eq_some_iff (h : Sorted entries) :
    find? key entries = some value ↔ (key, value) ∈ entries := by
  induction entries with
  | nil => simp [find?]
  | cons e rest ih =>
    obtain ⟨k, v⟩ := e
    rw [find?, List.mem_cons, Prod.mk.injEq]
    split
    · rename_i heq
      subst heq
      have hnot : (key, value) ∉ rest := by
        intro hmem
        have hlt : key < key := List.rel_of_pairwise_cons h hmem
        exact String.lt_irrefl _ hlt
      simp [hnot, eq_comm]
    · rename_i hne
      simp [hne, ih h.of_cons]

end Entries

namespace Dictionary

variable {α : Type u} {d : Dictionary α} {key : String} {value : α} {l : List (String × α)}

theorem get?_eq_some_iff : d.get? key = some value ↔ (key, value) ∈ d.entries :=
  Entries.find?_eq_some_iff d.sorted

theorem foldl_insert_of_perm (h : l.Perm d.entries) :
    l.foldl (fun acc e => acc.insert e.1 e.2) .empty = d := by
  have hentries : ∀ (l : List (String × α)) (acc : Dictionary α),
      (l.foldl (fun acc e => acc.insert e.1 e.2) acc).entries =
        l.foldl (fun acc e => Entries.insert e.1 e.2 acc) acc.entries := by
    intro l
    induction l with
    | nil => exact fun acc => rfl
    | cons e l ih => exact fun acc => ih _
  exact ext ((hentries l .empty).trans (Entries.ofList_eq_of_perm d.sorted h))

end Dictionary

end RequestEngine
