/-!
Entries kept in strictly increasing order of their keys, so that a key has at most one entry and
two dictionaries with the same entries are equal.
-/
namespace RequestEngine

universe u v

namespace Entries

variable {α : Type u} {β : Type v}

/-- Put a value under a key, in place of the value that was there. -/
def insert (key : String) (value : α) : List (String × α) → List (String × α)
  | [] => [(key, value)]
  | (k, v) :: rest =>
    if key < k then (key, value) :: (k, v) :: rest
    else if key = k then (key, value) :: rest
    else (k, v) :: insert key value rest

def find? (key : String) : List (String × α) → Option α
  | [] => none
  | (k, v) :: rest => if key = k then some v else find? key rest

/-- Entries in any order, of several under one key the last. -/
def ofList (entries : List (String × α)) : List (String × α) :=
  entries.foldl (fun acc e => insert e.1 e.2 acc) []

abbrev Sorted (entries : List (String × α)) : Prop :=
  entries.Pairwise (fun a b => a.1 < b.1)

theorem key_mem_insert {key k : String} {value : α} {entries : List (String × α)} {v : α}
    (h : (k, v) ∈ insert key value entries) : k = key ∨ (k, v) ∈ entries := by
  induction entries with
  | nil => simp_all [insert]
  | cons e rest ih =>
    obtain ⟨k', v'⟩ := e
    simp only [insert] at h
    split at h
    · exact (List.mem_cons.1 h).imp (congrArg Prod.fst) id
    · split at h
      · exact (List.mem_cons.1 h).imp (congrArg Prod.fst) (List.mem_cons_of_mem _)
      · rcases List.mem_cons.1 h with h | h
        · exact .inr (h ▸ List.mem_cons_self)
        · exact (ih h).imp id (List.mem_cons_of_mem _)

theorem sorted_insert {key : String} {value : α} {entries : List (String × α)}
    (h : Sorted entries) : Sorted (insert key value entries) := by
  induction entries with
  | nil => simp [insert, Sorted]
  | cons e rest ih =>
    obtain ⟨k, v⟩ := e
    have hrest : Sorted rest := List.Pairwise.of_cons h
    have hk : ∀ e ∈ rest, k < e.1 := fun e he => List.rel_of_pairwise_cons h he
    simp only [insert]
    split
    · rename_i hlt
      refine List.Pairwise.cons (fun e he => ?_) h
      rcases List.mem_cons.1 he with rfl | he
      · exact hlt
      · exact String.lt_trans hlt (hk e he)
    · rename_i hnlt
      split
      · rename_i heq
        subst heq
        exact List.Pairwise.cons hk hrest
      · rename_i hne
        refine List.Pairwise.cons (fun e he => ?_) (ih hrest)
        rcases key_mem_insert (k := e.1) (v := e.2) he with hke | he
        · rw [hke]
          refine String.not_le.1 fun hle => hne (String.le_antisymm hle (String.not_lt.1 hnlt))
        · exact hk _ he

theorem sorted_ofList (entries : List (String × α)) : Sorted (ofList entries) := by
  have key : ∀ (l acc : List (String × α)), Sorted acc →
      Sorted (l.foldl (fun acc e => insert e.1 e.2 acc) acc) := by
    intro l
    induction l with
    | nil => exact fun _ h => h
    | cons e l ih => exact fun acc h => ih _ (sorted_insert h)
  exact key entries [] List.Pairwise.nil

theorem find?_insert (key k : String) (value : α) (entries : List (String × α)) :
    find? k (insert key value entries) = if k = key then some value else find? k entries := by
  induction entries with
  | nil => simp [insert, find?]
  | cons e rest ih =>
    obtain ⟨k', v'⟩ := e
    simp only [insert]
    split
    · simp only [find?]
    · split
      · rename_i heq; subst heq
        simp only [find?]
        split <;> simp_all
      · rename_i hne
        simp only [find?, ih]
        by_cases hk : k = k'
        · subst hk; simp [Ne.symm hne]
        · simp [hk]

end Entries

/-- A finite map from text, its entries in order of their keys. -/
structure Dictionary (α : Type u) where
  entries : List (String × α)
  sorted : Entries.Sorted entries

namespace Dictionary

variable {α : Type u} {β : Type v}

@[ext] theorem ext {a b : Dictionary α} (h : a.entries = b.entries) : a = b := by
  cases a; cases b; simp_all

instance [DecidableEq α] : DecidableEq (Dictionary α) := fun a b =>
  decidable_of_iff (a.entries = b.entries) ⟨ext, fun h => h ▸ rfl⟩

def empty : Dictionary α := ⟨[], .nil⟩

instance : Inhabited (Dictionary α) := ⟨empty⟩

def insert (d : Dictionary α) (key : String) (value : α) : Dictionary α :=
  ⟨Entries.insert key value d.entries, Entries.sorted_insert d.sorted⟩

def get? (d : Dictionary α) (key : String) : Option α := Entries.find? key d.entries

def ofList (entries : List (String × α)) : Dictionary α :=
  ⟨Entries.ofList entries, Entries.sorted_ofList entries⟩

def keys (d : Dictionary α) : List String := d.entries.map (·.1)

def size (d : Dictionary α) : Nat := d.entries.length

def isEmpty (d : Dictionary α) : Bool := d.entries.isEmpty

@[simp] theorem get?_empty (k : String) : (empty : Dictionary α).get? k = none := rfl

@[simp] theorem get?_insert (d : Dictionary α) (key k : String) (value : α) :
    (d.insert key value).get? k = if k = key then some value else d.get? k :=
  Entries.find?_insert ..

end Dictionary

end RequestEngine
