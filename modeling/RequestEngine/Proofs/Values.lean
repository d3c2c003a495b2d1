import Mathlib.Data.List.Basic
import RequestEngine.Json.Basic

/-! JSON values and their parts: how deep a value is nested, and what holds of all its parts. -/
namespace RequestEngine

namespace Json

variable {p : Json → Prop} {v : Json} {items : List Json} {members : List (String × Json)} {d : Nat}

/-- What holds of scalars, and of containers if it holds of what they contain, holds of all values.
-/
@[elab_as_elim]
theorem induction {motive : Json → Prop} (null : motive .null) (bool : ∀ b, motive (.bool b))
    (int : ∀ n, motive (.int n)) (double : ∀ x, motive (.double x))
    (string : ∀ s, motive (.string s))
    (array : ∀ items, (∀ v ∈ items, motive v) → motive (.array items))
    (object : ∀ members, (∀ m ∈ members, motive m.2) → motive (.object members)) :
    ∀ v, motive v := by
  refine @Json.rec motive (fun items => ∀ v ∈ items, motive v)
    (fun members => ∀ m ∈ members, motive m.2) (fun m => motive m.2)
    null bool int double string array object ?_ ?_ ?_ ?_ ?_
  · exact fun v hv => absurd hv List.not_mem_nil
  · exact fun _ _ hv hvs => List.forall_mem_cons.2 ⟨hv, hvs⟩
  · exact fun m hm => absurd hm List.not_mem_nil
  · exact fun _ _ hm hms => List.forall_mem_cons.2 ⟨hm, hms⟩
  · exact fun _ _ hv => hv

mutual

def nesting : Json → Nat
  | .array items => nestingItems items + 1
  | .object members => nestingMembers members + 1
  | _ => 0

def nestingItems : List Json → Nat
  | [] => 0
  | v :: items => max (nesting v) (nestingItems items)

def nestingMembers : List (String × Json) → Nat
  | [] => 0
  | (_, v) :: members => max (nesting v) (nestingMembers members)

end

theorem nestingItems_le : nestingItems items ≤ d ↔ ∀ v ∈ items, v.nesting ≤ d := by
  induction items with
  | nil => simp [nestingItems]
  | cons v items ih => rw [nestingItems, Nat.max_le, ih, List.forall_mem_cons]

theorem nestingMembers_le : nestingMembers members ≤ d ↔ ∀ m ∈ members, m.2.nesting ≤ d := by
  induction members with
  | nil => simp [nestingMembers]
  | cons m members ih => rw [nestingMembers, Nat.max_le, ih, List.forall_mem_cons]

@[simp] theorem nesting_array_le : (array items).nesting ≤ d + 1 ↔ ∀ v ∈ items, v.nesting ≤ d := by
  rw [nesting, Nat.add_le_add_iff_right, nestingItems_le]

@[simp] theorem nesting_object_le :
    (object members).nesting ≤ d + 1 ↔ ∀ m ∈ members, m.2.nesting ≤ d := by
  rw [nesting, Nat.add_le_add_iff_right, nestingMembers_le]

@[simp] theorem not_nesting_array_le : ¬ (array items).nesting ≤ 0 := by simp [nesting]

@[simp] theorem not_nesting_object_le : ¬ (object members).nesting ≤ 0 := by simp [nesting]

mutual

/-- A property of a value and of all that it contains. -/
def All (p : Json → Prop) : Json → Prop
  | .array items => p (.array items) ∧ AllItems p items
  | .object members => p (.object members) ∧ AllMembers p members
  | v => p v

def AllItems (p : Json → Prop) : List Json → Prop
  | [] => True
  | v :: items => All p v ∧ AllItems p items

def AllMembers (p : Json → Prop) : List (String × Json) → Prop
  | [] => True
  | (_, v) :: members => All p v ∧ AllMembers p members

end

theorem allItems_iff : AllItems p items ↔ ∀ v ∈ items, v.All p := by
  induction items with
  | nil => simp [AllItems]
  | cons v items ih => rw [AllItems, ih, List.forall_mem_cons]

theorem allMembers_iff : AllMembers p members ↔ ∀ m ∈ members, m.2.All p := by
  induction members with
  | nil => simp [AllMembers]
  | cons m members ih => rw [AllMembers, ih, List.forall_mem_cons]

theorem all_array : (array items).All p ↔ p (.array items) ∧ ∀ v ∈ items, v.All p := by
  rw [All, allItems_iff]

theorem all_object :
    (object members).All p ↔ p (.object members) ∧ ∀ m ∈ members, m.2.All p := by
  rw [All, allMembers_iff]

/-- All numbers are integers, from -2^63 to 2^64 - 1. -/
def Integral : Json → Prop :=
  All fun
    | .int n => -0x8000000000000000 ≤ n ∧ n < 0x10000000000000000
    | .double _ => False
    | _ => True

/-- The members of all objects are in the order of their keys. -/
def Ordered : Json → Prop :=
  All fun
    | .object members => Entries.Sorted members
    | _ => True

@[simp] theorem integral_int (n : Int) :
    (int n).Integral ↔ -0x8000000000000000 ≤ n ∧ n < 0x10000000000000000 := Iff.rfl

@[simp] theorem not_integral_double (x : Binary64) : ¬ (double x).Integral := id

@[simp] theorem integral_array : (array items).Integral ↔ ∀ v ∈ items, v.Integral := by
  rw [Integral, all_array, true_and]

@[simp] theorem integral_object : (object members).Integral ↔ ∀ m ∈ members, m.2.Integral := by
  rw [Integral, all_object, true_and]

@[simp] theorem ordered_array : (array items).Ordered ↔ ∀ v ∈ items, v.Ordered := by
  rw [Ordered, all_array, true_and]

@[simp] theorem ordered_object :
    (object members).Ordered ↔ Entries.Sorted members ∧ ∀ m ∈ members, m.2.Ordered := by
  rw [Ordered, all_object]

end Json

end RequestEngine
