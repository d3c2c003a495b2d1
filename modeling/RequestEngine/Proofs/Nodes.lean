import Mathlib.Data.List.Forall2
import RequestEngine.Proofs.Entries
import RequestEngine.Proofs.Scalars
import RequestEngine.Yaml.Decoder

/-! Decoders on nodes of documents. What a node stands for is read from it, wherever it is and
however many references were followed before; a record is read from its pairs one after the other.
-/
namespace RequestEngine.Yaml

section

variable {α β : Type} {r : Reading α} {f : α → Reading β} {a : α} {b : β}

/-- Reading comes to a value and follows no references. -/
def Gives (r : Reading α) (a : α) : Prop :=
  ∀ (document : Document) (count : Nat), (r.run document).run count = .ok (a, count)

theorem gives_pure (a : α) : Gives (pure a) a := fun _ _ => rfl

theorem Gives.bind (h : Gives r a) (h' : Gives (f a) b) : Gives (r >>= f) b := by
  intro document count
  change (do let x ← (r.run document).run count; ((f x.1).run document).run x.2) = _
  rw [h document count]
  exact h' document count

theorem Gives.placed (h : Gives r a) (path : Path) (mark : Mark) :
    Gives (Decoder.placed path mark r) a := by
  intro document count
  unfold Decoder.placed
  change (tryCatch ((r.run document).run count) _ : Except Error (α × Nat)) = _
  rw [h document count]
  rfl

end

namespace Spelling

open Decimal

theorem digits?_append (cs : List Char) (c : Char) (n d : Nat) (h : digits? 10 cs = some n)
    (hd : Hexadecimal.digit? c = some d) (hlt : d < 10) :
    digits? 10 (cs ++ [c]) = some (10 * n + d) := by
  have hne : cs ≠ [] := by
    rintro rfl
    cases h
  have hnonempty : (cs ++ [c]).isEmpty = false := by simp
  unfold digits? at h ⊢
  rw [if_neg (by simpa using hne)] at h
  rw [if_neg (by simp [hnonempty]), List.foldlM_append, h]
  simp [hd, hlt]

theorem digits?_digits (n : Nat) : digits? 10 (digits n) = some n := by
  have hdigit : ∀ d, d < 10 → Hexadecimal.digit? (digitChar d) = some d := by decide
  induction n using Nat.strongRecOn with
  | _ n ih =>
    rw [digits]
    split
    · rename_i h
      simp [digits?, hdigit n h, h]
    · rename_i h
      have hlt : n % 10 < 10 := Nat.mod_lt _ (by decide)
      rw [digits?_append _ _ _ _ (ih (n / 10) (by omega)) (hdigit _ hlt) hlt]
      congr 1
      omega

theorem natural?_digits (n : Nat) : natural? (digits n) = some n := by
  obtain ⟨c, cs, hcs, hc⟩ := exists_digits_cons n
  have hdigits : ∀ d ∈ cs, d.isDigit := fun d hd =>
    isDigit_of_mem_digits (hcs ▸ List.mem_cons_of_mem c hd)
  have hplus : c ≠ '+' := ne_of_isDigit hc (by decide)
  have hminus : c ≠ '-' := ne_of_isDigit hc (by decide)
  have hzero : hasLeadingZero (digits n) = false := by
    by_cases hn : n = 0
    · subst hn
      decide +kernel
    · have hhead := head?_digits_ne_zero hn
      rw [hcs] at hhead ⊢
      simp only [hasLeadingZero]
      split <;> simp_all
  rw [natural?, hcs, dropSign, if_neg hplus, ← hcs]
  unfold magnitude?
  split
  · rename_i rest heq
    rw [hcs] at heq
    cases heq
    exact absurd (hdigits 'x' List.mem_cons_self) (by decide)
  · rename_i rest heq
    rw [hcs] at heq
    cases heq
    exact absurd (hdigits 'o' List.mem_cons_self) (by decide)
  · rename_i rest heq
    rw [hcs] at heq
    cases heq
    exact absurd (hdigits 'b' List.mem_cons_self) (by decide)
  · rw [hzero]
    exact digits?_digits n

end Spelling

/-- The items of a sequence. A plain scalar without text stands for one without items. -/
inductive HasItems : List Node → Node → Prop
  | sequence (items : List Node) (tag : Option String) (mark : Mark) :
      HasItems items (.sequence items tag mark)
  | nothing (tag : Option String) (mark : Mark) : HasItems [] (.scalar "" .plain tag mark)

/-- A pair whose key is a scalar. -/
inductive IsMember : Node × Node → String × Node → Prop
  | mk (key : String) (value : Node) (style : Style) (tag : Option String) (mark : Mark) :
      IsMember (.scalar key style tag mark, value) (key, value)

/-- The members of a mapping. A plain scalar without text stands for one without any. -/
inductive HasMembers : List (String × Node) → Node → Prop
  | mapping {members : List (String × Node)} {pairs : List (Node × Node)}
      (h : List.Forall₂ IsMember pairs members) (tag : Option String) (mark : Mark) :
      HasMembers members (.mapping pairs tag mark)
  | nothing (tag : Option String) (mark : Mark) : HasMembers [] (.scalar "" .plain tag mark)

namespace Decoder

variable {α β σ : Type} {d : Decoder α} {node : Node} {a : α} {mark : Mark}

/-- The decoder makes a value of a node, wherever the node is. -/
def Reads (d : Decoder α) (node : Node) (a : α) : Prop := ∀ path, Gives (d path node) a

theorem Reads.map (h : d.Reads node a) (f : α → β) : (d.map f).Reads node (f a) := by
  intro path
  rw [Decoder.map, map_eq_pure_bind]
  exact (h path).bind (gives_pure (f a))

theorem reads_text (expected text : String) (style : Style) (tag : Option String) (mark : Mark) :
    (Decoder.text expected).Reads (.scalar text style tag mark) text := fun _ _ _ => rfl

theorem reads_spelled {wanted expected text : String} {read? : String → Option α}
    (h : read? text = some a) (tag : Option String) (mark : Mark) :
    (spelled wanted expected read?).Reads (.scalar text .plain tag mark) a := by
  intro path
  unfold spelled meant
  refine Gives.bind (a := .scalar text .plain tag mark) (fun _ _ => rfl) (Gives.placed ?_ _ _)
  simp only [isSpelled, h, decide_true, Bool.true_or, if_true]
  exact gives_pure a

theorem reads_word (expected : String) (n : UInt64) (tag : Option String) (mark : Mark) :
    (word expected).Reads (.scalar (Decimal.text n.toNat) .plain tag mark) n := by
  refine reads_spelled ?_ tag mark
  have hnatural : Spelling.natural? (Decimal.text n.toNat).toList = some n.toNat := by
    rw [Decimal.text, String.toList_ofList]
    exact Spelling.natural?_digits n.toNat
  simp [hnatural, n.toNat_lt_size]

theorem reads_nullable_null (d : Decoder α) {text : String} (h : text = "" ∨ Spelling.isNull text)
    (mark : Mark) : d.nullable.Reads (.scalar text .plain none mark) none := by
  intro path
  unfold nullable
  refine Gives.bind (a := .scalar text .plain none mark) (fun _ _ => rfl) ?_
  have hnull : (decide (text = "") || Spelling.isNull text) = true := by simpa using h
  simp only [reduceCtorEq, if_false, Option.isNone_none, Bool.true_and, hnull, if_true]
  exact gives_pure none

theorem Reads.nullable {text : String} (h : d.Reads (.scalar text .plain none mark) a)
    (hempty : text ≠ "") (hnull : Spelling.isNull text = false) :
    d.nullable.Reads (.scalar text .plain none mark) (some a) := by
  intro path
  unfold Decoder.nullable
  refine Gives.bind (a := .scalar text .plain none mark) (fun _ _ => rfl) ?_
  simp only [reduceCtorEq, if_false, Option.isNone_none, Bool.true_and, hempty, decide_false, hnull,
    Bool.or_self, Bool.false_eq_true]
  rw [map_eq_pure_bind]
  exact (h path).bind (gives_pure (some a))

theorem gives_go {items : List Node} {as : List α} (h : List.Forall₂ d.Reads items as) :
    ∀ acc : Array α, Gives (List.mapIdxM.go (fun i item => d (.index i :: path) item) items acc)
      (acc.toList ++ as) := by
  induction h with
  | nil =>
    intro acc
    rw [List.append_nil]
    exact gives_pure _
  | @cons _ a _ _ hitem _ ih =>
    intro acc
    have hrest := ih (acc.push a)
    rw [Array.toList_push, List.append_assoc] at hrest
    exact (hitem _).bind hrest

theorem reads_list {items : List Node} {as : List α} (hnode : HasItems items node)
    (h : List.Forall₂ d.Reads items as) : d.list.Reads node as := by
  intro path
  cases hnode with
  | sequence _ tag mark =>
    unfold list meant
    exact Gives.bind (a := .sequence items tag mark) (fun _ _ => rfl) (.placed (gives_go h #[]) _ _)
  | nothing tag mark =>
    cases h
    exact fun _ _ => rfl

/-- Whatever is made of the members of a mapping one after the other. -/
theorem reads_pairs {members : List (String × Node)} (hnode : HasMembers members node)
    {expected : String} {body : Path → List (Node × Node) → Reading α}
    (h : ∀ path pairs, List.Forall₂ IsMember pairs members → Gives (body path pairs) a) :
    (Decoder.pairs expected body).Reads node a := by
  intro path
  unfold Decoder.pairs meant
  cases hnode with
  | @mapping _ pairs hpairs tag mark =>
    exact Gives.bind (a := .mapping pairs tag mark) (fun _ _ => rfl)
      (.placed (h path pairs hpairs) _ _)
  | nothing tag mark =>
    exact Gives.bind (a := .scalar "" .plain tag mark) (fun _ _ => rfl)
      (.placed (h path [] .nil) _ _)

theorem reads_dictionary {members : List (String × Node)} {entries : List (String × α)}
    (hnode : HasMembers members node)
    (h : List.Forall₂ (fun m e => m.1 = e.1 ∧ d.Reads m.2 e.2) members entries)
    {dict : Dictionary α} (hp : entries.Perm dict.entries) : d.dictionary.Reads node dict := by
  refine reads_pairs hnode fun path pairs hpairs => ?_
  rw [← Dictionary.foldl_insert_of_perm hp]
  clear hnode hp
  generalize (Dictionary.empty : Dictionary α) = acc
  induction h generalizing pairs acc with
  | nil =>
    cases hpairs
    exact gives_pure acc
  | cons hm _ ih =>
    obtain ⟨hkey, hvalue⟩ := hm
    cases hpairs with
    | cons hp hpairs =>
      cases hp with
      | mk key value style tag mark =>
        rw [List.foldlM_cons, List.foldl_cons, ← hkey]
        refine Gives.bind ((reads_text _ _ style tag mark _).bind ?_) (ih _ hpairs _)
        exact (hvalue _).bind (gives_pure _)

/-- How a record is put together from members: the draft is told by the names of those that are
there already, in whatever order they came, and with all of them it is finished. -/
structure Builds (fields : List (Field σ)) (blank : σ) (finish : σ → Except Mismatch α)
    (members : List (String × Node)) (a : α) (draft : List String → σ) : Prop where
  nodup : (members.map (·.1)).Nodup
  blank : draft [] = blank
  member : ∀ m ∈ members, ∀ done, m.1 ∉ done → ∃ f g, fields.find? (·.name = m.1) = some f ∧
    f.filled (draft done) = false ∧ f.read.Reads m.2 g ∧ g (draft done) = draft (m.1 :: done)
  finish : ∀ done, (∀ m ∈ members, m.1 ∈ done) → finish (draft done) = .ok a

theorem gives_foldlM {members : List (String × Node)} {draft : List String → σ}
    {step : σ → Node × Node → Reading σ}
    (hstep : ∀ p m, IsMember p m → m ∈ members → ∀ done, m.1 ∉ done →
      Gives (step (draft done) p) (draft (m.1 :: done))) {rest : List (String × Node)} :
    ∀ {pairs : List (Node × Node)} {done : List String}, List.Forall₂ IsMember pairs rest →
      (∀ m ∈ rest, m ∈ members) → ((rest.map (·.1)).reverse ++ done).Nodup →
      Gives (pairs.foldlM step (draft done)) (draft ((rest.map (·.1)).reverse ++ done)) := by
  induction rest with
  | nil =>
    intro pairs done hpairs _ _
    cases hpairs
    exact gives_pure _
  | cons m rest ih =>
    intro pairs done hpairs hmem hnodup
    obtain ⟨hm, hrest⟩ := List.forall_mem_cons.1 hmem
    rw [List.map_cons, List.reverse_cons, List.append_assoc, List.singleton_append] at hnodup ⊢
    have hnew : m.1 ∉ done := (List.nodup_cons.1 (List.nodup_append.1 hnodup).2.1).1
    cases hpairs with
    | cons hp hpairs =>
      rw [List.foldlM_cons]
      exact (hstep _ m hp hm done hnew).bind (ih hpairs hrest hnodup)

/-- A record is read from its members in any order. -/
theorem Builds.reads {name : String} {fields : List (Field σ)} {blank : σ}
    {finish : σ → Except Mismatch α} {members : List (String × Node)} {draft : List String → σ}
    (h : Builds fields blank finish members a draft) (hnode : HasMembers members node) :
    (record name fields blank finish).Reads node a := by
  refine reads_pairs hnode fun path pairs hpairs => ?_
  have hnodup : (members.map (·.1)).reverse.Nodup :=
    (List.reverse_perm _).nodup_iff.2 h.nodup
  rw [← List.append_nil (List.reverse _)] at hnodup
  rw [← h.blank]
  refine (gives_foldlM (fun p m hp hm done hnew => ?_) hpairs (fun m hm => hm) hnodup).bind ?_
  · obtain ⟨f, g, hfield, hfilled, hread, hdraft⟩ := h.member m hm done hnew
    cases hp with
    | mk key value style tag mark =>
      refine (reads_text _ _ style tag mark _).bind ?_
      rw [hfield, ← hdraft]
      dsimp only
      rw [hfilled]
      exact (hread _).bind (gives_pure _)
  · rw [List.append_nil, h.finish _ fun m hm => List.mem_reverse.2 (List.mem_map_of_mem hm)]
    exact gives_pure a

theorem Reads.decodeText {text : String} {document : Document} (h : d.Reads document.root a)
    (htext : document? text = some document) : d.decodeText text = .ok a := by
  rw [Decoder.decodeText, htext]
  dsimp only
  rw [h [] document 0]
  rfl

end Decoder

end RequestEngine.Yaml
