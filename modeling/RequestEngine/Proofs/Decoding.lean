import RequestEngine.Json.Decoder
import RequestEngine.Proofs.Parsing

/-! Decoders that read back what was written, from the value and from its text. Each kind of decoder
reads back what its parts read back; a record is read back from its members in any order. -/
namespace RequestEngine.Json

open Reader

namespace Decoder

variable {α β σ : Type} {d : Decoder α} {l : Layout} {v : Json} {a : α} {depth : Nat} {c : Char}
  {s s' : List Char}

/-- The decoder makes the same of a value and of every print of it, if lists and objects may be
nested as deep as the value is. -/
structure Reads (d : Decoder α) (v : Json) (a : α) : Prop where
  value : d.ofValue v = .ok a
  text : ∀ depth, v.nesting ≤ depth → (d.ofText depth).Reads v a

theorem Reads.decode (h : d.Reads v a) : d.decode v = .ok a := by
  rw [Decoder.decode, h.value]
  rfl

theorem Reads.decodeText (h : d.Reads v a) (hl : l.Proper) (hdepth : v.nesting ≤ maxDepth) :
    d.decodeText (String.ofList (print l 0 v)) = .ok a :=
  readText_print (h.text maxDepth hdepth) hl

theorem Reads.map (h : d.Reads v a) (f : α → β) : (d.map f).Reads v (f a) where
  value := by
    change (d.ofValue v).map f = _
    rw [h.value]
    rfl
  text depth hdepth l hl k blanks s hb hs :=
    (h.text depth hdepth l hl k blanks s hb hs).bind (takes_pure _ _)

theorem takes_byToken {read : Char → Reader α} {blanks : List Char} (hb : Blank blanks)
    (hc : isBlank c = false) (h : Takes (read c) (c :: s) a s') :
    Takes (byToken read) (blanks ++ c :: s) a s' :=
  (takes_peekToken? hb hc s).bind h

theorem takes_enter {body : Nat → Reader α} (h : Takes (body depth) s a s') :
    Takes (enter (depth + 1) body) (c :: s) a s' :=
  (takes_advance c s).bind (takes_located h)

theorem reads_anyValue (hint : v.Integral) (hord : v.Ordered) : anyValue.Reads v v where
  value := rfl
  text := reads_readAny v hint hord

theorem takes_readString_then {f : String → Except Mismatch α} {text : String}
    (h : f text = .ok a) (s : List Char) :
    Takes (do
        advance
        orMismatchHere (f (← readString)))
      (quoted text ++ s) a s := by
  rw [quoted]
  simp only [List.append_assoc, List.cons_append, List.nil_append]
  refine (takes_advance _ _).bind ((takes_readString text s).bind ?_)
  rw [h]
  exact takes_pure a s

theorem reads_parsed {expected : String} {parse : String → Except Mismatch α} {text : String}
    (h : parse text = .ok a) : (parsed expected parse).Reads (.string text) a where
  value := h
  text _ _ _ _ _ _ s hb _ := takes_byToken hb (by decide) (takes_readString_then h s)

theorem reads_string (text : String) : string.Reads (.string text) text := reads_parsed rfl

theorem reads_boolean (b : Bool) : boolean.Reads (.bool b) b where
  value := rfl
  text _ _ _ _ _ _ s hb _ := by
    cases b <;> exact takes_byToken hb (by decide)
      ((takes_advance _ _).bind ((takes_literal _ s).bind (takes_pure _ _)))

theorem toWord_word (expected : String) (n : UInt64) :
    toWord expected (.int n.toNat) = .ok n := by
  rw [toWord, if_pos (Int.natCast_nonneg _), Int.toNat_natCast, UInt64.ofNat_toNat]

theorem reads_word (expected : String) (n : UInt64) : (word expected).Reads (.word n) n where
  value := toWord_word expected n
  text _ _ l _ k blanks s hb hs := by
    obtain ⟨c, cs, hcs, hc⟩ := Decimal.exists_digits_cons n.toNat
    have hprint : print l k (.word n) = Decimal.digits n.toNat := rfl
    have hnumber := takes_readNumber n.toNat_lt_size hs false
    refine (takes_peekToken?_print l k (.word n) hb s).bind ?_
    rw [hprint]
    rw [hcs] at hnumber ⊢
    have hminus : c ≠ '-' := ne_of_isDigit hc rfl
    simp only [List.head?_cons, hminus, if_false, hc, if_true]
    refine hnumber.bind ?_
    have hvalue : integerValue false n.toNat = .int n.toNat := rfl
    rw [hvalue, toWord_word]
    exact takes_pure n s

theorem reads_nullable_null (d : Decoder α) : d.nullable.Reads .null none where
  value := rfl
  text _ _ _ _ _ _ s hb _ := (takes_peekToken? hb (by decide) _).bind
    ((takes_advance _ _).bind ((takes_literal _ s).bind (takes_pure _ _)))

theorem Reads.nullable (h : d.Reads v a) (hv : v ≠ .null) : d.nullable.Reads v (some a) where
  value := by
    have hvalue : d.nullable.ofValue v = (d.ofValue v).map some := by
      cases v with
      | null => exact absurd rfl hv
      | _ => rfl
    rw [hvalue, h.value]
    rfl
  text depth hdepth l hl k blanks s hb hs := by
    refine (takes_peekToken?_print l k v hb s).bind ?_
    obtain ⟨c, cs, hprint, -, -, hnull⟩ := exists_print_cons l k v
    have hhead : (print l k v).head? ≠ some 'n' := by
      rw [hprint]
      exact fun h => hv (hnull (Option.some.inj h))
    rw [if_neg hhead]
    exact ((h.text depth hdepth).takes hl k hs).bind (takes_pure _ _)

theorem reads_ofOption {f : α → Json} (h : ∀ a, d.Reads (f a) a) (hf : ∀ a, f a ≠ .null)
    (o : Option α) : d.nullable.Reads (.ofOption f o) o := by
  cases o with
  | none => exact reads_nullable_null d
  | some a => exact (h a).nullable (hf a)

theorem reads_variant {names : List String} {ofName : String → Option α} {noContent : Json → Bool}
    {name : String} (h : ofName name = some a) :
    (variant names ofName noContent).Reads (.string name) a where
  value := by simp [variant, h]
  text _ _ _ _ _ _ s hb _ :=
    takes_byToken hb (by decide) (takes_readString_then (by simp [h]) s)

theorem reads_list {items : List Json} {as : List α} (h : List.Forall₂ d.Reads items as) :
    d.list.Reads (.array items) as where
  value := by
    change items.mapM d.ofValue = _
    induction h with
    | nil => rfl
    | cons hv _ ih =>
      rw [List.mapM_cons, hv.value, ih]
      rfl
  text depth hdepth l hl k blanks s hb hs := by
    cases depth with
    | zero => exact absurd hdepth not_nesting_array_le
    | succ depth =>
      rw [nesting_array_le] at hdepth
      have hitems : List.Forall₂ (d.ofText depth).Reads items as :=
        ((List.forall₂_and_left _ _).2 ⟨hdepth, h⟩).imp fun v a hv => hv.2.text depth hv.1
      rw [print_array_eq, List.cons_append]
      refine takes_byToken hb (by decide) ?_
      rw [if_pos rfl]
      refine takes_enter ((takes_room _).bind ?_)
      exact takes_list hitems hl k s (lt_room_array l k items s)

theorem foldlM_members {members : List (String × Json)} {entries : List (String × α)}
    (h : List.Forall₂ (fun m e => m.1 = e.1 ∧ d.Reads m.2 e.2) members entries)
    (acc : Dictionary α) :
    members.foldlM (fun acc m => return acc.insert m.1 (← d.ofValue m.2)) acc =
      Except.ok (ε := Mismatch) (entries.foldl (fun acc e => acc.insert e.1 e.2) acc) := by
  induction h generalizing acc with
  | nil => rfl
  | cons hm _ ih =>
    rw [List.foldlM_cons, hm.2.value, hm.1]
    exact ih _

/-- The entries of a dictionary as members, the values in any form that reads back. -/
theorem reads_dictionary {members : List (String × Json)} {entries : List (String × α)}
    (h : List.Forall₂ (fun m e => m.1 = e.1 ∧ d.Reads m.2 e.2) members entries)
    {dict : Dictionary α} (hp : entries.Perm dict.entries) :
    d.dictionary.Reads (.object members) dict where
  value := by
    exact (foldlM_members h .empty).trans (congrArg Except.ok (Dictionary.foldl_insert_of_perm hp))
  text depth hdepth l hl k blanks s hb hs := by
    cases depth with
    | zero => exact absurd hdepth not_nesting_object_le
    | succ depth =>
      rw [nesting_object_le] at hdepth
      have hmembers : List.Forall₂ (fun m e => m.1 = e.1 ∧ (d.ofText depth).Reads m.2 e.2) members
          entries :=
        ((List.forall₂_and_left _ _).2 ⟨hdepth, h⟩).imp fun m e hm =>
          ⟨hm.2.1, hm.2.2.text depth hm.1⟩
      have hcollects := collects_foldl Dictionary.insert hmembers .empty
      rw [Dictionary.foldl_insert_of_perm hp] at hcollects
      rw [print_object_eq, List.cons_append]
      refine takes_byToken hb (by decide) ?_
      rw [if_pos rfl]
      refine takes_enter ((takes_room _).bind ?_)
      exact takes_object hcollects hl k s (lt_room_object l k members s)

variable {form : Form σ α} {members rest : List (String × Json)} {draft draft' : σ}

/-- A member is a field that the draft lacks, and with it the draft becomes another. -/
structure Form.Fills (form : Form σ α) (draft : σ) (m : String × Json) (draft' : σ) : Prop where
  exists_field : ∃ f g, form.field? m.1 = some f ∧ f.filled draft = false ∧ f.read.Reads m.2 g ∧
    g draft = draft'

theorem Form.Fills.of_map {key name : String} {read : Decoder β} {set : β → σ → σ} {b : β}
    {filled : σ → Bool} {omittable : Bool}
    (hfield : form.field? key = some ⟨name, read.map set, filled, omittable⟩)
    (hread : read.Reads v b) (hfilled : filled draft = false) (hset : set b draft = draft') :
    form.Fills draft (key, v) draft' :=
  ⟨_, _, hfield, hfilled, hread.map set, hset⟩

theorem Form.Fills.memberOfValue {m : String × Json} (h : form.Fills draft m draft') :
    form.memberOfValue draft m = .ok draft' := by
  obtain ⟨f, g, hfield, -, hread, rfl⟩ := h.exists_field
  rw [Form.memberOfValue, hfield]
  dsimp only
  rw [hread.value]
  rfl

theorem Form.Fills.adds {m : String × Json} (h : form.Fills draft m draft')
    (hdepth : m.2.nesting ≤ depth) : Adds (form.readMember depth) m.1 m.2 draft draft' := by
  intro l hl k s hs
  obtain ⟨f, g, hfield, hfilled, hread, rfl⟩ := h.exists_field
  obtain ⟨blanks, hb, hcolon⟩ := takes_readColon hl
  rw [Form.readMember, hfield]
  dsimp only
  rw [hfilled]
  exact (takes_pure _ _).bind ((hcolon _).bind
    ((hread.text depth hdepth l hl k blanks s hb hs).bind (takes_pure _ _)))

inductive Form.FillsAll (form : Form σ α) : σ → List (String × Json) → σ → Prop
  | nil {draft : σ} : FillsAll form draft [] draft
  | cons {draft draft' draft'' : σ} {m : String × Json} {rest : List (String × Json)}
      (h : form.Fills draft m draft') (hrest : FillsAll form draft' rest draft'') :
      FillsAll form draft (m :: rest) draft''

theorem Form.FillsAll.foldlM (h : form.FillsAll draft members draft') :
    members.foldlM form.memberOfValue draft = .ok draft' := by
  induction h with
  | nil => rfl
  | cons h _ ih =>
    rw [List.foldlM_cons, h.memberOfValue]
    exact ih

theorem Form.FillsAll.collects (h : form.FillsAll draft members draft') :
    (∀ m ∈ members, m.2.nesting ≤ depth) →
      Collects (form.readMember depth) draft members draft' := by
  induction h with
  | nil => exact fun _ => .nil
  | cons h _ ih =>
    intro hdepth
    rw [List.forall_mem_cons] at hdepth
    exact .cons (h.adds hdepth.1) (ih hdepth.2)

theorem Form.FillsAll.reads (h : form.FillsAll form.blank members draft)
    (hfinish : form.finish draft = .ok a) : (record form).Reads (.object members) a where
  value := by
    change (do form.finish (← members.foldlM form.memberOfValue form.blank)) = _
    rw [h.foldlM]
    exact hfinish
  text depth hdepth l hl k blanks s hb hs := by
    cases depth with
    | zero => exact absurd hdepth not_nesting_object_le
    | succ depth =>
      rw [nesting_object_le] at hdepth
      rw [print_object_eq, List.cons_append]
      refine takes_byToken hb (by decide) ?_
      rw [if_neg (by decide), if_pos rfl]
      refine takes_enter ?_
      obtain ⟨s', hmembers, hclose⟩ := (takes_object (h.collects hdepth) hl k s
        (lt_room_object l k members s)).exists_of_thenClose
      refine takes_thenClose ((takes_room _).bind (hmembers.bind ?_)) hclose
      rw [hfinish]
      exact takes_pure a s'

/-- How a record is put together from its members: the draft is told by the names of the fields that
are there already, in whatever order they came, and with all of them it is finished. -/
structure Form.Builds (form : Form σ α) (members : List (String × Json)) (a : α)
    (draft : List String → σ) : Prop where
  nodup : (members.map (·.1)).Nodup
  blank : draft [] = form.blank
  member : ∀ m ∈ members, ∀ done, m.1 ∉ done → form.Fills (draft done) m (draft (m.1 :: done))
  finish : ∀ done, (∀ m ∈ members, m.1 ∈ done) → form.finish (draft done) = .ok a

theorem Form.Builds.fillsAll {draft : List String → σ} (h : form.Builds members a draft) :
    ∀ (rest : List (String × Json)) (done : List String), (∀ m ∈ rest, m ∈ members) →
      ((rest.map (·.1)).reverse ++ done).Nodup →
      form.FillsAll (draft done) rest (draft ((rest.map (·.1)).reverse ++ done))
  | [], done, _, _ => .nil
  | m :: rest, done, hmem, hnodup => by
    obtain ⟨hm, hrest⟩ := List.forall_mem_cons.1 hmem
    rw [List.map_cons, List.reverse_cons, List.append_assoc, List.singleton_append] at hnodup ⊢
    have hnew : m.1 ∉ done := (List.nodup_cons.1 (List.nodup_append.1 hnodup).2.1).1
    exact .cons (h.member m hm done hnew) (h.fillsAll rest (m.1 :: done) hrest hnodup)

/-- A record is read back from its members in any order. -/
theorem Form.Builds.reads {draft : List String → σ} (h : form.Builds members a draft)
    (hp : rest.Perm members) : (record form).Reads (.object rest) a := by
  have hkeys : (rest.map (·.1)).reverse.Nodup :=
    (List.reverse_perm _).nodup_iff.2 ((hp.map (·.1)).nodup_iff.2 h.nodup)
  have hfills := h.fillsAll rest [] (fun m hm => hp.mem_iff.1 hm) (by rwa [List.append_nil])
  rw [h.blank, List.append_nil] at hfills
  refine hfills.reads (h.finish _ fun m hm => ?_)
  rw [List.mem_reverse]
  exact List.mem_map_of_mem (hp.mem_iff.2 hm)

section Yields

variable {p : α → Prop} {q : β → Prop} {kept : σ → Prop}

theorem yields_mismatchHere (m : Mismatch) (p : α → Prop) : Yields (mismatchHere m) p := by
  intro s a s' h
  cases h

theorem yields_mismatch (m : Mismatch) (p : α → Prop) : Yields (mismatch m) p := by
  intro s a s' h
  cases h

theorem yields_wrongKind (expected : String) (p : α → Prop) : Yields (wrongKind expected) p :=
  yields_then fun _ => yields_mismatchHere _ p

theorem yields_orMismatch {result : Except Mismatch α} (h : ∀ a, result = .ok a → p a) :
    Yields (orMismatch result) p := by
  cases result with
  | ok a => exact yields_pure (h a rfl)
  | error m => exact yields_mismatch m p

theorem yields_byToken {read : Char → Reader α} (h : ∀ c, Yields (read c) p) :
    Yields (byToken read) p := by
  refine yields_then fun next => ?_
  cases next with
  | none => exact yields_failNext _ p
  | some c => exact h c

theorem yields_enter {body : Nat → Reader α} (h : Yields (body depth) p) :
    Yields (enter (depth + 1) body) p := by
  refine yields_then fun _ => fun s a s' ha => ?_
  rw [Takes, located] at ha
  split at ha
  · cases ha
  · rename_i hbody
    cases ha
    exact h _ _ _ hbody

theorem yields_map {f : α → β} (h : Yields (d.ofText depth) p) (hf : ∀ a, p a → q (f a)) :
    Yields ((d.map f).ofText depth) q :=
  h.bind fun a ha => yields_pure (hf a ha)

theorem yields_nullable (h : Yields (d.ofText depth) p) :
    Yields (d.nullable.ofText depth) fun o => ∀ a ∈ o, p a := by
  refine yields_then fun next => ?_
  split
  · exact yields_then fun _ => yields_then fun _ => yields_pure fun a ha => by cases ha
  · exact h.bind fun a ha => yields_pure fun b hb => Option.some.inj hb ▸ ha

/-- Every field that is read keeps what held of the draft. -/
structure Form.Keeps (form : Form σ α) (depth : Nat) (kept : σ → Prop) : Prop where
  blank : kept form.blank
  field : ∀ f ∈ form.fields,
    Yields (f.read.ofText depth) fun g => ∀ draft, kept draft → kept (g draft)

theorem Form.Keeps.readMember (h : form.Keeps depth kept) (key : String) (draft : σ)
    (hdraft : kept draft) : Yields (form.readMember depth key draft) kept := by
  rw [Form.readMember]
  split
  · rename_i f hf
    have hfield := h.field f (List.mem_of_find?_eq_some hf)
    have hread := hfield.bind fun g hg => yields_pure (hg draft hdraft)
    split
    · exact (yields_mismatch _ fun _ => True).bind fun _ _ => yields_then fun _ => hread
    · exact yields_then fun _ => hread
  · exact yields_then fun _ => yields_then fun _ => yields_pure hdraft

theorem Form.Keeps.readFields (h : form.Keeps depth kept) :
    ∀ (fields : List (Field σ)) (i : Nat) (draft : σ), (∀ f ∈ fields, f ∈ form.fields) →
      kept draft → Yields (form.readFields depth fields i draft) kept
  | [], _, _, _, hdraft => yields_pure hdraft
  | f :: fields, i, draft, hfields, hdraft => by
    obtain ⟨hf, hrest⟩ := List.forall_mem_cons.1 hfields
    refine yields_then fun another => ?_
    split
    · exact (h.field f hf).bind fun g hg => h.readFields fields (i + 1) _ hrest (hg draft hdraft)
    split
    · exact h.readFields fields (i + 1) draft hrest hdraft
    · exact yields_mismatch _ _

/-- What holds of every draft, and of a record by its draft, holds of all records that are read. -/
theorem Form.Keeps.yields (h : form.Keeps depth kept)
    (hfinish : ∀ draft a, kept draft → form.finish draft = .ok a → p a) :
    Yields ((record form).ofText (depth + 1)) p := by
  have hfinished : ∀ draft, kept draft → Yields (orMismatch (form.finish draft)) p :=
    fun draft hdraft => yields_orMismatch fun a => hfinish draft a hdraft
  refine yields_byToken fun c => ?_
  split
  · refine yields_enter (Yields.thenClose ?_ closeList)
    exact (h.readFields form.fields 0 form.blank (fun f hf => hf) h.blank).bind hfinished
  split
  · refine yields_enter (Yields.thenClose ?_ closeObject)
    exact yields_then fun n =>
      (yields_readMembers h.readMember n true form.blank h.blank).bind hfinished
  · exact yields_wrongKind _ p

/-- A record is read only from a text that begins with an object or a list. -/
theorem opens_of_decodeText {text : String} (h : (record form).decodeText text = .ok a) :
    ∃ c ∈ (text.toList.dropWhile isBlank).head?, c = '{' ∨ c = '[' := by
  obtain ⟨s, hrecord⟩ := takes_of_readText h
  obtain ⟨next, s', hpeek, hread⟩ := hrecord.exists_of_bind
  have hnext : next = (text.toList.dropWhile isBlank).head? :=
    (Except.ok.inj (Prod.mk.inj hpeek).1).symm
  cases next with
  | none => exact (yields_failNext .endInValue (fun _ => False) _ _ _ hread).elim
  | some c =>
    refine ⟨c, hnext.symm, ?_⟩
    by_contra hc
    rw [not_or] at hc
    dsimp only at hread
    rw [if_neg hc.2, if_neg hc.1] at hread
    exact yields_wrongKind form.expected (fun _ => False) _ _ _ hread

end Yields

end Decoder

end RequestEngine.Json
