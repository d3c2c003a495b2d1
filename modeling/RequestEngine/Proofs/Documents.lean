import RequestEngine.Function.Codec
import RequestEngine.Proofs.Decoding
import RequestEngine.Proofs.Nodes

/-! Documents of function tables, as values of JSON and as nodes of YAML. In both formats a document
tells of a table in the same words, with the fields and functions in any order, and a field may be
left out where it would say nothing. What a document tells is what is read from it. -/
namespace RequestEngine

/-- The words of a format: which of its values stand for a text, a truth value and so on. -/
structure Vocabulary (V : Type) where
  text : String → V → Prop
  truth : Bool → V → Prop
  word : UInt64 → V → Prop
  null : V → Prop
  list : List V → V → Prop
  object : List (String × V) → V → Prop

def Json.vocabulary : Vocabulary Json where
  text s v := v = .string s
  truth b v := v = .bool b
  word n v := v = .word n
  null v := v = .null
  list items v := v = .array items
  object members v := v = .object members

/-- Texts are written in any way, all else in plain scalars without tags. -/
def Yaml.vocabulary : Vocabulary Yaml.Node where
  text s v := ∃ style tag mark, v = .scalar s style tag mark
  truth b v := ∃ mark, ∃ word ∈ if b then ["true", "True", "TRUE"] else ["false", "False", "FALSE"],
    v = .scalar word .plain none mark
  word n v := ∃ mark, v = .scalar (Decimal.text n.toNat) .plain none mark
  null v := ∃ mark, ∃ word ∈ ["", "~", "null", "Null", "NULL"], v = .scalar word .plain none mark
  list := Yaml.HasItems
  object := Yaml.HasMembers

/-- Some of the fields of a record, each at most once, with values that say what they should. -/
structure HasFields {V : Type} (members : List (String × V)) (fields : List (String × (V → Prop))) :
    Prop where
  nodup : (members.map (·.1)).Nodup
  field : ∀ m ∈ members, ∃ f ∈ fields, f.1 = m.1 ∧ f.2 m.2

section

variable {V : Type} (F : Vocabulary V)

/-- A parameter has a name. If nothing else is said it is of no type and not required. -/
inductive ParameterSpec.Told (p : ParameterSpec) : V → Prop
  | object {members : List (String × V)} {v : V} (h : F.object members v)
      (hfields : HasFields members [("name", F.text p.name), ("type", F.text p.kind),
        ("required", F.truth p.required)])
      (hname : "name" ∈ members.map (·.1))
      (hkind : "type" ∉ members.map (·.1) → p.kind = "")
      (hrequired : "required" ∉ members.map (·.1) → p.required = false) : Told p v

/-- A timeout, or null for none. -/
def Vocabulary.timeout : Option UInt64 → V → Prop
  | some n => F.word n
  | none => F.null

/-- If nothing else is said a function has no description, no timeout and no parameters. -/
inductive FunctionConfig.Told (c : FunctionConfig) : V → Prop
  | object {members : List (String × V)} {v : V} (h : F.object members v)
      (hfields : HasFields members [("description", F.text c.description),
        ("timeout_ms", F.timeout c.timeout),
        ("parameters", fun v => ∃ items, F.list items v ∧
          List.Forall₂ (fun v p => p.Told F v) items c.parameters)])
      (hdescription : "description" ∉ members.map (·.1) → c.description = "")
      (htimeout : "timeout_ms" ∉ members.map (·.1) → c.timeout = none)
      (hparameters : "parameters" ∉ members.map (·.1) → c.parameters = []) : Told c v

/-- The functions by their names. -/
inductive FunctionTable.Told (t : FunctionTable) : V → Prop
  | object {members : List (String × V)} {v : V} (h : F.object members v)
      (hfields : HasFields members [("functions", fun v => ∃ functions entries,
        F.object functions v ∧ entries.Perm t.functions.entries ∧
          List.Forall₂ (fun m e => m.1 = e.1 ∧ e.2.Told F m.2) functions entries)])
      (hfunctions : "functions" ∉ members.map (·.1) → t = .empty) : Told t v

end

theorem HasFields.each {V : Type} {members : List (String × V)}
    {fields : List (String × (V → Prop))} (h : HasFields members fields) {P : String × V → Prop}
    (hP : ∀ f ∈ fields, ∀ v, f.2 v → P (f.1, v)) : ∀ m ∈ members, P m := by
  rintro ⟨key, v⟩ hm
  obtain ⟨f, hf, rfl, hv⟩ := h.field _ hm
  exact hP f hf v hv

theorem getD_ite {α : Type} {c : Prop} [Decidable c] {a d : α} (h : ¬ c → a = d) :
    (if c then some a else none).getD d = a := by
  by_cases hc : c
  · rw [if_pos hc, Option.getD_some]
  · rw [if_neg hc, Option.getD_none, h hc]

theorem Json.reads_timeout {timeout : Option UInt64} {v : Json}
    (h : Json.vocabulary.timeout timeout v) :
    (Json.Decoder.word "u64").nullable.Reads v timeout := by
  cases timeout with
  | none =>
    obtain rfl : v = .null := h
    exact Json.Decoder.reads_nullable_null _
  | some n =>
    obtain rfl : v = .word n := h
    exact (Json.Decoder.reads_word "u64" n).nullable Json.noConfusion

theorem Yaml.reads_truth {b : Bool} {v : Yaml.Node} (h : Yaml.vocabulary.truth b v) :
    Yaml.Decoder.boolean.Reads v b := by
  obtain ⟨mark, word, hword, rfl⟩ := h
  refine Yaml.Decoder.reads_spelled ?_ none mark
  cases b <;> revert word <;> decide

theorem Yaml.text_ne_of_no_digit (n : Nat) {word : String}
    (h : word.toList.head?.any Char.isDigit = false) : Decimal.text n ≠ word := by
  rintro rfl
  obtain ⟨c, cs, hcs, hc⟩ := Decimal.exists_digits_cons n
  rw [Decimal.text, String.toList_ofList, hcs] at h
  exact Bool.false_ne_true (h.symm.trans hc)

theorem Yaml.reads_timeout {timeout : Option UInt64} {v : Yaml.Node}
    (h : Yaml.vocabulary.timeout timeout v) :
    (Yaml.Decoder.word "u64").nullable.Reads v timeout := by
  cases timeout with
  | none =>
    obtain ⟨mark, word, hword, rfl⟩ := h
    refine Yaml.Decoder.reads_nullable_null _ ?_ mark
    revert word
    decide
  | some n =>
    obtain ⟨mark, rfl⟩ := h
    have hspelled : ∀ word ∈ ["", "null", "Null", "NULL", "~"], Decimal.text n.toNat ≠ word :=
      fun word hword => Yaml.text_ne_of_no_digit n.toNat (by revert word; decide)
    refine (Yaml.Decoder.reads_word "u64" n none mark).nullable (hspelled _ (by simp)) ?_
    rw [Yaml.Spelling.isNull, List.contains_eq_mem, decide_eq_false_iff_not]
    exact fun hmem => hspelled _ (List.mem_cons_of_mem _ hmem) rfl

namespace ParameterSpec

variable {p : ParameterSpec}

/-- The draft once the fields of the given names have been read. -/
def draft (p : ParameterSpec) (done : List String) : Draft where
  name := if "name" ∈ done then some p.name else none
  kind := if "type" ∈ done then some p.kind else none
  required := if "required" ∈ done then some p.required else none

theorem finish?_draft {keys done : List String} (hdone : ∀ key ∈ keys, key ∈ done)
    (hname : "name" ∈ keys) (hkind : "type" ∉ keys → p.kind = "")
    (hrequired : "required" ∉ keys → p.required = false) : (p.draft done).finish? = some p := by
  rw [Draft.finish?, draft]
  dsimp only
  rw [if_pos (hdone _ hname), getD_ite fun h => hkind (mt (hdone _) h),
    getD_ite fun h => hrequired (mt (hdone _) h)]
  rfl

theorem Told.reads_json {v : Json} (h : p.Told Json.vocabulary v) : decoder.Reads v p := by
  obtain ⟨rfl, hfields, hname, hkind, hrequired⟩ := h
  refine Json.Decoder.Form.Builds.reads (?_ : Json.Decoder.Form.Builds _ _ p p.draft) (.refl _)
  refine ⟨hfields.nodup, rfl, hfields.each ?_, fun done hdone => ?_⟩
  · simp only [List.forall_mem_cons, List.not_mem_nil, false_implies, implies_true, and_true]
    refine ⟨?_, ?_, ?_⟩
    · rintro _ rfl done hnew
      exact .of_map rfl (Json.Decoder.reads_string p.name) (by simp [draft, hnew])
        (by simp [draft, setName])
    · rintro _ rfl done hnew
      exact .of_map rfl (Json.Decoder.reads_string p.kind) (by simp [draft, hnew])
        (by simp [draft, setKind])
    · rintro _ rfl done hnew
      exact .of_map rfl (Json.Decoder.reads_boolean p.required) (by simp [draft, hnew])
        (by simp [draft, setRequired])
  · change Json.Decoder.required "name" (p.draft done).finish? = _
    rw [finish?_draft (List.forall_mem_map.2 hdone) hname hkind hrequired]
    rfl

theorem Told.nesting_le {v : Json} (h : p.Told Json.vocabulary v) : v.nesting ≤ 1 := by
  obtain ⟨rfl, hfields, -, -, -⟩ := h
  refine Json.nesting_object_le.2 (hfields.each ?_)
  simp only [List.forall_mem_cons, List.not_mem_nil, false_implies, implies_true, and_true]
  refine ⟨?_, ?_, ?_⟩ <;> rintro _ rfl <;> exact Nat.le_refl 0

theorem Told.reads_yaml {v : Yaml.Node} (h : p.Told Yaml.vocabulary v) :
    yamlDecoder.Reads v p := by
  obtain ⟨hobject, hfields, hname, hkind, hrequired⟩ := h
  refine Yaml.Decoder.Builds.reads (?_ : Yaml.Decoder.Builds _ _ _ _ p p.draft) hobject
  refine ⟨hfields.nodup, rfl, hfields.each ?_, fun done hdone => ?_⟩
  · simp only [List.forall_mem_cons, List.not_mem_nil, false_implies, implies_true, and_true]
    refine ⟨?_, ?_, ?_⟩
    · rintro _ ⟨style, tag, mark, rfl⟩ done hnew
      exact ⟨_, _, rfl, by simp [draft, hnew], (Yaml.Decoder.reads_text _ _ _ _ _).map setName,
        by simp [draft, setName]⟩
    · rintro _ ⟨style, tag, mark, rfl⟩ done hnew
      exact ⟨_, _, rfl, by simp [draft, hnew], (Yaml.Decoder.reads_text _ _ _ _ _).map setKind,
        by simp [draft, setKind]⟩
    · rintro v hv done hnew
      exact ⟨_, _, rfl, by simp [draft, hnew], (Yaml.reads_truth hv).map setRequired,
        by simp [draft, setRequired]⟩
  · rw [finish?_draft (List.forall_mem_map.2 hdone) hname hkind hrequired]

end ParameterSpec

namespace FunctionConfig

variable {c : FunctionConfig}

def draft (c : FunctionConfig) (done : List String) : Draft where
  description := if "description" ∈ done then some c.description else none
  timeout := if "timeout_ms" ∈ done then some c.timeout else none
  parameters := if "parameters" ∈ done then some c.parameters else none

theorem finish_draft {keys done : List String} (hdone : ∀ key ∈ keys, key ∈ done)
    (hdescription : "description" ∉ keys → c.description = "")
    (htimeout : "timeout_ms" ∉ keys → c.timeout = none)
    (hparameters : "parameters" ∉ keys → c.parameters = []) : (c.draft done).finish = c := by
  rw [Draft.finish, draft]
  dsimp only
  rw [getD_ite fun h => hdescription (mt (hdone _) h), getD_ite fun h => htimeout (mt (hdone _) h),
    getD_ite fun h => hparameters (mt (hdone _) h)]

theorem Told.reads_json {v : Json} (h : c.Told Json.vocabulary v) : decoder.Reads v c := by
  obtain ⟨rfl, hfields, hdescription, htimeout, hparameters⟩ := h
  refine Json.Decoder.Form.Builds.reads (?_ : Json.Decoder.Form.Builds _ _ c c.draft) (.refl _)
  refine ⟨hfields.nodup, rfl, hfields.each ?_, fun done hdone => ?_⟩
  · simp only [List.forall_mem_cons, List.not_mem_nil, false_implies, implies_true, and_true]
    refine ⟨?_, ?_, ?_⟩
    · rintro _ rfl done hnew
      exact .of_map rfl (Json.Decoder.reads_string c.description) (by simp [draft, hnew])
        (by simp [draft, setDescription])
    · rintro v hv done hnew
      exact .of_map rfl (Json.reads_timeout hv) (by simp [draft, hnew])
        (by simp [draft, setTimeout])
    · rintro _ ⟨items, rfl, hitems⟩ done hnew
      exact .of_map rfl (Json.Decoder.reads_list (hitems.imp fun _ _ h => h.reads_json))
        (by simp [draft, hnew]) (by simp [draft, setParameters])
  · exact congrArg Except.ok
      (finish_draft (List.forall_mem_map.2 hdone) hdescription htimeout hparameters)

theorem Told.nesting_le {v : Json} (h : c.Told Json.vocabulary v) : v.nesting ≤ 3 := by
  obtain ⟨rfl, hfields, -, -, -⟩ := h
  refine Json.nesting_object_le.2 (hfields.each ?_)
  simp only [List.forall_mem_cons, List.not_mem_nil, false_implies, implies_true, and_true]
  refine ⟨?_, ?_, ?_⟩
  · rintro _ rfl
    exact Nat.zero_le 2
  · cases c.timeout <;> rintro _ rfl <;> exact Nat.zero_le 2
  · rintro _ ⟨items, rfl, hitems⟩
    rw [Json.nesting_array_le]
    exact ((List.forall₂_and_left items c.parameters).1
      (hitems.imp fun v p hv => ⟨hv.nesting_le, hv⟩)).1

theorem Told.reads_yaml {v : Yaml.Node} (h : c.Told Yaml.vocabulary v) :
    yamlDecoder.Reads v c := by
  obtain ⟨hobject, hfields, hdescription, htimeout, hparameters⟩ := h
  refine Yaml.Decoder.Builds.reads (?_ : Yaml.Decoder.Builds _ _ _ _ c c.draft) hobject
  refine ⟨hfields.nodup, rfl, hfields.each ?_, fun done hdone => ?_⟩
  · simp only [List.forall_mem_cons, List.not_mem_nil, false_implies, implies_true, and_true]
    refine ⟨?_, ?_, ?_⟩
    · rintro _ ⟨style, tag, mark, rfl⟩ done hnew
      exact ⟨_, _, rfl, by simp [draft, hnew],
        (Yaml.Decoder.reads_text _ _ _ _ _).map setDescription, by simp [draft, setDescription]⟩
    · rintro v hv done hnew
      exact ⟨_, _, rfl, by simp [draft, hnew], (Yaml.reads_timeout hv).map setTimeout,
        by simp [draft, setTimeout]⟩
    · rintro v ⟨items, hlist, hitems⟩ done hnew
      exact ⟨_, _, rfl, by simp [draft, hnew], (Yaml.Decoder.reads_list hlist
        (hitems.imp fun _ _ h => h.reads_yaml)).map setParameters, by simp [draft, setParameters]⟩
  · exact congrArg Except.ok
      (finish_draft (List.forall_mem_map.2 hdone) hdescription htimeout hparameters)

end FunctionConfig

namespace FunctionTable

variable {t : FunctionTable}

def draft (t : FunctionTable) (done : List String) : Draft :=
  if "functions" ∈ done then some t.functions else none

theorem finish_draft {keys done : List String} (hdone : ∀ key ∈ keys, key ∈ done)
    (h : "functions" ∉ keys → t = .empty) : finish (t.draft done) = t := by
  have hfunctions : "functions" ∉ done → t.functions = .empty := fun hnot =>
    congrArg functions (h (mt (hdone _) hnot))
  exact congrArg mk (getD_ite hfunctions)

theorem Told.reads_json {v : Json} (h : t.Told Json.vocabulary v) : decoder.Reads v t := by
  obtain ⟨rfl, hfields, hfunctions⟩ := h
  refine Json.Decoder.Form.Builds.reads (?_ : Json.Decoder.Form.Builds _ _ t t.draft) (.refl _)
  refine ⟨hfields.nodup, rfl, hfields.each (List.forall_mem_singleton.2 ?_), fun done hdone => ?_⟩
  · rintro _ ⟨functions, entries, rfl, hp, hentries⟩ done hnew
    have hread : FunctionConfig.decoder.dictionary.Reads _ t.functions :=
      Json.Decoder.reads_dictionary (hentries.imp fun _ _ h => ⟨h.1, h.2.reads_json⟩) hp
    exact .of_map rfl hread (by simp [draft, hnew]) (by simp [draft])
  · exact congrArg Except.ok (finish_draft (List.forall_mem_map.2 hdone) hfunctions)

/-- A document is nested no deeper than texts may be. -/
theorem Told.nesting_le {v : Json} (h : t.Told Json.vocabulary v) : v.nesting ≤ Json.maxDepth := by
  refine Nat.le_trans (m := 5) ?_ (by decide)
  obtain ⟨rfl, hfields, -⟩ := h
  refine Json.nesting_object_le.2 (hfields.each (List.forall_mem_singleton.2 ?_))
  rintro _ ⟨functions, entries, rfl, -, hentries⟩
  rw [Json.nesting_object_le]
  exact ((List.forall₂_and_left functions entries).1
    (hentries.imp fun m e he => ⟨he.2.nesting_le, he⟩)).1

theorem Told.reads_yaml {v : Yaml.Node} (h : t.Told Yaml.vocabulary v) :
    yamlDecoder.Reads v t := by
  obtain ⟨hobject, hfields, hfunctions⟩ := h
  refine Yaml.Decoder.Builds.reads (?_ : Yaml.Decoder.Builds _ _ _ _ t t.draft) hobject
  refine ⟨hfields.nodup, rfl, hfields.each (List.forall_mem_singleton.2 ?_), fun done hdone => ?_⟩
  · rintro v ⟨functions, entries, hfunctions, hp, hentries⟩ done hnew
    have hread : FunctionConfig.yamlDecoder.dictionary.Reads v t.functions :=
      Yaml.Decoder.reads_dictionary hfunctions (hentries.imp fun _ _ h => ⟨h.1, h.2.reads_yaml⟩) hp
    exact ⟨_, _, rfl, by simp [draft, hnew], hread.map _, by simp [draft]⟩
  · exact congrArg Except.ok (finish_draft (List.forall_mem_map.2 hdone) hfunctions)

/-- A text in JSON brings the table that it tells of, however it is laid out. -/
theorem Told.decodeText_json {v : Json} (h : t.Told Json.vocabulary v) {l : Json.Layout}
    (hl : l.Proper) : decoder.decodeText (String.ofList (Json.print l 0 v)) = .ok t :=
  h.reads_json.decodeText hl h.nesting_le

end FunctionTable

end RequestEngine
