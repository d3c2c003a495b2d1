import RequestEngine.CommandLine.Program
import RequestEngine.Proofs.Bytes
import RequestEngine.Proofs.Documents
import RequestEngine.Proofs.Lists

/-! Function tables that are written and read again, as values, as texts and as files. However the
fields and the functions are ordered in what is written, the same table is read. -/
namespace RequestEngine

namespace Files

variable {files files' : Files} {path : String} {content : ByteArray} {here way : List String}

def put (files : Files) (way : List String) (content : ByteArray) : Files :=
  ⟨(way, .file content) :: files.entries.filter (·.1 ≠ way)⟩

theorem at?_put_self (h : way ≠ []) : (files.put way content).at? way = some (.file content) := by
  have hlookup : (files.put way content).entries.lookup way = some (.file content) := by
    simp [put]
  unfold at?
  rw [hlookup]
  cases way with
  | nil => exact absurd rfl h
  | cons step way => rfl

theorem at?_put_of_directory (h : files.at? here = some .directory) (hne : here ≠ way) :
    (files.put way content).at? here = some .directory := by
  have hbeq : (here == way) = false := beq_eq_false_iff_ne.2 hne
  have hlookup : (files.put way content).entries.lookup here = files.entries.lookup here := by
    rw [put, List.lookup_cons, hbeq]
    exact lookup_filter_ne hne files.entries
  unfold at? at h ⊢
  rw [hlookup]
  cases here with
  | nil => rfl
  | cons step here =>
    cases hnode : files.entries.lookup (step :: here) with
    | some node => rwa [hnode] at h
    | none =>
      rw [hnode] at h
      simp only [ite_eq_left_iff, reduceCtorEq, imp_false, not_not] at h ⊢
      obtain ⟨e, he, hbelow⟩ := List.any_eq_true.1 h
      by_cases heq : e.1 = way
      · exact List.any_eq_true.2 ⟨_, List.mem_cons_self, heq ▸ hbelow⟩
      · refine List.any_eq_true.2 ⟨e, List.mem_cons_of_mem _ ?_, hbelow⟩
        exact List.mem_filter.2 ⟨he, by simpa using heq⟩

/-- Steps through directories lead to where they led before. -/
theorem walk_put (hway : files.at? way ≠ some .directory) :
    ∀ {steps here there : List String}, files.walk here steps = .ok there →
      (files.put way content).walk here steps = .ok there
  | [], here, there, h => h
  | step :: steps, here, there, h => by
    rw [walk] at h ⊢
    cases hnode : files.at? here with
    | none =>
      rw [hnode] at h
      cases h
    | some node =>
      rw [hnode] at h
      cases node with
      | file _ => cases h
      | directory =>
        have hne : here ≠ way := fun heq => hway (heq ▸ hnode)
        rw [at?_put_of_directory hnode hne]
        dsimp only at h ⊢
        split_ifs at h ⊢ with hstay hup hlong hroot
        · exact walk_put hway h
        · exact walk_put hway h
        · exact walk_put hway h

theorem way_put {way : List String} (h : files.way path = .ok way)
    (hway : files.at? way ≠ some .directory) : (files.put way content).way path = .ok way := by
  rw [Files.way] at h ⊢
  split_ifs at h ⊢
  exact walk_put hway h

theorem exists_of_write (h : files.write path content = .ok files') :
    ∃ way, files.way path = .ok way ∧ files.at? way ≠ some .directory ∧
      files' = files.put way content := by
  unfold write at h
  cases hway : files.way path with
  | error e =>
    rw [hway] at h
    cases h
  | ok way =>
    rw [hway] at h
    dsimp only [bind, Except.bind] at h
    refine ⟨way, rfl, fun hdirectory => ?_, ?_⟩
    · rw [hdirectory] at h
      cases h
    · split at h
      · cases h
      · split_ifs at h
        exact (Except.ok.inj h).symm
      · cases h
      · cases h

theorem read_write (h : files.write path content = .ok files') :
    files'.read path = .ok content := by
  obtain ⟨way, hway, hdirectory, rfl⟩ := exists_of_write h
  have hne : way ≠ [] := by
    rintro rfl
    exact hdirectory rfl
  unfold read
  rw [way_put hway hdirectory]
  dsimp only [bind, Except.bind]
  rw [at?_put_self hne]
  rfl

end Files

namespace ParameterSpec

variable {p : ParameterSpec} {v : Json}

/-- An object with the fields of the parameter, in any order. -/
inductive Written (p : ParameterSpec) : Json → Prop
  | object {members : List (String × Json)} (h : members.Perm
      [("name", .string p.name), ("required", .bool p.required), ("type", .string p.kind)]) :
      Written p (.object members)

theorem Written.told (h : p.Written v) : p.Told Json.vocabulary v := by
  cases h with
  | object hp =>
    have hkeys := hp.map (·.1)
    refine .object rfl ⟨hkeys.nodup_iff.2 (by simp), fun m hm => ?_⟩
      (hkeys.mem_iff.2 (by simp)) (absurd (hkeys.mem_iff.2 (by simp)))
      (absurd (hkeys.mem_iff.2 (by simp)))
    have hm := hp.mem_iff.1 hm
    simp only [List.mem_cons, List.not_mem_nil, or_false] at hm
    obtain rfl | rfl | rfl := hm <;> simp [Json.vocabulary]

theorem written_toJson (p : ParameterSpec) : p.Written p.toJson := .object (.refl _)

end ParameterSpec

namespace FunctionConfig

variable {c : FunctionConfig} {v : Json}

/-- An object with the fields of the function, in any order, and its parameters in theirs. -/
inductive Written (c : FunctionConfig) : Json → Prop
  | object {parameters : List Json} {members : List (String × Json)}
      (hparameters : List.Forall₂ (fun v p => p.Written v) parameters c.parameters)
      (h : members.Perm [("description", .string c.description),
        ("parameters", .array parameters), ("timeout_ms", .ofOption .word c.timeout)]) :
      Written c (.object members)

theorem Written.told (h : c.Written v) : c.Told Json.vocabulary v := by
  cases h with
  | @object parameters members hparameters hp =>
    have hkeys := hp.map (·.1)
    refine .object rfl ⟨hkeys.nodup_iff.2 (by simp), fun m hm => ?_⟩
      (absurd (hkeys.mem_iff.2 (by simp))) (absurd (hkeys.mem_iff.2 (by simp)))
      (absurd (hkeys.mem_iff.2 (by simp)))
    have hm := hp.mem_iff.1 hm
    have htold := hparameters.imp fun _ _ h => h.told
    simp only [List.mem_cons, List.not_mem_nil, or_false] at hm
    obtain rfl | rfl | rfl := hm
    · simp [Json.vocabulary]
    · simpa [Json.vocabulary] using htold
    · cases c.timeout <;> simp [Json.vocabulary, Vocabulary.timeout, Json.ofOption]

theorem written_toJson (c : FunctionConfig) : c.Written c.toJson :=
  .object (List.forall₂_map_left_iff.2 (List.forall₂_same.2 fun p _ => p.written_toJson)) (.refl _)

end FunctionConfig

namespace FunctionTable

variable {t : FunctionTable} {v : Json}

/-- An object with the functions, in any order. -/
inductive Written (t : FunctionTable) : Json → Prop
  | object {entries : List (String × FunctionConfig)} {members : List (String × Json)}
      (hp : entries.Perm t.functions.entries)
      (h : List.Forall₂ (fun m e => m.1 = e.1 ∧ e.2.Written m.2) members entries) :
      Written t (.object [("functions", .object members)])

theorem written_toJson (t : FunctionTable) : t.Written t.toJson :=
  .object (.refl _) (List.forall₂_map_left_iff.2
    (List.forall₂_same.2 fun e _ => ⟨rfl, e.2.written_toJson⟩))

theorem Written.told (h : t.Written v) : t.Told Json.vocabulary v := by
  cases h with
  | object hp h =>
    refine .object rfl ⟨by simp, fun m hm => ?_⟩ (absurd (by simp))
    obtain rfl := List.mem_singleton.1 hm
    exact ⟨_, List.mem_singleton_self _, rfl, _, _, rfl, hp, h.imp fun _ _ h => ⟨h.1, h.2.told⟩⟩

/-- Whatever is asked of the two tables is answered alike. -/
structure Alike (t t' : FunctionTable) : Prop where
  config : ∀ function, t'.get? function = t.get? function
  required : ∀ function, (t'.get? function).map (·.required) = (t.get? function).map (·.required)
  timeout : ∀ function default, t'.timeout function default = t.timeout function default
  missing : ∀ function parameters,
    t'.missingParameter? function parameters = t.missingParameter? function parameters

/-- What was written under a name for JSON is read from the file. -/
theorem ofFile_read (h : t.Written v) {path : String} {extension : List Char}
    (hextension : extension? path.toList = some extension)
    (hjson : extension.map Char.toLower = ['j', 's', 'o', 'n']) {files files' : Files}
    (hwrite : files.write path v.pretty.toByteArray = .ok files') :
    ofFile path (files'.read path) = .ok t := by
  have hformat : ConfigFormat.ofPath? path = some .json := by
    rw [ConfigFormat.ofPath?, hextension]
    exact if_pos hjson
  have htext : decoder.decodeText v.pretty = .ok t :=
    h.told.decodeText_json Json.Layout.proper_pretty
  unfold ofFile
  rw [Files.read_write hwrite]
  dsimp only [Except.mapError, bind, Except.bind]
  rw [textOfBytes_toByteArray, hformat]
  dsimp only
  rw [htext]

/-- Every table is read from the file it was written to, whose name has an extension for JSON in
small or capital letters. Whatever value a table is made of, what is written for that table makes
the same table again, so that all questions to it have the same answers. -/
theorem ofFile_write_preserves :
    (∀ t : FunctionTable, t.Written t.toJson) ∧
    (∀ (t : FunctionTable) (v : Json), t.Written v → ∀ path extension,
      extension? path.toList = some extension →
      extension.map Char.toLower = ['j', 's', 'o', 'n'] →
      ∀ files files' : Files, files.write path v.pretty.toByteArray = .ok files' →
        ofFile path (files'.read path) = .ok t) ∧
    ∀ (v : Json) (t : FunctionTable), decoder.decode v = .ok t → ∀ v', t.Written v' →
      decoder.decode v' = decoder.decode v ∧ ∀ t', decoder.decode v' = .ok t' → Alike t t' := by
  refine ⟨written_toJson, ?_, ?_⟩
  · intro t v h path extension hextension hjson files files' hwrite
    exact ofFile_read h hextension hjson hwrite
  · intro v t hdecode v' h
    have hagain : decoder.decode v' = .ok t := h.told.reads_json.decode
    refine ⟨hagain.trans hdecode.symm, fun t' ht' => ?_⟩
    rw [hagain] at ht'
    cases ht'
    exact ⟨fun _ => rfl, fun _ => rfl, fun _ _ => rfl, fun _ _ => rfl⟩

theorem write_empty (content : ByteArray) :
    Files.empty.write "f.JSON" content = .ok (Files.empty.put ["f.JSON"] content) := by
  have hway : Files.empty.way "f.JSON" = .ok ["f.JSON"] := by
    simp [Files.way, parts, Files.walk, Files.at?]
    decide
  have hends : "f.JSON".endsWith "/" = false := by decide +kernel
  unfold Files.write
  rw [hway]
  dsimp only [bind, Except.bind]
  rw [hends]
  rfl

/-- A function with its fields left out or null, beside a field that no table has. -/
def sparse : Json :=
  .object [("functions", .object [("f", .object [("timeout_ms", .null)])]), ("more", .int 1)]

theorem ofFile_write_preserves_example :
    (∃ files, Files.empty.write "f.JSON" CommandLine.exampleTable.toJson.pretty.toByteArray =
        .ok files ∧
      ofFile "f.JSON" (files.read "f.JSON") = .ok CommandLine.exampleTable) ∧
    ∃ t, decoder.decode sparse = .ok t ∧ decoder.decode t.toJson = decoder.decode sparse := by
  obtain ⟨htoJson, hfile, hvalue⟩ := ofFile_write_preserves
  refine ⟨⟨_, write_empty _, ?_⟩, ⟨.ofList [("f", ⟨"", none, []⟩)]⟩, rfl, ?_⟩
  · exact hfile _ _ (htoJson _) "f.JSON" ['J', 'S', 'O', 'N'] (by decide) (by decide) _ _
      (write_empty _)
  · exact (hvalue sparse _ rfl _ (htoJson _)).1

end FunctionTable

end RequestEngine
