import RequestEngine.Function.File
import RequestEngine.Proofs.Bytes
import RequestEngine.Proofs.Documents

/-! What is found in a configuration file. The content is looked at first, then its text, then the
extension of the name, and then the text is read in that format; each step can fail in a way of its
own. A file that tells of a table brings that table. -/
namespace RequestEngine

section

variable {separator : Char} {l : List Char}

theorem parts_ne_nil (separator : Char) (l : List Char) : parts separator l ≠ [] := by
  cases l with
  | nil => exact List.cons_ne_nil _ _
  | cons c l =>
    rw [parts]
    split
    · exact List.cons_ne_nil _ _
    · split <;> exact List.cons_ne_nil _ _

theorem eq_nil_of_parts (h : parts separator l = [[]]) : l = [] := by
  cases l with
  | nil => rfl
  | cons c l =>
    rw [parts] at h
    split at h
    · exact absurd (List.cons.inj h).2 (parts_ne_nil separator l)
    · split at h <;> cases h

theorem parts_of_not_mem (h : separator ∉ l) : parts separator l = [l] := by
  induction l with
  | nil => rfl
  | cons c l ih =>
    rw [List.mem_cons, not_or] at h
    rw [parts, if_neg (Ne.symm h.1), ih h.2]

theorem parts_append_cons (front l : List Char) :
    parts separator (front ++ separator :: l) = parts separator front ++ parts separator l := by
  induction front with
  | nil => simp [parts]
  | cons c front ih =>
    rw [List.cons_append, parts, parts, ih]
    split
    · rfl
    · obtain ⟨first, others, hparts⟩ := List.exists_cons_of_ne_nil (parts_ne_nil separator front)
      rw [hparts]
      rfl

theorem exists_parts_append (h : separator ∉ l) (front : List Char) :
    ∃ before last, parts separator (front ++ l) = before ++ [last ++ l] := by
  induction front with
  | nil => exact ⟨[], [], parts_of_not_mem h⟩
  | cons c front ih =>
    obtain ⟨before, last, hparts⟩ := ih
    rw [List.cons_append, parts, hparts]
    split
    · exact ⟨[] :: before, last, rfl⟩
    · cases before with
      | nil => exact ⟨[], c :: last, rfl⟩
      | cons first before => exact ⟨(c :: first) :: before, last, rfl⟩

end

theorem extensionOfName?_append {front letters : List Char} (hfront : front ≠ [])
    (h : '.' ∉ letters) : extensionOfName? (front ++ '.' :: letters) = some letters := by
  obtain ⟨first, rest, hparts⟩ :=
    List.exists_cons_of_ne_nil (mt List.reverse_eq_nil_iff.1 (parts_ne_nil '.' front))
  rw [extensionOfName?, parts_append_cons, parts_of_not_mem h, List.reverse_append, hparts]
  refine if_neg ?_
  rintro ⟨rfl, rfl⟩
  rw [List.reverse_eq_cons_iff] at hparts
  exact hfront (eq_nil_of_parts hparts)

theorem extension?_append {front letters : List Char} {c : Char} (hc : c ≠ '/')
    (hletters : letters ≠ []) (hpoint : '.' ∉ letters) (hslash : '/' ∉ letters) :
    extension? (front ++ c :: '.' :: letters) = some letters := by
  have hnot : '/' ∉ c :: '.' :: letters := by simp [hslash, hc.symm]
  obtain ⟨before, last, hparts⟩ := exists_parts_append hnot front
  have hkept : [last ++ c :: '.' :: letters].filter (fun s => s ≠ [] ∧ s ≠ ['.']) =
      [last ++ c :: '.' :: letters] := by
    rw [List.filter_eq_self, List.forall_mem_singleton]
    simp [List.append_eq_cons_iff]
  rw [extension?, hparts, List.filter_append, hkept, List.getLast?_concat]
  dsimp only
  rw [if_neg, ← List.singleton_append, ← List.append_assoc]
  · exact extensionOfName?_append (by simp) hpoint
  · intro hdots
    have hlength := congrArg List.length hdots
    have hpositive := List.length_pos_of_ne_nil hletters
    simp only [List.length_append, List.length_cons, List.length_nil] at hlength
    omega

/-- The name of a file ends in an extension, in small or capital letters. -/
def EndsIn (path extension : String) : Prop :=
  ∃ front c letters, path.toList = front ++ c :: '.' :: letters ∧ c ≠ '/' ∧
    letters.map Char.toLower = extension.toList

def smallExtension? (path : String) : Option String :=
  (extension? path.toList).map fun letters => String.ofList (letters.map Char.toLower)

theorem EndsIn.smallExtension? {path extension : String} (h : EndsIn path extension)
    (hne : extension ≠ "") (hpoint : '.' ∉ extension.toList) (hslash : '/' ∉ extension.toList) :
    smallExtension? path = some extension := by
  obtain ⟨front, c, letters, hpath, hc, hletters⟩ := h
  have hlower : ∀ d, d.toLower = d → d ∉ extension.toList → d ∉ letters := by
    intro d hd hnot hmem
    rw [← hletters] at hnot
    exact hnot (List.mem_map.2 ⟨d, hmem, hd⟩)
  have hnil : letters ≠ [] := by
    rintro rfl
    exact hne (String.toList_eq_nil_iff.1 hletters.symm)
  rw [RequestEngine.smallExtension?, hpath, extension?_append hc hnil (hlower '.' (by decide) hpoint)
    (hlower '/' (by decide) hslash), Option.map_some, hletters, String.ofList_toList]

namespace FunctionTable

/-- What is found in a file of some name and content: a table, or why there is none. -/
inductive Found (path : String) :
    Except FileFault ByteArray → Except ConfigError FunctionTable → Prop
  | unread (fault : FileFault) : Found path (.error fault) (.error (.io fault))
  | notText {bytes : ByteArray} (h : ∀ text : String, text.toByteArray ≠ bytes) :
      Found path (.ok bytes) (.error (.io .notText))
  | json (text : String) (hpath : smallExtension? path = some "json") :
      Found path (.ok text.toByteArray) ((decoder.decodeText text).mapError .json)
  | yaml (text : String)
      (hpath : smallExtension? path = some "yaml" ∨ smallExtension? path = some "yml") :
      Found path (.ok text.toByteArray) ((yamlDecoder.decodeText text).mapError .yaml)
  | unsupported (text : String)
      (hpath : ∀ extension ∈ smallExtension? path, extension ∉ ["json", "yaml", "yml"]) :
      Found path (.ok text.toByteArray) (.error (.unsupportedFormat path))

theorem ofPath?_eq (path : String) : ConfigFormat.ofPath? path =
    (smallExtension? path).bind fun extension =>
      if extension = "json" then some .json
      else if extension = "yaml" ∨ extension = "yml" then some .yaml else none := by
  have hofList : ∀ (letters : List Char) (s : String),
      String.ofList letters = s ↔ letters = s.toList := fun letters s =>
    ⟨fun h => by rw [← h, String.toList_ofList], fun h => by rw [h, String.ofList_toList]⟩
  rw [ConfigFormat.ofPath?, smallExtension?]
  cases extension? path.toList with
  | none => rfl
  | some letters =>
    simp only [Option.map_some, Option.bind_some, hofList]
    rfl

theorem ofFile_text (path text : String) : ofFile path (.ok text.toByteArray) =
    match ConfigFormat.ofPath? path with
    | some .json => (decoder.decodeText text).mapError .json
    | some .yaml => (yamlDecoder.decodeText text).mapError .yaml
    | none => .error (.unsupportedFormat path) := by
  unfold ofFile
  dsimp only [Except.mapError, bind, Except.bind]
  rw [textOfBytes_toByteArray]
  rfl

theorem ofFile_notText (path : String) {bytes : ByteArray}
    (h : ∀ text : String, text.toByteArray ≠ bytes) :
    ofFile path (.ok bytes) = .error (.io .notText) := by
  have hbytes : textOfBytes bytes = .error .notText := by
    rw [textOfBytes, String.fromUTF8?]
    split
    · rename_i hsome
      split at hsome
      · rename_i hvalid
        exact absurd rfl (h (String.fromUTF8 bytes hvalid))
      · cases hsome
    · rfl
  unfold ofFile
  dsimp only [Except.mapError, bind, Except.bind]
  rw [hbytes]

theorem Found.ofFile_eq {path : String} {content : Except FileFault ByteArray}
    {result : Except ConfigError FunctionTable} (h : Found path content result) :
    ofFile path content = result := by
  cases h with
  | unread fault => rfl
  | notText h => exact ofFile_notText path h
  | json text hpath => rw [ofFile_text, ofPath?_eq, hpath]; rfl
  | yaml text hpath =>
    rw [ofFile_text, ofPath?_eq]
    obtain hpath | hpath := hpath <;> rw [hpath] <;> rfl
  | unsupported text hpath =>
    rw [ofFile_text, ofPath?_eq]
    cases hextension : smallExtension? path with
    | none => rfl
    | some extension =>
      have hnone := hpath extension hextension
      simp only [List.mem_cons, List.not_mem_nil, or_false, not_or] at hnone
      simp [hnone]

theorem found_ofFile (path : String) (content : Except FileFault ByteArray) :
    Found path content (ofFile path content) := by
  cases content with
  | error fault => exact .unread fault
  | ok bytes =>
    by_cases htext : ∃ text : String, text.toByteArray = bytes
    · obtain ⟨text, rfl⟩ := htext
      rw [ofFile_text, ofPath?_eq]
      cases hextension : smallExtension? path with
      | none => exact .unsupported text (by simp [hextension])
      | some extension =>
        rw [Option.bind_some]
        split_ifs with hjson hyaml
        · exact .json text (hextension.trans (congrArg some hjson))
        · exact .yaml text (by simpa [hextension] using hyaml)
        · refine .unsupported text fun other hother => ?_
          rw [hextension] at hother
          cases hother
          simpa [hjson] using hyaml
    · have hnot : ∀ text : String, text.toByteArray ≠ bytes := fun text h => htext ⟨text, h⟩
      rw [ofFile_notText path hnot]
      exact .notText hnot

/-- A file whose content tells of a table, in the format of its extension. -/
inductive Tells (path : String) : ByteArray → FunctionTable → Prop
  | json {t : FunctionTable} {v : Json} {l : Json.Layout} (hpath : EndsIn path "json")
      (h : t.Told Json.vocabulary v) (hl : l.Proper) :
      Tells path (String.ofList (Json.print l 0 v)).toByteArray t
  | yaml {t : FunctionTable} {text : String} {document : Yaml.Document}
      (hpath : EndsIn path "yaml" ∨ EndsIn path "yml")
      (htext : Yaml.document? text = some document) (h : t.Told Yaml.vocabulary document.root) :
      Tells path text.toByteArray t

/-- A file whose content is not even a document in the format of its extension: it begins neither an
object nor a list of JSON, or is not one document of YAML. -/
inductive Malformed (path : String) : ByteArray → Prop
  | json {text : String} (hpath : EndsIn path "json")
      (h : ∀ c ∈ (text.toList.dropWhile Json.Reader.isBlank).head?, c ≠ '{' ∧ c ≠ '[') :
      Malformed path text.toByteArray
  | yaml {text : String} (hpath : EndsIn path "yaml" ∨ EndsIn path "yml")
      (h : Yaml.document? text = none) : Malformed path text.toByteArray

theorem found_of_json {path : String} (hpath : EndsIn path "json") (text : String) :
    Found path (.ok text.toByteArray) ((decoder.decodeText text).mapError .json) :=
  .json text (hpath.smallExtension? (by decide) (by decide) (by decide))

theorem found_of_yaml {path : String} (hpath : EndsIn path "yaml" ∨ EndsIn path "yml")
    (text : String) :
    Found path (.ok text.toByteArray) ((yamlDecoder.decodeText text).mapError .yaml) :=
  .yaml text (hpath.imp (·.smallExtension? (by decide) (by decide) (by decide))
    (·.smallExtension? (by decide) (by decide) (by decide)))

theorem Tells.found {path : String} {content : ByteArray} {t : FunctionTable}
    (h : Tells path content t) : Found path (.ok content) (.ok t) := by
  cases h with
  | @json t v l hpath h hl =>
    have hfound := found_of_json hpath (String.ofList (Json.print l 0 v))
    rwa [h.decodeText_json hl] at hfound
  | @yaml t text document hpath htext h =>
    have hfound := found_of_yaml hpath text
    rwa [h.reads_yaml.decodeText htext] at hfound

theorem Malformed.found {path : String} {content : ByteArray} (h : Malformed path content) :
    ∃ err, Found path (.ok content) (.error err) := by
  cases h with
  | @json text hpath h =>
    have hfound := found_of_json hpath text
    cases hdecode : decoder.decodeText text with
    | ok t =>
      obtain ⟨c, hc, hopens⟩ := Json.Decoder.opens_of_decodeText hdecode
      exact absurd hopens (not_or.2 (h c hc))
    | error e =>
      rw [hdecode] at hfound
      exact ⟨.json e, hfound⟩
  | @yaml text hpath h =>
    have hfound := found_of_yaml hpath text
    rw [Yaml.Decoder.decodeText, h] at hfound
    exact ⟨.yaml .malformed, hfound⟩

example : ((ofFile "c.YML" (.ok "functions:\n  f:\n    timeout_ms: 5\n".toByteArray)).toOption.bind
    (·.get? "f")).bind (·.timeout) = some 5 := by decide +kernel

end FunctionTable

end RequestEngine
