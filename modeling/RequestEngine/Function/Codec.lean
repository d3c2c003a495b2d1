import RequestEngine.Function.Config
import RequestEngine.Json.Decoder
import RequestEngine.Yaml.Decoder

/-! Function tables as JSON in both directions, and read from YAML. -/
namespace RequestEngine

namespace ParameterSpec

def toJson (p : ParameterSpec) : Json :=
  .object [("name", .string p.name), ("required", .bool p.required), ("type", .string p.kind)]

/-- A parameter whose fields are still being read. -/
structure Draft where
  name : Option String
  kind : Option String
  required : Option Bool

/-- Only the name has to be there. -/
def Draft.finish? (d : Draft) : Option ParameterSpec :=
  d.name.map fun name => ⟨name, d.kind.getD "", d.required.getD false⟩

def setName (v : String) (d : Draft) : Draft := { d with name := some v }
def setKind (v : String) (d : Draft) : Draft := { d with kind := some v }
def setRequired (v : Bool) (d : Draft) : Draft := { d with required := some v }

def decoder : Json.Decoder ParameterSpec :=
  .record {
    name := "ParameterSpec"
    fields := [
      ⟨"name", Json.Decoder.string.map setName, (·.name.isSome), false⟩,
      ⟨"type", Json.Decoder.string.map setKind, (·.kind.isSome), true⟩,
      ⟨"required", Json.Decoder.boolean.map setRequired, (·.required.isSome), true⟩]
    blank := ⟨none, none, none⟩
    finish := fun d => Json.Decoder.required "name" d.finish? }

def yamlDecoder : Yaml.Decoder ParameterSpec :=
  .record "ParameterSpec" [
      ⟨"name", (Yaml.Decoder.text "a string").map setName, (·.name.isSome)⟩,
      ⟨"type", (Yaml.Decoder.text "a string").map setKind, (·.kind.isSome)⟩,
      ⟨"required", Yaml.Decoder.boolean.map setRequired, (·.required.isSome)⟩]
    ⟨none, none, none⟩
    fun d => match d.finish? with
      | some p => .ok p
      | none => .error (.missingField "name")

end ParameterSpec

namespace FunctionConfig

def toJson (c : FunctionConfig) : Json :=
  .object [("description", .string c.description),
    ("parameters", .array (c.parameters.map ParameterSpec.toJson)),
    ("timeout_ms", .ofOption .word c.timeout)]

structure Draft where
  description : Option String
  timeout : Option (Option UInt64)
  parameters : Option (List ParameterSpec)

def Draft.finish (d : Draft) : FunctionConfig :=
  ⟨d.description.getD "", d.timeout.getD none, d.parameters.getD []⟩

def setDescription (v : String) (d : Draft) : Draft := { d with description := some v }
def setTimeout (v : Option UInt64) (d : Draft) : Draft := { d with timeout := some v }
def setParameters (v : List ParameterSpec) (d : Draft) : Draft := { d with parameters := some v }

def decoder : Json.Decoder FunctionConfig :=
  .record {
    name := "FunctionConfig"
    fields := [
      ⟨"description", Json.Decoder.string.map setDescription, (·.description.isSome), true⟩,
      ⟨"timeout_ms", (Json.Decoder.word "u64").nullable.map setTimeout, (·.timeout.isSome), true⟩,
      ⟨"parameters", ParameterSpec.decoder.list.map setParameters, (·.parameters.isSome), true⟩]
    blank := ⟨none, none, none⟩
    finish := fun d => .ok d.finish }

def yamlDecoder : Yaml.Decoder FunctionConfig :=
  .record "FunctionConfig" [
      ⟨"description", (Yaml.Decoder.text "a string").map setDescription, (·.description.isSome)⟩,
      ⟨"timeout_ms", (Yaml.Decoder.word "u64").nullable.map setTimeout, (·.timeout.isSome)⟩,
      ⟨"parameters", ParameterSpec.yamlDecoder.list.map setParameters, (·.parameters.isSome)⟩]
    ⟨none, none, none⟩
    fun d => .ok d.finish

end FunctionConfig

namespace FunctionTable

def toJson (t : FunctionTable) : Json :=
  .object [("functions", .object (t.functions.entries.map fun e => (e.1, e.2.toJson)))]

abbrev Draft := Option (Dictionary FunctionConfig)

def finish (d : Draft) : FunctionTable := ⟨d.getD .empty⟩

def decoder : Json.Decoder FunctionTable :=
  .record {
    name := "FunctionConfigDocument"
    fields := [⟨"functions", FunctionConfig.decoder.dictionary.map fun v _ => some v, Option.isSome,
      true⟩]
    blank := none
    finish := fun d => .ok (finish d) }

def yamlDecoder : Yaml.Decoder FunctionTable :=
  .record "FunctionConfigDocument"
    [⟨"functions", FunctionConfig.yamlDecoder.dictionary.map fun v _ => some v, Option.isSome⟩]
    none fun d => .ok (finish d)

end FunctionTable

end RequestEngine
