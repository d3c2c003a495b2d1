import RequestEngine.Request.Event
import RequestEngine.Request.Record
import RequestEngine.Time.Rfc3339

/-! Records and events as JSON, in both directions. -/
namespace RequestEngine

open Json.Decoder (Form required)

def Uuid.decoder : Json.Decoder Uuid :=
  .parsed "a formatted UUID string" fun s =>
    (Uuid.parse s).mapError fun e => .unreadable ("UUID parsing failed: " ++ e.message)

def Instant.decoder : Json.Decoder Instant :=
  .parsed "an RFC 3339 formatted date and time string" fun s =>
    (Instant.parse s).mapError fun e => .unreadable e.message

def Instant.toJson (t : Instant) : Json := .string t.text

namespace RequestRecord

def toJson (r : RequestRecord) : Json :=
  .object [
    ("agent_id", .string r.agent),
    ("error", .ofOption .string r.error),
    ("finished_at", .ofOption Instant.toJson r.finishedAt),
    ("function_name", .string r.function),
    ("id", .string r.id.text),
    ("parameters", r.parameters),
    ("result", .ofOption (fun v => v) r.result),
    ("started_at", .ofOption Instant.toJson r.startedAt),
    ("state", r.state.toJson),
    ("submitted_at", r.submittedAt.toJson),
    ("timeout_ms", .word r.timeout)]

structure Draft where
  id : Option Uuid
  agent : Option String
  function : Option String
  parameters : Option Json
  timeout : Option UInt64
  state : Option RequestState
  result : Option (Option Json)
  error : Option (Option String)
  submittedAt : Option Instant
  startedAt : Option (Option Instant)
  finishedAt : Option (Option Instant)

def Draft.blank : Draft :=
  ⟨none, none, none, none, none, none, none, none, none, none, none⟩

/-- All fields but the four that may be null have to be there. -/
def Draft.finish (d : Draft) : Except Json.Mismatch RequestRecord := do
  return {
    id := ← required "id" d.id
    agent := ← required "agent_id" d.agent
    function := ← required "function_name" d.function
    parameters := ← required "parameters" d.parameters
    timeout := ← required "timeout_ms" d.timeout
    state := ← required "state" d.state
    result := d.result.getD none
    error := d.error.getD none
    submittedAt := ← required "submitted_at" d.submittedAt
    startedAt := d.startedAt.getD none
    finishedAt := d.finishedAt.getD none }

def fields : List (Json.Decoder.Field Draft) := [
  ⟨"id", Uuid.decoder.map fun v d => { d with id := some v }, (·.id.isSome), false⟩,
  ⟨"agent_id", Json.Decoder.string.map fun v d => { d with agent := some v },
    (·.agent.isSome), false⟩,
  ⟨"function_name", Json.Decoder.string.map fun v d => { d with function := some v },
    (·.function.isSome), false⟩,
  ⟨"parameters", Json.Decoder.anyValue.map fun v d => { d with parameters := some v },
    (·.parameters.isSome), false⟩,
  ⟨"timeout_ms", (Json.Decoder.word "u64").map fun v d => { d with timeout := some v },
    (·.timeout.isSome), false⟩,
  ⟨"state", RequestState.decoder.map fun v d => { d with state := some v },
    (·.state.isSome), false⟩,
  ⟨"result", Json.Decoder.anyValue.nullable.map fun v d => { d with result := some v },
    (·.result.isSome), false⟩,
  ⟨"error", Json.Decoder.string.nullable.map fun v d => { d with error := some v },
    (·.error.isSome), false⟩,
  ⟨"submitted_at", Instant.decoder.map fun v d => { d with submittedAt := some v },
    (·.submittedAt.isSome), false⟩,
  ⟨"started_at", Instant.decoder.nullable.map fun v d => { d with startedAt := some v },
    (·.startedAt.isSome), false⟩,
  ⟨"finished_at", Instant.decoder.nullable.map fun v d => { d with finishedAt := some v },
    (·.finishedAt.isSome), false⟩]

def decoder : Json.Decoder RequestRecord :=
  .record ⟨"RequestRecord", fields, .blank, Draft.finish⟩

end RequestRecord

namespace RequestEvent

def toJson : RequestEvent → Json
  | .submitted request agent function time =>
    .object [("agent_id", .string agent), ("function_name", .string function),
      ("request_id", .string request.text), ("timestamp", time.toJson),
      ("type", .string "Submitted")]
  | .started request worker time =>
    .object [("request_id", .string request.text), ("timestamp", time.toJson),
      ("type", .string "Started"), ("worker", .nat worker)]
  | .finished request state error durationMs time =>
    .object [("duration_ms", .nat durationMs), ("error", .ofOption .string error),
      ("request_id", .string request.text), ("state", state.toJson),
      ("timestamp", time.toJson), ("type", .string "Finished")]

/-- An event whose fields are still being read, whatever its type. -/
structure Draft where
  request : Option Uuid
  agent : Option String
  function : Option String
  worker : Option UInt64
  state : Option RequestState
  error : Option (Option String)
  durationMs : Option UInt64
  time : Option Instant

def Draft.blank : Draft := ⟨none, none, none, none, none, none, none, none⟩

def requestField : Json.Decoder.Field Draft :=
  ⟨"request_id", Uuid.decoder.map fun v d => { d with request := some v }, (·.request.isSome),
    false⟩

def timeField : Json.Decoder.Field Draft :=
  ⟨"timestamp", Instant.decoder.map fun v d => { d with time := some v }, (·.time.isSome), false⟩

def submittedForm : Form Draft RequestEvent where
  name := "variant RequestEvent::Submitted"
  fields := [
    requestField,
    ⟨"agent_id", Json.Decoder.string.map fun v d => { d with agent := some v },
      (·.agent.isSome), false⟩,
    ⟨"function_name", Json.Decoder.string.map fun v d => { d with function := some v },
      (·.function.isSome), false⟩,
    timeField]
  blank := .blank
  finish d := do
    return .submitted (← required "request_id" d.request) (← required "agent_id" d.agent)
      (← required "function_name" d.function) (← required "timestamp" d.time)

def startedForm : Form Draft RequestEvent where
  name := "variant RequestEvent::Started"
  fields := [
    requestField,
    ⟨"worker", (Json.Decoder.word "usize").map fun v d => { d with worker := some v },
      (·.worker.isSome), false⟩,
    timeField]
  blank := .blank
  finish d := do
    return .started (← required "request_id" d.request) (← required "worker" d.worker).toNat
      (← required "timestamp" d.time)

/-- Inside an event, an empty object counts as no content of a state. -/
def stateDecoder : Json.Decoder RequestState :=
  RequestState.decoderWith fun v => v = .null ∨ v = .object []

def finishedForm : Form Draft RequestEvent where
  name := "variant RequestEvent::Finished"
  fields := [
    requestField,
    ⟨"state", stateDecoder.map fun v d => { d with state := some v }, (·.state.isSome), false⟩,
    ⟨"error", Json.Decoder.string.nullable.map fun v d => { d with error := some v },
      (·.error.isSome), false⟩,
    ⟨"duration_ms", (Json.Decoder.word "u64").map fun v d => { d with durationMs := some v },
      (·.durationMs.isSome), false⟩,
    timeField]
  blank := .blank
  finish d := do
    return .finished (← required "request_id" d.request) (← required "state" d.state)
      (d.error.getD none) (← required "duration_ms" d.durationMs).toNat
      (← required "timestamp" d.time)

def formOf (tag : Json) : Except Json.Mismatch (Form Draft RequestEvent) :=
  match tag with
  | .string "Submitted" => .ok submittedForm
  | .string "Started" => .ok startedForm
  | .string "Finished" => .ok finishedForm
  | .string s => .error (.unknownVariant s ["Submitted", "Started", "Finished"])
  | v => .error (.wrongType (.of v) "variant identifier")

def ofItems (form : Form Draft RequestEvent) (items : List Json) :
    Except Json.Mismatch RequestEvent := do
  let n := form.fields.length
  let event ← form.finish (← form.fieldsOfValues form.fields 0 (items.take n) form.blank)
  if items.length ≤ n then return event
  throw (.wrongLength items.length (Decimal.text n ++ " elements in sequence"))

/-- An event from an object with its type under a key, or from a list with its type first. -/
def ofJson : Json → Except Json.Mismatch RequestEvent
  | .object members => do
    let form ← formOf (← required "type" (Entries.find? "type" members))
    let content := members.filter (·.1 ≠ "type")
    form.finish (← content.foldlM form.memberOfValue form.blank)
  | .array [] => .error (.missingField "type")
  | .array (tag :: items) => do ofItems (← formOf tag) items
  | v => .error (.wrongType (.of v) "internally tagged enum RequestEvent")

end RequestEvent

end RequestEngine
