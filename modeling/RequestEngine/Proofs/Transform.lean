import RequestEngine.Agent.Builtin
import RequestEngine.Proofs.Parsing

/-! The agent that turns values into texts and texts into values, and that each undoes the other. -/
namespace RequestEngine

namespace Transform

theorem jsonParse_text (text : String) : jsonParse (.object [("json", .string text)]) =
    match Json.parse text with
    | .ok v => .ok (.object [("parsed", v)])
    | .error e => .error (.executionFailed ("JSON parse error: " ++ e.message)) := by
  cases h : Json.parse text <;> simp [jsonParse, Json.get?, Entries.find?, Json.string?, h] <;> rfl

theorem call_stringify (v : Json) :
    transformAgent.call "json_stringify" (.object [("value", v)]) =
      .value (.object [("json", .string v.pretty)]) := rfl

theorem call_parse_eq_value_iff {text : String} {answer : Json} :
    transformAgent.call "json_parse" (.object [("json", .string text)]) = .value answer ↔
      ∃ v, Json.parse text = .ok v ∧ answer = .object [("parsed", v)] := by
  have hcall : transformAgent.call "json_parse" (.object [("json", .string text)]) =
    .now (.ofResult (jsonParse (.object [("json", .string text)]))) := rfl
  rw [hcall, jsonParse_text]
  cases Json.parse text with
  | ok w => simp [Reply.value, Reply.now, Ending.ofResult, eq_comm]
  | error e => simp [Reply.value, Reply.now, Ending.ofResult]

/-- The agent writes the value as the text and reads the text as the value. -/
structure Restores (v : Json) (text : String) : Prop where
  written : transformAgent.call "json_stringify" (.object [("value", v)]) =
    .value (.object [("json", .string text)])
  read : transformAgent.call "json_parse" (.object [("json", .string text)]) =
    .value (.object [("parsed", v)])

theorem restores_pretty {v : Json} (hint : v.Integral) (hord : v.Ordered)
    (hdepth : v.nesting ≤ 127) : Restores v v.pretty where
  written := call_stringify v
  read := call_parse_eq_value_iff.2 ⟨v, Json.parse_pretty hint hord hdepth, rfl⟩

/-- Values whose numbers are integers of word size, nested no deeper than texts may be, are written
and read again. So is whatever any text is read as, if it has such numbers only: writing what was
read gives a text that is read and written without further change. -/
theorem parse_stringify_restores :
    (∀ v : Json, v.Integral → v.Ordered → v.nesting ≤ 127 → ∃ text, Restores v text) ∧
      ∀ text answer,
        transformAgent.call "json_parse" (.object [("json", .string text)]) = .value answer →
        ∃ v, answer = .object [("parsed", v)] ∧ (v.Integral → ∃ text', Restores v text') := by
  refine ⟨fun v hint hord hdepth => ⟨v.pretty, restores_pretty hint hord hdepth⟩, ?_⟩
  intro text answer hanswer
  obtain ⟨v, hparse, rfl⟩ := call_parse_eq_value_iff.1 hanswer
  obtain ⟨hdepth, hord⟩ := Json.of_parse hparse
  exact ⟨v, rfl, fun hint => ⟨v.pretty, restores_pretty hint hord hdepth⟩⟩

/-- Both ends of the range, empty containers, and a key that has to be escaped. -/
def mixed : Json :=
  .object [("", .array [.object [], .array []]),
    ("a\"\\\n\x01", .array [.int (-9223372036854775808), .int 18446744073709551615, .null])]

theorem parse_stringify_restores_mixed :
    (mixed.Integral ∧ mixed.Ordered ∧ mixed.nesting ≤ 127 ∧ ∃ text, Restores mixed text) ∧
      transformAgent.call "json_parse" (.object [("json", .string " [1 ,\n2]")]) =
        .value (.object [("parsed", .array [.int 1, .int 2])]) ∧
      ∃ text', Restores (.array [.int 1, .int 2]) text' := by
  have hint : mixed.Integral := by
    simp [mixed, Json.Integral, Json.All, Json.AllItems, Json.AllMembers]
  have hord : mixed.Ordered := Json.ordered_object.2 ⟨List.pairwise_pair.2 (by decide),
    by simp [Json.Ordered, Json.All, Json.AllItems, Json.AllMembers]⟩
  have hdepth : mixed.nesting ≤ 127 := by decide
  have hread : transformAgent.call "json_parse" (.object [("json", .string " [1 ,\n2]")]) =
      .value (.object [("parsed", .array [.int 1, .int 2])]) := by decide +kernel
  refine ⟨⟨hint, hord, hdepth, parse_stringify_restores.1 mixed hint hord hdepth⟩, hread, ?_⟩
  obtain ⟨v, heq, hrestores⟩ := parse_stringify_restores.2 _ _ hread
  cases heq
  exact hrestores (by simp [Json.Integral, Json.All, Json.AllItems])

end Transform

end RequestEngine
