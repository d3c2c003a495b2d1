import RequestEngine.Proofs.Decoding
import RequestEngine.Proofs.Record
import RequestEngine.Proofs.Spelling
import RequestEngine.Proofs.Timestamps
import RequestEngine.Request.Codec

/-! Records that are written and read again. What a record went through since it was new is all
there in what is written, and a text is read if its values leave room for the object around them. -/
namespace RequestEngine

theorem Uuid.reads_text (u : Uuid) : Uuid.decoder.Reads (.string u.text) u := by
  refine Json.Decoder.reads_parsed ?_
  have hparse : Uuid.parse u.text = .ok u := Uuid.parse_spell u .hyphenated
  rw [hparse]
  rfl

theorem Instant.reads_toJson {t : Instant} (h : inRange t.date) : decoder.Reads t.toJson t := by
  refine Json.Decoder.reads_parsed ?_
  rw [parse_text h]
  rfl

theorem RequestState.reads_toJson (s : RequestState) : decoder.Reads s.toJson s :=
  Json.Decoder.reads_variant (ofText?_text s)

namespace RequestRecord

variable {r : RequestRecord} {v : Json} {l : Json.Layout}

/-- An object with the fields of the record, in any order. -/
inductive Written (r : RequestRecord) : Json → Prop
  | object {members : List (String × Json)} (h : members.Perm [
      ("agent_id", .string r.agent),
      ("error", .ofOption .string r.error),
      ("finished_at", .ofOption Instant.toJson r.finishedAt),
      ("function_name", .string r.function),
      ("id", .string r.id.text),
      ("parameters", r.parameters),
      ("result", .ofOption (fun v => v) r.result),
      ("started_at", .ofOption Instant.toJson r.startedAt),
      ("state", r.state.toJson),
      ("submitted_at", r.submittedAt.toJson),
      ("timeout_ms", .word r.timeout)]) : Written r (.object members)

theorem written_toJson (r : RequestRecord) : r.Written r.toJson := .object (.refl _)

/-- All times of the record are in years that can be denoted. -/
structure Dated (r : RequestRecord) : Prop where
  submitted : Instant.inRange r.submittedAt.date
  started : ∀ t ∈ r.startedAt, Instant.inRange t.date
  finished : ∀ t ∈ r.finishedAt, Instant.inRange t.date

/-- The values in the record have integers for all their numbers, and the members of their objects
in order. -/
structure Plain (r : RequestRecord) : Prop where
  parameters : r.parameters.Integral ∧ r.parameters.Ordered
  result : ∀ v ∈ r.result, v.Integral ∧ v.Ordered

/-- The record as it can be told from what is written: a result that is null looks like none. -/
def legible (r : RequestRecord) : RequestRecord := { r with result := r.result.filter (· ≠ .null) }

theorem legible_eq (h : r.result ≠ some .null) : r.legible = r := by
  have hresult : r.result.filter (· ≠ .null) = r.result := by
    cases hr : r.result with
    | none => rfl
    | some v =>
      rw [hr] at h
      exact Option.filter_some_pos (by simpa using h)
  rw [legible, hresult]

/-- The draft once the fields of the given names have been read. -/
def draft (r : RequestRecord) (done : List String) : Draft where
  id := if "id" ∈ done then some r.id else none
  agent := if "agent_id" ∈ done then some r.agent else none
  function := if "function_name" ∈ done then some r.function else none
  parameters := if "parameters" ∈ done then some r.parameters else none
  timeout := if "timeout_ms" ∈ done then some r.timeout else none
  state := if "state" ∈ done then some r.state else none
  result := if "result" ∈ done then some r.result else none
  error := if "error" ∈ done then some r.error else none
  submittedAt := if "submitted_at" ∈ done then some r.submittedAt else none
  startedAt := if "started_at" ∈ done then some r.startedAt else none
  finishedAt := if "finished_at" ∈ done then some r.finishedAt else none

theorem reads_time {t : Option Instant} (h : ∀ t' ∈ t, Instant.inRange t'.date) :
    Instant.decoder.nullable.Reads (.ofOption Instant.toJson t) t := by
  cases t with
  | none => exact Json.Decoder.reads_nullable_null _
  | some t => exact (Instant.reads_toJson (h t rfl)).nullable Json.noConfusion

theorem reads_result {o : Option Json} (h : ∀ v ∈ o, v.Integral ∧ v.Ordered) :
    Json.Decoder.anyValue.nullable.Reads (.ofOption (fun v => v) o) (o.filter (· ≠ .null)) := by
  cases o with
  | none => exact Json.Decoder.reads_nullable_null _
  | some v =>
    by_cases hv : v = .null
    · subst hv
      exact Json.Decoder.reads_nullable_null _
    · rw [Option.filter_some_pos (by simpa using hv)]
      exact (Json.Decoder.reads_anyValue (h v rfl).1 (h v rfl).2).nullable hv

theorem Written.reads (h : r.Written v) (hdated : r.Dated) (hplain : r.Plain) :
    decoder.Reads v r.legible := by
  cases h with
  | object hp =>
    have herror := Json.Decoder.reads_ofOption Json.Decoder.reads_string
      (fun s => Json.noConfusion) r.error
    have hparameters := Json.Decoder.reads_anyValue hplain.parameters.1 hplain.parameters.2
    unfold decoder
    refine Json.Decoder.Form.Builds.reads
      (?_ : Json.Decoder.Form.Builds _ _ r.legible r.legible.draft) hp
    refine ⟨by simp, rfl, fun m hm done hnew => ?_, fun done hdone => ?_⟩
    · simp only [List.mem_cons, List.not_mem_nil, or_false] at hm
      obtain rfl | rfl | rfl | rfl | rfl | rfl | rfl | rfl | rfl | rfl | rfl := hm
      · exact .of_map rfl (Json.Decoder.reads_string r.agent) (by simp [draft, hnew])
          (by simp [draft, legible])
      · exact .of_map rfl herror (by simp [draft, hnew]) (by simp [draft, legible])
      · exact .of_map rfl (reads_time hdated.finished) (by simp [draft, hnew])
          (by simp [draft, legible])
      · exact .of_map rfl (Json.Decoder.reads_string r.function) (by simp [draft, hnew])
          (by simp [draft, legible])
      · exact .of_map rfl r.id.reads_text (by simp [draft, hnew]) (by simp [draft, legible])
      · exact .of_map rfl hparameters (by simp [draft, hnew]) (by simp [draft, legible])
      · exact .of_map rfl (reads_result hplain.result) (by simp [draft, hnew])
          (by simp [draft, legible])
      · exact .of_map rfl (reads_time hdated.started) (by simp [draft, hnew])
          (by simp [draft, legible])
      · exact .of_map rfl r.state.reads_toJson (by simp [draft, hnew]) (by simp [draft, legible])
      · exact .of_map rfl (Instant.reads_toJson hdated.submitted) (by simp [draft, hnew])
          (by simp [draft, legible])
      · exact .of_map rfl (Json.Decoder.reads_word "u64" r.timeout) (by simp [draft, hnew])
          (by simp [draft, legible])
    · simp only [List.forall_mem_cons] at hdone
      simp [draft, hdone, Draft.finish, Json.Decoder.required]
      rfl

theorem exists_of_bind {α β ε : Type} {x : Except ε α} {f : α → Except ε β} {b : β}
    (h : x >>= f = .ok b) : ∃ a, x = .ok a ∧ f a = .ok b := by
  cases x with
  | error e => cases h
  | ok a => exact ⟨a, rfl, h⟩

theorem required_eq_ok {α : Type} {name : String} {o : Option α} {a : α}
    (h : Json.Decoder.required name o = .ok a) : o = some a := by
  cases o with
  | none => cases h
  | some b => rw [Except.ok.inj h]

theorem Draft.finish_eq_ok {d : Draft} (h : d.finish = .ok r) :
    d.parameters = some r.parameters ∧ d.result.getD none = r.result := by
  obtain ⟨id, -, h⟩ := exists_of_bind h
  obtain ⟨agent, -, h⟩ := exists_of_bind h
  obtain ⟨function, -, h⟩ := exists_of_bind h
  obtain ⟨parameters, hparameters, h⟩ := exists_of_bind h
  obtain ⟨timeout, -, h⟩ := exists_of_bind h
  obtain ⟨state, -, h⟩ := exists_of_bind h
  obtain ⟨submittedAt, -, h⟩ := exists_of_bind h
  cases h
  exact ⟨required_eq_ok hparameters, rfl⟩

/-- The values of the record are nested no deeper than this. -/
structure Fits (r : RequestRecord) (depth : Nat) : Prop where
  parameters : r.parameters.nesting ≤ depth
  result : ∀ v ∈ r.result, v.nesting ≤ depth

structure Draft.Fits (d : Draft) (depth : Nat) : Prop where
  parameters : ∀ v ∈ d.parameters, v.nesting ≤ depth
  result : ∀ o ∈ d.result, ∀ v ∈ o, v.nesting ≤ depth

theorem keeps_fits (depth : Nat) :
    Json.Decoder.Form.Keeps ⟨"RequestRecord", fields, .blank, Draft.finish⟩ depth
      (Draft.Fits · depth) where
  blank := ⟨fun v hv => absurd hv (by simp [Draft.blank]),
    fun o ho => absurd ho (by simp [Draft.blank])⟩
  field f hf := by
    have hvalue : Json.Reader.Yields (Json.Decoder.anyValue.ofText depth) (·.nesting ≤ depth) :=
      fun s v s' hv => (Json.Reader.yields_readAny depth s v s' hv).1
    simp only [fields, List.mem_cons, List.not_mem_nil, or_false] at hf
    rcases hf with rfl | rfl | rfl | rfl | rfl | rfl | rfl | rfl | rfl | rfl | rfl
    all_goals try exact Json.Decoder.yields_map (Json.Reader.yields_true _) fun _ _ d hd =>
      ⟨hd.parameters, hd.result⟩
    · refine Json.Decoder.yields_map hvalue fun v hv d hd => ⟨fun w hw => ?_, hd.result⟩
      exact Option.some.inj hw ▸ hv
    · refine Json.Decoder.yields_map (Json.Decoder.yields_nullable hvalue) fun o ho d hd =>
        ⟨hd.parameters, fun o' ho' => ?_⟩
      exact Option.some.inj ho' ▸ ho

/-- The values of a record in a text have one level less than the text. -/
theorem fits_of_decodeText {text : String} (h : decoder.decodeText text = .ok r) : r.Fits 126 := by
  obtain ⟨s, hr⟩ := Json.Reader.takes_of_readText h
  have hyields : Json.Reader.Yields (decoder.ofText 127) (Fits · 126) := by
    refine (keeps_fits 126).yields fun d r hd hfinish => ?_
    obtain ⟨hparameters, hresult⟩ := Draft.finish_eq_ok hfinish
    refine ⟨hd.parameters _ hparameters, fun v hv => ?_⟩
    rw [← hresult] at hv
    cases ho : d.result with
    | none =>
      rw [ho] at hv
      cases hv
    | some o =>
      rw [ho] at hv
      exact hd.result o ho v hv
  exact hyields _ _ _ hr

theorem Written.nesting_le {depth : Nat} (h : r.Written v) (hfits : r.Fits depth) :
    v.nesting ≤ depth + 1 := by
  cases h with
  | object hp =>
    rw [Json.nesting_object_le]
    intro m hm
    have hm := hp.mem_iff.1 hm
    have hscalar : ∀ {w : Json}, w.nesting = 0 → w.nesting ≤ depth :=
      fun hw => hw ▸ Nat.zero_le depth
    simp only [List.mem_cons, List.not_mem_nil, or_false] at hm
    rcases hm with rfl | rfl | rfl | rfl | rfl | rfl | rfl | rfl | rfl | rfl | rfl
    any_goals exact hscalar rfl
    · cases r.error <;> exact hscalar rfl
    · cases r.finishedAt <;> exact hscalar rfl
    · exact hfits.parameters
    · cases hresult : r.result with
      | none => exact hscalar rfl
      | some v => exact hfits.result v hresult
    · cases r.startedAt <;> exact hscalar rfl

/-- A call that may change a record, and the time at which it is made. -/
inductive Move where
  | begin (now : Instant)
  | complete (now : Instant) (result : Json)
  | fail (now : Instant) (kind : FailureKind) (message : String)

def Move.time : Move → Instant
  | .begin now | .complete now _ | .fail now _ _ => now

/-- The record after a call. One that comes too late changes nothing. -/
def after (r : RequestRecord) : Move → RequestRecord
  | .begin now => (r.begin? now).getD r
  | .complete now result => (r.complete? now result).getD r
  | .fail now kind message => (r.fail? now kind message).getD r

theorem Dated.getD {next : Option RequestRecord} (h : r.Dated) (hnext : ∀ r' ∈ next, r'.Dated) :
    (next.getD r).Dated := by
  cases next with
  | none => exact h
  | some r' => exact hnext r' rfl

theorem Dated.after {m : Move} (h : r.Dated) (hm : Instant.inRange m.time.date) :
    (r.after m).Dated := by
  cases m with
  | begin now =>
    refine h.getD fun r' hr' => ?_
    rw [(begin?_eq_some hr').2]
    exact ⟨h.submitted, fun t ht => Option.some.inj ht ▸ hm, h.finished⟩
  | complete now result =>
    refine h.getD fun r' hr' => ?_
    rw [(complete?_eq_some hr').2]
    exact ⟨h.submitted, h.started, fun t ht => Option.some.inj ht ▸ hm⟩
  | fail now kind message =>
    refine h.getD fun r' hr' => ?_
    rw [(fail?_eq_some hr').2]
    exact ⟨h.submitted, h.started, fun t ht => Option.some.inj ht ▸ hm⟩

theorem Dated.foldl_after {moves : List Move} (h : r.Dated)
    (hmoves : ∀ m ∈ moves, Instant.inRange m.time.date) :
    (moves.foldl RequestRecord.after r).Dated := by
  induction moves generalizing r with
  | nil => exact h
  | cons m moves ih =>
    rw [List.forall_mem_cons] at hmoves
    exact ih (h.after hmoves.1) hmoves.2

theorem Written.decodeText_iff (h : r.Written v) (hdated : r.Dated) (hplain : r.Plain)
    (hnull : r.result ≠ some .null) (hl : l.Proper) :
    decoder.decodeText (String.ofList (Json.print l 0 v)) = .ok r ↔ r.Fits 126 := by
  refine ⟨fits_of_decodeText, fun hfits => ?_⟩
  have hreads := h.reads hdated hplain
  rw [legible_eq hnull] at hreads
  exact hreads.decodeText hl (h.nesting_le hfits)

/-- A record is read back as it is after any calls since it was new, unless its result is null: from
a value always, and from a text if its values are nested at most 126 levels, since the record around
them takes one of the levels that texts have. -/
theorem decode_written_iff_fits (id : Uuid) (now : Instant) (agent function : String)
    (parameters : Json) (timeout : UInt64) (moves : List Move) (hnow : Instant.inRange now.date)
    (hmoves : ∀ m ∈ moves, Instant.inRange m.time.date)
    (hr : r = moves.foldl after (new id now agent function parameters timeout))
    (hplain : r.Plain) (hnull : r.result ≠ some .null) :
    r.Written r.toJson ∧ ∀ v, r.Written v →
      decoder.decode v = .ok r ∧ (decoder.decode v).map document = .ok r.document ∧
      ∀ l : Json.Layout, l.Proper →
        (decoder.decodeText (String.ofList (Json.print l 0 v)) = .ok r ↔ r.Fits 126) := by
  have hdated : r.Dated := by
    have hnew : (new id now agent function parameters timeout).Dated :=
      ⟨hnow, fun t ht => absurd ht (by simp [new]), fun t ht => absurd ht (by simp [new])⟩
    rw [hr]
    exact hnew.foldl_after hmoves
  refine ⟨r.written_toJson, fun v h => ?_⟩
  have hdecode : decoder.decode v = .ok r := by
    have hreads := (h.reads hdated hplain).decode
    rwa [legible_eq hnull] at hreads
  refine ⟨hdecode, ?_, fun l hl => h.decodeText_iff hdated hplain hnull hl⟩
  rw [hdecode]
  rfl

def answered (result : Json) : RequestRecord :=
  [.begin .epoch, .complete .epoch result].foldl after
    (new .nil .epoch "echo" "echo" (.object []) 1000)

theorem plain_answered {result : Json} (hint : result.Integral) (hord : result.Ordered) :
    (answered result).Plain where
  parameters := by
    have hparameters : (answered result).parameters = .object [] := rfl
    simp [hparameters]
  result v hv := Option.some.inj hv ▸ ⟨hint, hord⟩

theorem decode_written_iff_fits_answered :
    (answered (.array [.int 1])).Written (answered (.array [.int 1])).toJson ∧
      decoder.decode (answered (.array [.int 1])).toJson = .ok (answered (.array [.int 1])) ∧
      decoder.decodeText (answered (.array [.int 1])).toJson.pretty =
        .ok (answered (.array [.int 1])) := by
  have hmoves : ∀ m ∈ [Move.begin .epoch, .complete .epoch (.array [.int 1])],
      Instant.inRange m.time.date := by decide
  have hplain : (answered (.array [.int 1])).Plain :=
    plain_answered (by simp) (by simp [Json.Ordered, Json.All, Json.AllItems])
  obtain ⟨hwritten, h⟩ := decode_written_iff_fits .nil .epoch "echo" "echo" (.object []) 1000
    [.begin .epoch, .complete .epoch (.array [.int 1])] (by decide) hmoves rfl hplain (by decide)
  obtain ⟨hvalue, -, htext⟩ := h _ hwritten
  have hfits : (answered (.array [.int 1])).Fits 126 :=
    ⟨by decide, fun v hv => Option.some.inj hv ▸ by decide⟩
  exact ⟨hwritten, hvalue, (htext .pretty Json.Layout.proper_pretty).2 hfits⟩

def nested : Nat → Json
  | 0 => .array []
  | depth + 1 => .array [nested depth]

theorem nesting_nested (depth : Nat) : (nested depth).nesting = depth + 1 := by
  induction depth with
  | zero => rfl
  | succ depth ih => simp [nested, Json.nesting, Json.nestingItems, ih]

theorem nested_integral (depth : Nat) : (nested depth).Integral ∧ (nested depth).Ordered := by
  induction depth with
  | zero => simp [nested]
  | succ depth ih => simpa [nested] using ih

theorem dated_answered (result : Json) : (answered result).Dated :=
  ⟨rfl, fun _ ht => Option.some.inj ht ▸ rfl, fun _ ht => Option.some.inj ht ▸ rfl⟩

/-- Not every record is read back. The result of a request that is answered with null is gone from
the record and from its document, and a text with a value in 127 lists is not read as the record
that it was written for. -/
theorem decode_written_ne_of_null_or_deep :
    ((answered .null).Plain ∧ (answered .null).Dated ∧
      decoder.decode (answered .null).toJson = .ok { answered .null with result := none } ∧
      decoder.decodeText (answered .null).toJson.compact =
        .ok { answered .null with result := none } ∧
      (answered .null).document.get? "result" = some .null ∧
      { answered .null with result := none }.document.get? "result" = none) ∧
    (answered (nested 126)).Plain ∧ (answered (nested 126)).Dated ∧
      decoder.decodeText (answered (nested 126)).toJson.compact ≠ .ok (answered (nested 126)) := by
  have hnull : (answered .null).Plain := plain_answered trivial trivial
  have hreads := (written_toJson _).reads (dated_answered .null) hnull
  have hdepth : (answered .null).toJson.nesting ≤ Json.maxDepth := by decide
  refine ⟨⟨hnull, dated_answered _, hreads.decode,
    hreads.decodeText Json.Layout.proper_compact hdepth, by decide, by decide⟩,
    plain_answered (nested_integral 126).1 (nested_integral 126).2, dated_answered _, fun h => ?_⟩
  have hfits := (fits_of_decodeText h).result (nested 126) rfl
  rw [nesting_nested] at hfits
  omega

end RequestRecord

end RequestEngine
