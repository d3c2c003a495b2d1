import RequestEngine.Proofs.Store

/-! Operations on a store, what each is answered, and what it can come to. Identifiers may be known
or not, and may be inserted several times. -/
namespace RequestEngine

namespace RequestRecord

/-- The ways in which a store ends a request. -/
inductive Finishes (r r' : RequestRecord) : Prop
  | complete {now : Instant} {v : Json} (h : r.complete? now v = some r')
  | fail {now : Instant} {kind : FailureKind} {message : String}
      (h : r.fail? now kind message = some r')

variable {r r' : RequestRecord}

theorem Finishes.id (h : r.Finishes r') : r'.id = r.id := by
  cases h with
  | complete h => rw [(complete?_eq_some h).2]
  | fail h => rw [(fail?_eq_some h).2]

theorem Finishes.startedAt (h : r.Finishes r') : r'.startedAt = r.startedAt := by
  cases h with
  | complete h => rw [(complete?_eq_some h).2]
  | fail h => rw [(fail?_eq_some h).2]

theorem Finishes.not_terminal (h : r.Finishes r') : r.state.isTerminal = false := by
  cases h with
  | complete h => exact (complete?_eq_some h).1
  | fail h => exact (fail?_eq_some h).1

theorem Finishes.terminal (h : r.Finishes r') : r'.state.isTerminal := by
  cases h with
  | complete h => rw [(complete?_eq_some h).2]; rfl
  | fail h => rw [(fail?_eq_some h).2]; exact FailureKind.isTerminal_state _

theorem Finishes.formed (h : r.Finishes r') (hr : r.Formed) : r'.Formed := by
  cases h with
  | complete h => exact hr.complete? h
  | fail h => exact hr.fail? h

end RequestRecord

namespace Store

variable {ε : Type}

/-- What can be asked of a store. An insertion may depend on a permission. -/
inductive Operation (ε : Type) where
  | insert (r : RequestRecord)
  | insertIf (r : RequestRecord) (allow : Uuid → Except ε Unit)
  | begin (now : Instant) (id : Uuid)
  | complete (now : Instant) (id : Uuid) (result : Json)
  | fail (now : Instant) (id : Uuid) (kind : FailureKind) (message : String)
  | cancel (now : Instant) (id : Uuid) (message : String)
  | failRunning (now : Instant) (message : String)
  | cleanup (keep : Nat)

inductive Report (ε : Type) where
  | inserted (id : Uuid)
  | refused (reason : ε)
  | begun (found : Option (RequestRecord × Token))
  | ended (found : Option RequestRecord)
  | swept (records : List RequestRecord)
  | evicted (count : Nat)

/-- Take over a change that ended a request, if there was one. -/
def reportEnd (s : Store) : Option (RequestRecord × Store) → Report ε × Store
  | some (r, t) => (.ended (some r), t)
  | none => (.ended none, s)

def perform (s : Store) : Operation ε → Report ε × Store
  | .insert r => (.inserted r.id, s.insert r)
  | .insertIf r allow =>
    match s.insertIf r allow with
    | .ok (t, _) => (.inserted r.id, t)
    | .error reason => (.refused reason, s)
  | .begin now id =>
    match s.begin? now id with
    | some (r, token, t) => (.begun (some (r, token)), t)
    | none => (.begun none, s)
  | .complete now id v => s.reportEnd (s.complete? now id v)
  | .fail now id kind message => s.reportEnd (s.fail? now id kind message)
  | .cancel now id message => s.reportEnd (s.cancel? now id message)
  | .failRunning now message =>
    let (records, t) := s.failRunning now message
    (.swept records, t)
  | .cleanup keep =>
    let (count, t) := s.cleanup keep
    (.evicted count, t)

def after (s : Store) (operations : List (Operation ε)) : Store :=
  operations.foldl (fun s o => (s.perform o).2) s

def reports (s : Store) : List (Operation ε) → List (Report ε)
  | [] => []
  | o :: operations => (s.perform o).1 :: (s.perform o).2.reports operations

namespace Operation

def record? : Operation ε → Option RequestRecord
  | .insert r | .insertIf r _ => some r
  | _ => none

/-- The one identifier that an operation is about. -/
def subject? : Operation ε → Option Uuid
  | .insert r | .insertIf r _ => some r.id
  | .begin _ id | .complete _ id _ | .fail _ id _ _ | .cancel _ id _ => some id
  | .failRunning .. | .cleanup _ => none

/-- The change with which an operation ends one request. -/
def ending? : Operation ε → Option (Uuid × (RequestRecord → Option RequestRecord))
  | .complete now id v => some (id, (·.complete? now v))
  | .fail now id kind message => some (id, (·.fail? now kind message))
  | .cancel now id message => some (id, (·.fail? now .cancelled message))
  | _ => none

/-- An operation lets a request in this state run. -/
def Begins : Operation ε → Uuid → RequestState → Prop
  | .begin _ id, other, state => other = id ∧ state = .pending
  | _, _, _ => False

/-- An operation ends a request in this state: each that has not ended, if it is about this one,
and those that run, if it is about them all. -/
def Ends : Operation ε → Uuid → RequestState → Prop
  | .complete _ id _, other, state | .fail _ id _ _, other, state | .cancel _ id _, other, state =>
    other = id ∧ (state = .pending ∨ state = .running)
  | .failRunning .., _, state => state = .running
  | _, _, _ => False

end Operation

variable {s t : Store} {o : Operation ε} {p : Report ε} {x : Entry} {r r' old : RequestRecord}
  {id other : Uuid} {now : Instant}

theorem get?_eq (s : Store) (id : Uuid) : s.get? id = (s.entry? id).map (·.record) := rfl

theorem entry?_record_id (h : s.entry? id = some x) : x.record.id = id := by
  simpa using List.find?_some h

theorem get?_id (h : s.get? id = some r) : r.id = id := by
  obtain ⟨x, hx, rfl⟩ := Option.map_eq_some_iff.1 h
  exact entry?_record_id hx

/-- A change of the entries that keeps their identifiers changes what is looked up. -/
theorem entry?_map (s : Store) (f : Entry → Entry) (hf : ∀ x, (f x).record.id = x.record.id)
    (ht : t.entries = s.entries.map f) (id : Uuid) : t.entry? id = (s.entry? id).map f := by
  have hsame : (fun x : Entry => decide (x.record.id = id)) ∘ f =
      fun x => decide (x.record.id = id) := by
    funext x
    simp [hf]
  rw [ entry?, ht, List.find?_map, hsame]
  rfl

theorem get?_replace (hx : s.entry? id = some x) (hid : r.id = id) (other : Uuid) :
    (s.replace r).get? other = if other = id then some r else s.get? other := by
  have hmap := entry?_map s (fun x => if x.record.id = r.id then { x with record := r } else x)
    (fun x => by split <;> simp_all) (t := s.replace r) rfl other
  rw [get?_eq, hmap, Option.map_map]
  split
  · rename_i hother
    simp [hother, hx, hid, entry?_record_id hx]
  · rename_i hother
    cases hy : s.entry? other with
    | none => simp [get?_eq, hy]
    | some y => simp [get?_eq, hy, entry?_record_id hy, hid, hother]

theorem get?_insert (s : Store) (r : RequestRecord) (id : Uuid) :
    (s.insert r).get? id = if id = r.id then some r else s.get? id := by
  simp only [get?, entry?, insert, List.find?_append, List.find?_filter]
  split
  · rename_i hid
    subst hid
    rw [List.find?_eq_none.2 (by simp)]
    simp
  · rename_i hid
    have hlast : [Entry.mk r ⟨s.nextSerial⟩].find? (·.record.id = id) = none := by
      simp [Ne.symm hid]
    rw [hlast, Option.or_none]
    congr 2
    funext x
    by_cases hx : x.record.id = id
    · simp [hx, hid]
    · simp [hx]

theorem get?_cleanup (s : Store) (keep : Nat) (id : Uuid) :
    (s.cleanup keep).2.get? id = none ∨ (s.cleanup keep).2.get? id = s.get? id := by
  by_cases hid : id ∈ (s.ended.take (s.ended.length - keep)).eraseDups
  · refine .inl ?_
    simp only [get?, entry?, cleanup, List.find?_filter, Option.map_eq_none_iff,
      List.find?_eq_none]
    rintro x -
    simp only [Bool.decide_and, Bool.and_eq_true, decide_eq_true_eq, not_and]
    rintro hkept rfl
    simp [hid] at hkept
  · refine .inr ?_
    simp only [get?, entry?, cleanup, List.find?_filter]
    congr 2
    funext x
    by_cases hx : x.record.id = id
    · simp [hx, hid]
    · simp [hx]

theorem get?_failRunning (s : Store) (now : Instant) (message : String) (id : Uuid) :
    (s.failRunning now message).2.get? id =
      (s.entry? id).map fun x => (failEntry now message x).record := by
  rw [get?_eq, entry?_map s (failEntry now message) (failEntry_record_id now message) rfl,
    Option.map_map]
  rfl

theorem change?_eq (s : Store) (id : Uuid) (f : RequestRecord → Option RequestRecord) :
    s.change? id f = ((s.get? id).bind f).map fun r => (r, s.replace r) := by
  cases h : s.get? id with
  | none => simp [change?, h]
  | some r => cases hf : f r <;> simp [change?, h, hf]

/-- What an operation is answered, and what it does. -/
inductive Performs (s : Store) : Operation ε → Report ε → Store → Prop
  | insert {o : Operation ε} {r : RequestRecord} (inserts : o.record? = some r) :
      Performs s o (.inserted r.id) (s.insert r)
  | refuse {o : Operation ε} {r : RequestRecord} {reason : ε} (inserts : o.record? = some r) :
      Performs s o (.refused reason) s
  | begin {now : Instant} {id : Uuid} {x : Entry} {r : RequestRecord} (hx : s.entry? id = some x)
      (h : x.record.begin? now = some r) :
      Performs s (.begin now id) (.begun (some (r, x.token))) (s.replace r)
  | notBegun {now : Instant} {id : Uuid} (h : (s.get? id).bind (·.begin? now) = none) :
      Performs s (.begin now id) (.begun none) s
  | finish {o : Operation ε} {id : Uuid} {f : RequestRecord → Option RequestRecord} {x : Entry}
      {r : RequestRecord} {cancelled : List Token} (ends : o.ending? = some (id, f))
      (hx : s.entry? id = some x) (h : f x.record = some r)
      (hc : cancelled = s.cancelled ∨ cancelled = x.token :: s.cancelled) :
      Performs s o (.ended (some r)) { s.replace r with cancelled := cancelled }
  | notFinished {o : Operation ε} {id : Uuid} {f : RequestRecord → Option RequestRecord}
      (ends : o.ending? = some (id, f)) (h : (s.get? id).bind f = none) :
      Performs s o (.ended none) s
  | sweep (now : Instant) (message : String) :
      Performs s (.failRunning now message)
        (.swept ((s.entries.filter Entry.isRunning).map fun x => (failEntry now message x).record))
        (s.failRunning now message).2
  | cleanup (keep : Nat) :
      Performs s (.cleanup keep) (.evicted (s.cleanup keep).1) (s.cleanup keep).2

/-- An operation that changes one record either ends the request or does nothing. -/
theorem performs_reportEnd {f : RequestRecord → Option RequestRecord}
    (ends : o.ending? = some (id, f)) :
    Performs s o (s.reportEnd (s.change? id f) : Report ε × Store).1
      (s.reportEnd (s.change? id f) : Report ε × Store).2 := by
  rw [change?_eq]
  cases hx : s.entry? id with
  | none => simpa [get?_eq, hx, reportEnd] using .notFinished ends (by simp [get?_eq, hx])
  | some x =>
    cases hf : f x.record with
    | none => simpa [get?_eq, hx, hf, reportEnd] using .notFinished ends (by simp [get?_eq, hx, hf])
    | some r => simpa [get?_eq, hx, hf, reportEnd] using .finish ends hx hf (.inl rfl)

theorem performs (s : Store) (o : Operation ε) : Performs s o (s.perform o).1 (s.perform o).2 := by
  cases o with
  | insert r => exact .insert rfl
  | insertIf r allow =>
    cases h : allow r.id with
    | ok _ => simpa [perform, insertIf, h, bind, Except.bind] using .insert rfl
    | error reason => simpa [perform, insertIf, h, bind, Except.bind] using .refuse rfl
  | begin now id =>
    cases hx : s.entry? id with
    | none => simpa [perform, begin?, hx] using .notBegun (by simp [get?_eq, hx])
    | some x =>
      cases hb : x.record.begin? now with
      | none =>
        simpa [perform, begin?, change?_eq, get?_eq, hx, hb] using
          .notBegun (by simp [get?_eq, hx, hb])
      | some r => simpa [perform, begin?, change?_eq, get?_eq, hx, hb] using .begin hx hb
  | complete now id v => exact performs_reportEnd rfl
  | fail now id kind message => exact performs_reportEnd rfl
  | cancel now id message =>
    cases hx : s.entry? id with
    | none =>
      simpa [perform, cancel?, hx, reportEnd] using .notFinished rfl (by simp [get?_eq, hx])
    | some x =>
      cases hf : x.record.fail? now .cancelled message with
      | none =>
        simpa [perform, cancel?, fail?, change?_eq, get?_eq, hx, hf, reportEnd] using
          .notFinished rfl (by simp [get?_eq, hx, hf])
      | some r =>
        simpa [perform, cancel?, fail?, change?_eq, get?_eq, hx, hf, reportEnd] using
          .finish rfl hx hf (.inr rfl)
  | failRunning now message => exact .sweep now message
  | cleanup keep => exact .cleanup keep

/-- The change that ends one request applies to those that have not ended. -/
theorem Operation.ending?_spec {f : RequestRecord → Option RequestRecord}
    (h : o.ending? = some (id, f)) :
    (∀ r r', f r = some r' → r.Finishes r') ∧ (∀ r, f r = none ↔ r.state.isTerminal) ∧
      ∀ other state, o.Ends other state ↔ other = id ∧ (state = .pending ∨ state = .running) := by
  cases o with
  | complete now i v =>
    obtain ⟨rfl, rfl⟩ := Prod.mk.inj (Option.some.inj h)
    refine ⟨fun _ _ => .complete, fun r => by simp [RequestRecord.complete?], fun other state => ?_⟩
    simp [Operation.Ends]
  | fail now i kind message =>
    obtain ⟨rfl, rfl⟩ := Prod.mk.inj (Option.some.inj h)
    refine ⟨fun _ _ => .fail, fun r => by simp [RequestRecord.fail?], fun other state => ?_⟩
    simp [Operation.Ends]
  | cancel now i message =>
    obtain ⟨rfl, rfl⟩ := Prod.mk.inj (Option.some.inj h)
    refine ⟨fun _ _ => .fail, fun r => by simp [RequestRecord.fail?], fun other state => ?_⟩
    simp [Operation.Ends]
  | _ => cases h

theorem get?_begun (hx : s.entry? id = some x) (h : x.record.begin? now = some r) :
    r.id = id ∧ ∀ other,
      (s.replace r).get? other = if other = id then some r else s.get? other := by
  have hid : r.id = id := by rw [(RequestRecord.begin?_eq_some h).2, entry?_record_id hx]
  exact ⟨hid, get?_replace hx hid⟩

theorem get?_finished {f : RequestRecord → Option RequestRecord} (ends : o.ending? = some (id, f))
    (hx : s.entry? id = some x) (h : f x.record = some r) :
    x.record.Finishes r ∧ r.id = id ∧ ∀ other,
      (s.replace r).get? other = if other = id then some r else s.get? other := by
  have hf := (Operation.ending?_spec ends).1 _ _ h
  have hid := hf.id.trans (entry?_record_id hx)
  exact ⟨hf, hid, get?_replace hx hid⟩

theorem Performs.sound (h : Performs s o p t) (hs : s.Sound) : t.Sound := by
  cases h with
  | insert => exact hs.insert _
  | refuse => exact hs
  | begin hx h =>
    obtain ⟨hmem, -⟩ := (entry?_eq_some hs).1 hx
    obtain ⟨hpending, rfl⟩ := RequestRecord.begin?_eq_some h
    refine hs.replace hmem rfl fun hend => ?_
    rw [hpending] at hend
    cases hend
  | notBegun => exact hs
  | @finish _ _ _ x r _ ends hx h hc =>
    obtain ⟨hmem, -⟩ := (entry?_eq_some hs).1 hx
    have hfinish := (Operation.ending?_spec ends).1 _ _ h
    have hreplace := hs.replace hmem hfinish.id fun _ => hfinish.terminal
    obtain rfl | rfl := hc
    · exact hreplace
    · refine hreplace.cancelled (x := { x with record := r }) ?_ hfinish.terminal
      exact (mem_replace hs hmem hfinish.id).2 (.inl rfl)
  | notFinished => exact hs
  | sweep now message => exact hs.failRunning now message
  | cleanup keep => exact hs.cleanup keep

theorem Sound.after (hs : s.Sound) (operations : List (Operation ε)) :
    (s.after operations).Sound := by
  induction operations generalizing s with
  | nil => exact hs
  | cons o operations ih => exact ih ((performs s o).sound hs)

end Store

end RequestEngine
