import RequestEngine.Proofs.Operations

/-! What a store reports over a sequence of operations. Between an insertion and the next one, or
the eviction, a request is reported once when it begins and once when it ends, and every report is
what the store then holds. -/
namespace RequestEngine

/-- A record as it is made for a submission. -/
def RequestRecord.IsNew (r : RequestRecord) : Prop :=
  ∃ id now agent function parameters timeout, r = .new id now agent function parameters timeout

namespace Store

variable {ε : Type}

namespace Report

def begins : Report ε → List RequestRecord
  | .begun (some (r, _)) => [r]
  | _ => []

def ends : Report ε → List RequestRecord
  | .ended (some r) => [r]
  | .swept records => records
  | _ => []

def isSilent : Report ε → Bool
  | .refused _ | .begun none | .ended none | .swept [] | .evicted 0 => true
  | _ => false

end Report

def beginsOf (id : Uuid) (reports : List (Report ε)) : Nat :=
  (reports.flatMap (·.begins)).countP (·.id = id)

def endsOf (id : Uuid) (reports : List (Report ε)) : Nat :=
  (reports.flatMap (·.ends)).countP (·.id = id)

variable {s t : Store} {o : Operation ε} {p : Report ε} {x : Entry} {r r' old : RequestRecord}
  {id other : Uuid} {now : Instant}

theorem beginsOf_append (id : Uuid) (ps qs : List (Report ε)) :
    beginsOf id (ps ++ qs) = beginsOf id ps + beginsOf id qs := by simp [beginsOf]

theorem endsOf_append (id : Uuid) (ps qs : List (Report ε)) :
    endsOf id (ps ++ qs) = endsOf id ps + endsOf id qs := by simp [endsOf]

theorem Performs.begins_iff (h : Performs s o p t) (id : Uuid) :
    (∃ r ∈ p.begins, r.id = id) ↔ ∃ r, s.get? id = some r ∧ o.Begins id r.state := by
  cases h with
  | @begin now i x r hx h =>
    obtain ⟨hpending, rfl⟩ := RequestRecord.begin?_eq_some h
    have hid := entry?_record_id hx
    constructor
    · rintro ⟨r, hr, rfl⟩
      rw [List.mem_singleton.1 hr, get?_eq, hid, hx]
      exact ⟨x.record, rfl, rfl, hpending⟩
    · rintro ⟨r, -, rfl, -⟩
      exact ⟨_, List.mem_singleton_self _, hid⟩
  | @notBegun now i h =>
    simp only [Report.begins, List.not_mem_nil, false_and, exists_false, false_iff, not_exists,
      not_and]
    rintro r hr ⟨rfl, hpending⟩
    simp [hr, RequestRecord.begin?, hpending] at h
  | insert inserts => cases o <;> simp_all [Operation.record?, Operation.Begins, Report.begins]
  | refuse inserts => cases o <;> simp_all [Operation.record?, Operation.Begins, Report.begins]
  | finish ends => cases o <;> simp_all [Operation.ending?, Operation.Begins, Report.begins]
  | notFinished ends => cases o <;> simp_all [Operation.ending?, Operation.Begins, Report.begins]
  | sweep => simp [Operation.Begins, Report.begins]
  | cleanup => simp [Operation.Begins, Report.begins]

theorem mem_swept (hs : s.Sound) {message : String} :
    r ∈ (s.entries.filter Entry.isRunning).map (fun x => (failEntry now message x).record) ↔
      ∃ old, s.get? r.id = some old ∧ old.state = .running ∧
        old.fail? now .failed message = some r := by
  simp only [List.mem_map, List.mem_filter]
  constructor
  · rintro ⟨x, ⟨hx, hrun⟩, rfl⟩
    obtain ⟨hstate, r, hr, he⟩ | ⟨hstate, -⟩ := failEntry_cases now message x
    · refine ⟨x.record, ?_, hstate, ?_⟩
      · rw [failEntry_record_id, get?_eq, (entry?_eq_some hs).2 ⟨hx, rfl⟩]
        rfl
      · rw [he, hr]
    · exact absurd (by simpa [Entry.isRunning] using hrun) hstate
  · rintro ⟨old, hold, hstate, hr⟩
    obtain ⟨x, hx, rfl⟩ := Option.map_eq_some_iff.1 hold
    obtain ⟨hmem, -⟩ := (entry?_eq_some hs).1 hx
    refine ⟨x, ⟨hmem, by simpa [Entry.isRunning] using hstate⟩, ?_⟩
    simp [failEntry, Entry.isRunning, hstate, hr]

theorem Performs.ends_iff (h : Performs s o p t) (hs : s.Sound) (id : Uuid) :
    (∃ r ∈ p.ends, r.id = id) ↔ ∃ r, s.get? id = some r ∧ o.Ends id r.state := by
  cases h with
  | @finish _ i f x r c ends hx h hc =>
    obtain ⟨hfinish, -, hends⟩ := Operation.ending?_spec ends
    have hid := entry?_record_id hx
    have hf := hfinish _ _ h
    constructor
    · rintro ⟨r', hr', rfl⟩
      rw [List.mem_singleton.1 hr', get?_eq, hf.id, hid, hx]
      refine ⟨x.record, rfl, (hends _ _).2 ⟨rfl, ?_⟩⟩
      have hactive := hf.not_terminal
      cases hstate : x.record.state <;> simp_all [RequestState.isTerminal, RequestState.isActive]
    · rintro ⟨r', -, hend⟩
      obtain ⟨rfl, -⟩ := (hends _ _).1 hend
      exact ⟨r, List.mem_singleton_self _, hf.id.trans hid⟩
  | @notFinished _ i f ends h =>
    obtain ⟨-, hnone, hends⟩ := Operation.ending?_spec ends
    simp only [Report.ends, List.not_mem_nil, false_and, exists_false, false_iff, not_exists,
      not_and]
    intro r hr hend
    obtain ⟨rfl, hstate⟩ := (hends _ _).1 hend
    rw [hr, Option.bind_some, hnone] at h
    obtain hstate | hstate := hstate <;> simp [hstate] at h
  | sweep now message =>
    constructor
    · rintro ⟨r, hr, rfl⟩
      obtain ⟨old, hold, hstate, -⟩ := (mem_swept hs).1 hr
      exact ⟨old, hold, hstate⟩
    · rintro ⟨old, hold, hstate⟩
      have hfail : ∃ r, old.fail? now .failed message = some r := by
        simp [RequestRecord.fail?, show old.state = .running from hstate]
      obtain ⟨r, hr⟩ := hfail
      have hid : r.id = id := by rw [(RequestRecord.fail?_eq_some hr).2, get?_id hold]
      exact ⟨r, (mem_swept hs).2 ⟨old, hid ▸ hold, hstate, hr⟩, hid⟩
  | insert inserts => cases o <;> simp_all [Operation.record?, Operation.Ends, Report.ends]
  | refuse inserts => cases o <;> simp_all [Operation.record?, Operation.Ends, Report.ends]
  | begin => simp [Operation.Ends, Report.ends]
  | notBegun => simp [Operation.Ends, Report.ends]
  | cleanup => simp [Operation.Ends, Report.ends]

/-- What is reported is what the store then holds. -/
theorem Performs.current (h : Performs s o p t) (hs : s.Sound) :
    ∀ r ∈ p.begins ++ p.ends, t.get? r.id = some r := by
  intro r hr
  cases h with
  | @begin now i x r' hx h =>
    obtain rfl : r = r' := by simpa [Report.begins, Report.ends] using hr
    obtain ⟨hid, hget⟩ := get?_begun hx h
    rw [hget, if_pos hid]
  | @finish _ i f x r' c ends hx h hc =>
    obtain rfl : r = r' := by simpa [Report.begins, Report.ends] using hr
    obtain ⟨-, hid, hget⟩ := get?_finished ends hx h
    exact (hget r.id).trans (if_pos hid)
  | sweep now message =>
    have hswept : r ∈ (s.entries.filter Entry.isRunning).map
        fun x => (failEntry now message x).record := hr
    obtain ⟨old, hold, hstate, hfail⟩ := (mem_swept hs).1 hswept
    obtain ⟨x, hx, rfl⟩ := Option.map_eq_some_iff.1 hold
    rw [get?_failRunning, hx]
    simp [failEntry, Entry.isRunning, hstate, hfail]
  | _ => cases hr

theorem Performs.silent (h : Performs s o p t) (hp : p.isSilent) : t = s := by
  cases h with
  | refuse => rfl
  | notBegun => rfl
  | notFinished => rfl
  | sweep now message =>
    have hnone : s.entries.filter Entry.isRunning = [] := by
      cases hrun : s.entries.filter Entry.isRunning with
      | nil => rfl
      | cons x rest => simp [hrun, Report.isSilent] at hp
    have hsame : s.entries.map (failEntry now message) = s.entries := by
      refine (List.map_congr_left fun x hx => ?_).trans (List.map_id _)
      have hidle : ¬ Entry.isRunning x := List.filter_eq_nil_iff.1 hnone x hx
      simp [failEntry, hidle]
    simp [failRunning, hnone, hsame]
  | cleanup keep =>
    have hnone : (s.ended.take (s.ended.length - keep)).eraseDups = [] := by
      refine List.eq_nil_of_length_eq_zero ?_
      cases hcount : (s.cleanup keep).1 with
      | zero => exact hcount
      | succ n => simp [hcount, Report.isSilent] at hp
    simp [Store.cleanup, hnone]
  | _ => cases hp

theorem Performs.others (h : Performs s o p t) (ho : o.subject? = some id) (hne : other ≠ id) :
    t.get? other = s.get? other := by
  cases h with
  | @insert _ r inserts =>
    have hid : id = r.id := by cases o <;> simp_all [Operation.record?, Operation.subject?]
    rw [get?_insert, if_neg (hid ▸ hne)]
  | @begin now i x r hx h =>
    obtain rfl : i = id := Option.some.inj ho
    exact ((get?_begun hx h).2 other).trans (if_neg hne)
  | @finish _ i f x r c ends hx h hc =>
    obtain rfl : i = id := by cases o <;> simp_all [Operation.ending?, Operation.subject?]
    obtain ⟨-, -, hget⟩ := get?_finished ends hx h
    exact (hget other).trans (if_neg hne)
  | refuse => rfl
  | notBegun => rfl
  | notFinished => rfl
  | sweep => cases ho
  | cleanup => cases ho

/-- What an operation reports of a request whose record it leaves in the store. -/
inductive Told (id : Uuid) (r r' : RequestRecord) (p : Report ε) : Prop
  | nothing (same : r' = r) (begins : beginsOf id [p] = 0) (ends : endsOf id [p] = 0)
  | begun {now : Instant} (h : r.begin? now = some r') (begins : beginsOf id [p] = 1)
      (ends : endsOf id [p] = 0)
  | ended (h : r.Finishes r') (begins : beginsOf id [p] = 0) (ends : endsOf id [p] = 1)

theorem Told.quiet (hb : p.begins = []) (he : p.ends = []) : Told id r r p :=
  .nothing rfl (by simp [beginsOf, hb]) (by simp [endsOf, he])

/-- The sweep reports a request once if it runs, and not at all otherwise. -/
theorem countP_swept (hs : s.Sound) (hx : s.entry? id = some x) (now : Instant)
    (message : String) :
    ((s.entries.filter Entry.isRunning).map fun y => (failEntry now message y).record).countP
      (·.id = id) = if x.record.state = .running then 1 else 0 := by
  obtain ⟨hmem, hid⟩ := (entry?_eq_some hs).1 hx
  have hsame : ∀ y ∈ s.entries, (y.record.id = id ↔ y = x) := fun y hy =>
    ⟨fun h => hs.eq_of_id hy hmem (h.trans hid.symm), fun h => h ▸ hid⟩
  rw [List.countP_map, List.countP_filter]
  split
  · rename_i hrun
    rw [← List.count_eq_one_of_mem hs.entries_nodup hmem, List.count]
    refine List.countP_congr fun y hy => ?_
    by_cases hyx : y = x
    · subst hyx
      simp [failEntry_record_id, hid, Entry.isRunning, hrun]
    · simp [failEntry_record_id, hsame y hy, hyx]
  · rename_i hrun
    refine List.countP_eq_zero.2 fun y hy => ?_
    by_cases hyx : y = x
    · subst hyx
      simp [Entry.isRunning, hrun]
    · simp [failEntry_record_id, hsame y hy, hyx]

theorem Performs.told (h : Performs s o p t) (hs : s.Sound) (hr : s.get? id = some r)
    (hother : p ≠ .inserted id) (hkept : (t.get? id).isSome) :
    ∃ r', t.get? id = some r' ∧ Told id r r' p := by
  obtain ⟨y, hy, rfl⟩ := Option.map_eq_some_iff.1 hr
  cases h with
  | @insert _ r₀ inserts =>
    have hne : id ≠ r₀.id := by
      rintro rfl
      exact hother rfl
    refine ⟨_, ?_, .quiet rfl rfl⟩
    rw [get?_insert, if_neg hne, hr]
  | @begin now i x r' hx h =>
    obtain ⟨hid, hget⟩ := get?_begun hx h
    rw [hget]
    by_cases hi : id = i
    · subst hi
      obtain rfl : x = y := Option.some.inj (hx.symm.trans hy)
      exact ⟨r', if_pos rfl, .begun h (by simp [beginsOf, Report.begins, hid])
        (by simp [endsOf, Report.ends])⟩
    · exact ⟨_, (if_neg hi).trans hr, .nothing rfl
        (by simp [beginsOf, Report.begins, hid, Ne.symm hi]) (by simp [endsOf, Report.ends])⟩
  | @finish _ i f x r' c ends hx h hc =>
    obtain ⟨hf, hid, hget⟩ := get?_finished ends hx h
    by_cases hi : id = i
    · subst hi
      obtain rfl : x = y := Option.some.inj (hx.symm.trans hy)
      exact ⟨r', (hget id).trans (if_pos rfl), .ended hf (by simp [beginsOf, Report.begins])
        (by simp [endsOf, Report.ends, hid])⟩
    · exact ⟨_, (hget id).trans ((if_neg hi).trans hr), .nothing rfl
        (by simp [beginsOf, Report.begins]) (by simp [endsOf, Report.ends, hid, Ne.symm hi])⟩
  | sweep now message =>
    have hcount := countP_swept hs hy now message
    rw [get?_failRunning, hy]
    obtain ⟨hrun, r', hr', he⟩ | ⟨hrun, he⟩ := failEntry_cases now message y
    · rw [if_pos hrun] at hcount
      refine ⟨r', by simp [he], .ended (.fail hr') (by simp [beginsOf, Report.begins]) ?_⟩
      simpa [endsOf, Report.ends] using hcount
    · rw [if_neg hrun] at hcount
      refine ⟨y.record, by simp [he], .nothing rfl (by simp [beginsOf, Report.begins]) ?_⟩
      simpa [endsOf, Report.ends] using hcount
  | cleanup keep =>
    obtain hnone | hsame := get?_cleanup s keep id
    · simp [hnone] at hkept
    · exact ⟨_, hsame.trans hr, .quiet rfl rfl⟩
  | refuse => exact ⟨_, hr, .quiet rfl rfl⟩
  | notBegun => exact ⟨_, hr, .quiet rfl rfl⟩
  | notFinished => exact ⟨_, hr, .quiet rfl rfl⟩

/-- An identifier is neither inserted again nor evicted by a sequence of operations. -/
def Stays (id : Uuid) : Store → List (Operation ε) → Prop
  | _, [] => True
  | s, o :: operations => (s.perform o).1 ≠ .inserted id ∧ ((s.perform o).2.get? id).isSome ∧
      Stays id (s.perform o).2 operations

/-- What is reported of a request while one record becomes another. Each end is reported, and no
more begins than the record had before it. -/
structure Told.Over (id : Uuid) (r r' : RequestRecord) (reports : List (Report ε)) : Prop where
  begins : beginsOf id reports + (if r'.state = .pending then 1 else 0) ≤
    if r.state = .pending then 1 else 0
  ends : endsOf id reports + (if r'.state.isTerminal then 0 else 1) =
    if r.state.isTerminal then 0 else 1
  formed : r.Formed → r'.Formed
  started : r'.startedAt.isSome ↔ r.startedAt.isSome ∨ 0 < beginsOf id reports

namespace Told

variable {ps qs : List (Report ε)} {r'' : RequestRecord}

theorem Over.refl (id : Uuid) (r : RequestRecord) : Over id r r ([] : List (Report ε)) where
  begins := by simp [beginsOf]
  ends := by simp [endsOf]
  formed := fun h => h
  started := by simp [beginsOf]

theorem Over.trans (h : Over id r r' ps) (h' : Over id r' r'' qs) : Over id r r'' (ps ++ qs) where
  begins := by
    have hb := h.begins
    have hb' := h'.begins
    rw [beginsOf_append]
    omega
  ends := by
    have he := h.ends
    have he' := h'.ends
    rw [endsOf_append]
    omega
  formed hr := h'.formed (h.formed hr)
  started := by
    rw [h'.started, h.started, beginsOf_append, or_assoc, Nat.add_pos_iff_pos_or_pos]

theorem single (h : Told id r r' p) : Over id r r' [p] := by
  cases h with
  | nothing same begins ends =>
    subst same
    exact ⟨by simp [begins], by simp [ends], fun h => h, by simp [begins]⟩
  | begun h begins ends =>
    refine ⟨?_, ?_, fun hr => hr.begin? h, ?_⟩
    all_goals obtain ⟨hpending, rfl⟩ := RequestRecord.begin?_eq_some h
    · simp [begins, hpending]
    · simp [ends, hpending]
    · simp [begins]
  | ended h begins ends =>
    have hactive := h.not_terminal
    have hend := h.terminal
    refine ⟨?_, by simp [ends, hactive, hend], h.formed, by simp [begins, h.startedAt]⟩
    have hnot : r'.state ≠ .pending := by
      intro hpending
      simp [hpending] at hend
    simp [begins, hnot]

end Told

theorem Sound.told (hs : s.Sound) {operations : List (Operation ε)}
    (hr : s.get? id = some r) (hstays : Stays id s operations) :
    ∃ r', (s.after operations).get? id = some r' ∧ Told.Over id r r' (s.reports operations) := by
  induction operations generalizing s r with
  | nil => exact ⟨r, hr, .refl id r⟩
  | cons o operations ih =>
    obtain ⟨hother, hkept, hstays⟩ := hstays
    have hperforms := performs s o
    obtain ⟨middle, hmiddle, htold⟩ := hperforms.told hs hr hother hkept
    obtain ⟨r', hr', hrest⟩ := ih (hperforms.sound hs) hmiddle hstays
    exact ⟨r', hr', htold.single.trans hrest⟩

/-- What is reported of a request between its insertion, as one record, and a time at which it is
another one. -/
structure Once (id : Uuid) (r r' : RequestRecord) (reports : List (Report ε)) : Prop where
  begins : beginsOf id reports ≤ 1
  ends : endsOf id reports ≤ 1
  ended : endsOf id reports = 1 ↔ r.state.isTerminal = false ∧ r'.state.isTerminal
  formed : r.IsNew → r'.Formed
  started : r.IsNew → (r'.startedAt.isSome ↔ beginsOf id reports = 1)

theorem Told.Over.once {reports : List (Report ε)} (h : Told.Over id r r' reports) :
    Once id r r' reports := by
  have hbegins : beginsOf id reports ≤ 1 := by
    refine Nat.le_trans (Nat.le_add_right _ _) (Nat.le_trans h.begins ?_)
    split <;> decide
  have hends := h.ends
  refine ⟨hbegins, ?_, ?_, ?_, ?_⟩
  · refine Nat.le_trans (Nat.le_add_right _ _) (Nat.le_trans (Nat.le_of_eq hends) ?_)
    split <;> decide
  · cases hold : r.state.isTerminal <;> cases hnew : r'.state.isTerminal <;>
      simp [hold, hnew] at hends ⊢ <;> omega
  · rintro ⟨i, now, agent, function, parameters, timeout, rfl⟩
    exact h.formed (RequestRecord.formed_new ..)
  · rintro ⟨i, now, agent, function, parameters, timeout, rfl⟩
    have hstarted := h.started
    simp only [RequestRecord.new, Option.isSome_none, Bool.false_eq_true, false_or] at hstarted
    rw [hstarted]
    omega

/-- How the reports of a store hang together with what it holds. Between the insertion of a record
and the next insertion or the eviction of its identifier, one begin and one end are reported. -/
structure Reported (ε : Type) (s : Store) : Prop where
  begins : ∀ (o : Operation ε) id, (∃ r ∈ (s.perform o).1.begins, r.id = id) ↔
    ∃ r, s.get? id = some r ∧ o.Begins id r.state
  ends : ∀ (o : Operation ε) id, (∃ r ∈ (s.perform o).1.ends, r.id = id) ↔
    ∃ r, s.get? id = some r ∧ o.Ends id r.state
  current : ∀ o : Operation ε, ∀ r ∈ (s.perform o).1.begins ++ (s.perform o).1.ends,
    (s.perform o).2.get? r.id = some r
  silent : ∀ o : Operation ε, (s.perform o).1.isSilent → (s.perform o).2 = s
  others : ∀ (o : Operation ε) id, o.subject? = some id → ∀ other, other ≠ id →
    (s.perform o).2.get? other = s.get? other
  inserted : ∀ (o : Operation ε) r, o.record? = some r → (s.perform o).1 = .inserted r.id →
    (s.perform o).2.get? r.id = some r
  once : ∀ (o : Operation ε) r (later : List (Operation ε)), o.record? = some r →
    (s.perform o).1 = .inserted r.id → Stays r.id (s.perform o).2 later →
    ∃ r', ((s.perform o).2.after later).get? r.id = some r' ∧
      Once r.id r r' ((s.perform o).2.reports later)

theorem Performs.inserted (h : Performs s o p t) (hr : o.record? = some r)
    (hp : p = .inserted r.id) : t.get? r.id = some r := by
  cases h with
  | @insert _ r' inserts =>
    obtain rfl : r = r' := Option.some.inj (hr.symm.trans inserts)
    rw [get?_insert, if_pos rfl]
  | _ => cases hp

/-- After any operations, on known and unknown identifiers, each transition is reported once. -/
theorem begin_and_end_reported_once (operations : List (Operation ε)) :
    Reported ε (empty.after operations) := by
  have hs : (empty.after operations).Sound := sound_empty.after operations
  refine ⟨?_, ?_, ?_, ?_, ?_, ?_, ?_⟩
  · exact fun o id => (performs _ o).begins_iff id
  · exact fun o id => (performs _ o).ends_iff hs id
  · exact fun o => (performs _ o).current hs
  · exact fun o => (performs _ o).silent
  · exact fun o id ho other hne => (performs _ o).others ho hne
  · exact fun o r hr hp => (performs _ o).inserted hr hp
  · intro o r later hr hp hstays
    have hget := (performs _ o).inserted hr hp
    obtain ⟨r', hr', hover⟩ := ((performs _ o).sound hs).told hget hstays
    exact ⟨r', hr', hover.once⟩

end Store

end RequestEngine
