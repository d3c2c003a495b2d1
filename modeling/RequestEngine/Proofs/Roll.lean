import RequestEngine.Proofs.Listing
import RequestEngine.Proofs.Operations

/-! A store as a plain list of records in the order of their insertion. As long as no identifier is
inserted twice nobody can tell the two apart: each operation is answered alike, and afterwards
whatever is looked up, listed or counted is the same. -/
namespace RequestEngine

/-- Records in the order of their insertion, and nothing else. -/
structure Roll where
  records : List RequestRecord

namespace Roll

variable {ε : Type}

/-- What is answered to an operation. -/
inductive Answer (ε : Type) where
  | inserted (id : Uuid)
  | refused (reason : ε)
  | changed (found : Option RequestRecord)
  | swept (records : List RequestRecord)
  | evicted (count : Nat)

def empty : Roll := ⟨[]⟩

def get? (l : Roll) (id : Uuid) : Option RequestRecord := l.records.find? (·.id = id)

/-- The last records, up to a number, the last of all first. -/
def recent (l : Roll) (limit : Nat) : List RequestRecord := l.records.reverse.take limit

def count (l : Roll) (state : RequestState) : Nat := l.records.countP (·.state = state)

def size (l : Roll) : Nat := l.records.length

def append (l : Roll) (r : RequestRecord) : Roll := ⟨l.records ++ [r]⟩

/-- Change a record in its place, in a way that may not apply. -/
def update (l : Roll) (id : Uuid) (f : RequestRecord → Option RequestRecord) :
    Option RequestRecord × Roll :=
  ((l.get? id).bind f, ⟨l.records.map fun r => if r.id = id then (f r).getD r else r⟩)

/-- Fail each record that runs, in its place. -/
def failRunning (l : Roll) (now : Instant) (message : String) : List RequestRecord × Roll :=
  ((l.records.filter (·.state = .running)).filterMap (·.fail? now .failed message),
    ⟨l.records.map fun r =>
      if r.state = .running then (r.fail? now .failed message).getD r else r⟩)

/-- Strike out the foremost records that have ended, as many as a number says. -/
def strike : Nat → List RequestRecord → List RequestRecord
  | 0, l => l
  | _, [] => []
  | n + 1, r :: l => if r.state.isTerminal then strike n l else r :: strike (n + 1) l

/-- Strike out records that have ended until there are no more of them than are to be kept. -/
def cleanup (l : Roll) (keep : Nat) : Nat × Roll :=
  let ended := l.records.countP (·.state.isTerminal)
  if keep < ended then (ended - keep, ⟨strike (ended - keep) l.records⟩) else (0, l)

def perform (l : Roll) : Store.Operation ε → Answer ε × Roll
  | .insert r => (.inserted r.id, l.append r)
  | .insertIf r allow =>
    match allow r.id with
    | .ok _ => (.inserted r.id, l.append r)
    | .error reason => (.refused reason, l)
  | .begin now id =>
    let (found, l) := l.update id (·.begin? now)
    (.changed found, l)
  | .complete now id v =>
    let (found, l) := l.update id (·.complete? now v)
    (.changed found, l)
  | .fail now id kind message =>
    let (found, l) := l.update id (·.fail? now kind message)
    (.changed found, l)
  | .cancel now id message =>
    let (found, l) := l.update id (·.fail? now .cancelled message)
    (.changed found, l)
  | .failRunning now message =>
    let (records, l) := l.failRunning now message
    (.swept records, l)
  | .cleanup keep =>
    let (count, l) := l.cleanup keep
    (.evicted count, l)

def after (l : Roll) (operations : List (Store.Operation ε)) : Roll :=
  operations.foldl (fun l o => (l.perform o).2) l

def answers (l : Roll) : List (Store.Operation ε) → List (Answer ε)
  | [] => []
  | o :: operations => (l.perform o).1 :: (l.perform o).2.answers operations

variable {l : Roll} {r old : RequestRecord} {id : Uuid}
  {f : RequestRecord → Option RequestRecord}

theorem get?_eq_some (hl : (l.records.map (·.id)).Nodup) :
    l.get? id = some r ↔ r ∈ l.records ∧ r.id = id := find?_key_eq_some hl

theorem update_of_none (hl : (l.records.map (·.id)).Nodup) (h : (l.get? id).bind f = none) :
    l.update id f = (none, l) := by
  have hsame : l.records.map (fun r => if r.id = id then (f r).getD r else r) = l.records := by
    refine (List.map_congr_left fun r hr => ?_).trans (List.map_id _)
    split
    · rename_i hid
      rw [(get?_eq_some hl).2 ⟨hr, hid⟩, Option.bind_some] at h
      rw [h, Option.getD_none, id_eq]
    · rfl
  rw [update, h, hsame]

theorem update_of_some (hl : (l.records.map (·.id)).Nodup) (hold : old ∈ l.records)
    (h : f old = some r) (hid : r.id = old.id) : l.update old.id f =
      (some r, ⟨l.records.map fun x => if x.id = r.id then r else x⟩) := by
  have hmap : l.records.map (fun x => if x.id = old.id then (f x).getD x else x) =
      l.records.map fun x => if x.id = r.id then r else x := by
    refine List.map_congr_left fun x hx => ?_
    rw [hid]
    split
    · rename_i hsame
      rw [List.inj_on_of_nodup_map hl hx hold hsame, h, Option.getD_some]
    · rfl
  rw [update, (get?_eq_some hl).2 ⟨hold, rfl⟩, Option.bind_some, h, hmap]

theorem strike_zero (records : List RequestRecord) : strike 0 records = records := by
  cases records <;> rfl

theorem strike_nil (n : Nat) : strike n [] = [] := by cases n <;> rfl

/-- Those are struck out who are among the first that have ended. -/
theorem strike_eq_filter (n : Nat) (records : List RequestRecord)
    (h : (records.map (·.id)).Nodup) : strike n records =
      records.filter fun r =>
        !(((records.filter (·.state.isTerminal)).map (·.id)).take n).contains r.id := by
  induction records generalizing n with
  | nil => exact strike_nil n
  | cons r records ih =>
    obtain ⟨hnew, hrest⟩ := List.nodup_cons.1 h
    cases n with
    | zero => simp [strike]
    | succ n =>
      by_cases ht : r.state.isTerminal
      · have hothers : ∀ x ∈ records, x.id ≠ r.id := fun x hx hid =>
          hnew (List.mem_map.2 ⟨x, hx, hid⟩)
        have hended : (r :: records).filter (·.state.isTerminal) =
            r :: records.filter (·.state.isTerminal) := List.filter_cons_of_pos ht
        rw [strike, if_pos ht, ih n hrest, hended, List.map_cons, List.take_succ_cons,
          List.filter_cons_of_neg (by simp)]
        refine List.filter_congr fun x hx => ?_
        simp [hothers x hx]
      · have hended : (r :: records).filter (·.state.isTerminal) =
            records.filter (·.state.isTerminal) := List.filter_cons_of_neg ht
        have hkept : r.id ∉ ((records.filter (·.state.isTerminal)).map (·.id)).take (n + 1) := by
          intro hmem
          obtain ⟨x, hx, hid⟩ := List.mem_map.1 (List.mem_of_mem_take hmem)
          exact hnew (List.mem_map.2 ⟨x, (List.mem_filter.1 hx).1, hid⟩)
        rw [strike, if_neg ht, ih (n + 1) hrest, hended,
          List.filter_cons_of_pos (by simpa using hkept)]

/-- Among records that have all ended those to be struck out are the foremost. -/
theorem strike_of_ended (n : Nat) (records : List RequestRecord)
    (h : ∀ r ∈ records, r.state.isTerminal) : strike n records = records.drop n := by
  induction records generalizing n with
  | nil => rw [strike_nil, List.drop_nil]
  | cons r records ih =>
    cases n with
    | zero => rfl
    | succ n =>
      rw [strike, if_pos (h r List.mem_cons_self), List.drop_succ_cons]
      exact ih n fun x hx => h x (List.mem_cons_of_mem r hx)

theorem cleanup_of_ended (keep : Nat) (h : ∀ r ∈ l.records, r.state.isTerminal) :
    (l.cleanup keep).2.records = l.records.drop (l.records.length - keep) := by
  have hall : l.records.countP (·.state.isTerminal) = l.records.length :=
    List.countP_eq_length.2 h
  unfold cleanup
  rw [hall]
  dsimp only
  split
  · exact strike_of_ended _ _ h
  · rw [show l.records.length - keep = 0 by omega, List.drop_zero]

end Roll

namespace Store

variable {ε : Type}

/-- What a roll answers in place of a report: all but the tokens. -/
def Report.plain : Report ε → Roll.Answer ε
  | .inserted id => .inserted id
  | .refused reason => .refused reason
  | .begun found => .changed (found.map (·.1))
  | .ended found => .changed found
  | .swept records => .swept records
  | .evicted count => .evicted count

def Operation.inserted? : Operation ε → Option Uuid
  | .insert r => some r.id
  | .insertIf r allow => (allow r.id).toOption.map fun _ => r.id
  | _ => none

/-- No identifier is inserted twice. -/
def Fresh (operations : List (Operation ε)) : Prop := (operations.filterMap (·.inserted?)).Nodup

/-- Whatever is looked up, listed or counted is the same. -/
structure Alike (s : Store) (l : Roll) : Prop where
  get : ∀ id, s.get? id = l.get? id
  recent : ∀ limit, s.recent limit = l.recent limit
  count : ∀ state, s.count state = l.count state
  size : s.size = l.size

/-- A store holds the records of a roll, all of which have been inserted. -/
structure Mirrors (inserted : List Uuid) (s : Store) (l : Roll) : Prop where
  sound : s.Sound
  listed : s.Listed
  records : s.records = l.records
  known : ∀ r ∈ l.records, r.id ∈ inserted

/-- The places are those of the records that are there, whatever their order. -/
def Placed (s : Store) : Prop := ∀ id, id ∈ s.order ↔ id ∈ s.records.map (·.id)

variable {s t : Store} {l : Roll} {o : Operation ε} {p : Report ε} {r : RequestRecord} {id : Uuid}
  {inserted : List Uuid} {f : RequestRecord → Option RequestRecord} {x : Entry}

theorem mirrors_empty : Mirrors [] Store.empty Roll.empty :=
  ⟨sound_empty, rfl, rfl, by simp [Roll.empty]⟩

theorem Mirrors.nodup (h : Mirrors inserted s l) : (l.records.map (·.id)).Nodup := by
  rw [← h.records, Store.records, List.map_map]
  exact h.sound.distinct

theorem Mirrors.alike (h : Mirrors inserted s l) : s.Alike l where
  get id := by
    ext r
    rw [get?_eq_some h.sound, Roll.get?_eq_some h.nodup, h.records]
  recent limit := by
    rw [h.listed.recent h.sound, h.records]
    rfl
  count state := by
    rw [Store.count, ← List.countP_eq_length_filter, Roll.count, ← h.records, Store.records,
      List.countP_map]
    rfl
  size := by
    rw [Roll.size, ← h.records]
    exact List.length_map _ |>.symm

theorem Mirrors.insert (h : Mirrors inserted s l) (hnew : r.id ∉ inserted) :
    Mirrors (inserted ++ [r.id]) (s.insert r) (l.append r) := by
  have hothers : ∀ x ∈ s.entries, x.record.id ≠ r.id := by
    intro x hx hid
    have hmem : x.record ∈ l.records := h.records ▸ List.mem_map_of_mem hx
    exact hnew (hid ▸ h.known x.record hmem)
  refine ⟨h.sound.insert r, h.listed.insert hothers, ?_, ?_⟩
  · rw [Store.records, insert_entries hothers, Roll.append, ← h.records]
    exact List.map_append
  · intro x hx
    obtain hx | hx := List.mem_append.1 hx
    · exact List.mem_append_left _ (h.known x hx)
    · rw [List.mem_singleton.1 hx]
      exact List.mem_append_right _ (List.mem_singleton_self _)

theorem Mirrors.replace (h : Mirrors inserted s l) (hx : s.entry? id = some x)
    (hf : f x.record = some r) (hid : r.id = x.record.id) (ht : t.Sound)
    (he : t.entries = (s.replace r).entries) (ho : t.order = s.order) :
    (l.update id f).1 = some r ∧ Mirrors inserted t (l.update id f).2 := by
  obtain ⟨hmem, rfl⟩ := (entry?_eq_some h.sound).1 hx
  have hold : x.record ∈ l.records := h.records ▸ List.mem_map_of_mem hmem
  have hrecords : t.records = l.records.map fun y => if y.id = r.id then r else y := by
    rw [← h.records, Store.records, he, Store.records, Store.replace, List.map_map, List.map_map]
    refine List.map_congr_left fun y _ => ?_
    simp only [Function.comp_apply]
    split <;> rfl
  have hlisted : t.Listed := by
    have hreplaced := h.listed.replace r
    rw [Listed, Store.records, he, ho]
    exact hreplaced
  rw [Roll.update_of_some h.nodup hold hf hid]
  refine ⟨rfl, ht, hlisted, hrecords, ?_⟩
  intro y hy
  obtain ⟨z, hz, rfl⟩ := List.mem_map.1 hy
  split
  · rw [hid]
    exact h.known _ hold
  · exact h.known z hz

theorem Mirrors.keep (h : Mirrors inserted s l) (hf : (s.get? id).bind f = none) :
    (l.update id f).1 = none ∧ Mirrors inserted s (l.update id f).2 := by
  rw [h.alike.get] at hf
  rw [Roll.update_of_none h.nodup hf]
  exact ⟨rfl, h⟩

theorem Mirrors.begin (h : Mirrors inserted s l) (now : Instant) (id : Uuid) :
    (s.perform (.begin now id : Operation ε)).1.plain = .changed (l.update id (·.begin? now)).1 ∧
      Mirrors inserted (s.perform (.begin now id : Operation ε)).2
        (l.update id (·.begin? now)).2 := by
  have hperforms := performs s (.begin now id : Operation ε)
  have hsound := hperforms.sound h.sound
  generalize s.perform (.begin now id : Operation ε) = answer at hperforms hsound ⊢
  obtain ⟨p, t⟩ := answer
  cases hperforms with
  | @begin _ _ x r hx hbegin =>
    have hid : r.id = x.record.id := by rw [(RequestRecord.begin?_eq_some hbegin).2]
    obtain ⟨hfound, hmirrors⟩ := h.replace (f := (·.begin? now)) hx hbegin hid hsound rfl rfl
    exact ⟨congrArg Roll.Answer.changed hfound.symm, hmirrors⟩
  | notBegun hnone =>
    obtain ⟨hfound, hmirrors⟩ := h.keep hnone
    exact ⟨congrArg Roll.Answer.changed hfound.symm, hmirrors⟩
  | insert inserts => cases inserts
  | refuse inserts => cases inserts
  | finish ends => cases ends
  | notFinished ends => cases ends

theorem Mirrors.finish (h : Mirrors inserted s l) (ends : o.ending? = some (id, f)) :
    (s.perform o).1.plain = .changed (l.update id f).1 ∧
      Mirrors inserted (s.perform o).2 (l.update id f).2 := by
  have hperforms := performs s o
  have hsound := hperforms.sound h.sound
  generalize s.perform o = answer at hperforms hsound ⊢
  obtain ⟨p, t⟩ := answer
  cases hperforms with
  | @finish _ _ _ x r _ ends' hx hf =>
    obtain ⟨rfl, rfl⟩ := Prod.mk.inj (Option.some.inj (ends.symm.trans ends'))
    have hid := ((Operation.ending?_spec ends).1 _ _ hf).id
    obtain ⟨hfound, hmirrors⟩ := h.replace hx hf hid hsound rfl rfl
    exact ⟨congrArg Roll.Answer.changed hfound.symm, hmirrors⟩
  | notFinished ends' hnone =>
    obtain ⟨rfl, rfl⟩ := Prod.mk.inj (Option.some.inj (ends.symm.trans ends'))
    obtain ⟨hfound, hmirrors⟩ := h.keep hnone
    exact ⟨congrArg Roll.Answer.changed hfound.symm, hmirrors⟩
  | insert inserts => cases o <;> simp_all [Operation.record?, Operation.ending?]
  | refuse inserts => cases o <;> simp_all [Operation.record?, Operation.ending?]
  | begin => cases ends
  | notBegun => cases ends
  | sweep => cases ends
  | cleanup => cases ends

theorem failEntry_record (now : Instant) (message : String) (x : Entry) :
    (failEntry now message x).record =
      if x.record.state = .running then (x.record.fail? now .failed message).getD x.record
      else x.record := by
  obtain ⟨hrun, r, hr, he⟩ | ⟨hidle, he⟩ := failEntry_cases now message x
  · rw [he, if_pos hrun, hr, Option.getD_some]
  · rw [he, if_neg hidle]

theorem Mirrors.failRunning (h : Mirrors inserted s l) (now : Instant) (message : String) :
    (s.failRunning now message).1 = (l.failRunning now message).1 ∧
      Mirrors inserted (s.failRunning now message).2 (l.failRunning now message).2 := by
  refine ⟨?_, h.sound.failRunning now message, h.listed.failRunning now message, ?_, ?_⟩
  · simp only [Store.failRunning, Roll.failRunning, ← h.records, Store.records, List.filter_map,
      List.filterMap_map]
    rw [← List.filterMap_eq_map]
    refine List.filterMap_congr fun x hx => ?_
    have hrun : x.record.state = .running := by
      simpa [Entry.isRunning] using (List.mem_filter.1 hx).2
    have hfails : ∃ r, x.record.fail? now .failed message = some r := by
      simp [RequestRecord.fail?, hrun]
    obtain ⟨r, hr⟩ := hfails
    simp only [Function.comp_apply, failEntry_record, if_pos hrun, hr, Option.getD_some]
  · simp only [Store.failRunning, Roll.failRunning, ← h.records, Store.records, List.map_map]
    exact List.map_congr_left fun x _ => failEntry_record now message x
  · intro y hy
    obtain ⟨x, hx, rfl⟩ := List.mem_map.1 hy
    have hid : (if x.state = .running then (x.fail? now .failed message).getD x else x).id =
        x.id := by
      split
      · cases hr : x.fail? now .failed message with
        | none => rfl
        | some r => rw [Option.getD_some, (RequestRecord.fail?_eq_some hr).2]
      · rfl
    exact hid ▸ h.known x hx

/-- The places of what has ended are those of the records that have ended. -/
theorem Mirrors.ended (h : Mirrors inserted s l) :
    s.ended = (l.records.filter (·.state.isTerminal)).map (·.id) := by
  rw [Store.ended, show s.order = s.records.map (·.id) from h.listed, h.records, List.filter_map]
  congr 1
  refine List.filter_congr fun r hr => ?_
  rw [Function.comp_apply, h.alike.get, (Roll.get?_eq_some h.nodup).2 ⟨hr, rfl⟩, Option.any_some]

theorem Mirrors.cleanup (h : Mirrors inserted s l) (keep : Nat) :
    (s.cleanup keep).1 = (l.cleanup keep).1 ∧
      Mirrors inserted (s.cleanup keep).2 (l.cleanup keep).2 := by
  have hlength : s.ended.length = l.records.countP (·.state.isTerminal) := by
    rw [h.ended, List.length_map, List.countP_eq_length_filter]
  have hevicted : (s.ended.take (s.ended.length - keep)).eraseDups =
      s.ended.take (s.ended.length - keep) := by
    refine eraseDups_of_nodup ((List.take_sublist _ _).nodup ?_)
    rw [h.ended]
    exact (List.filter_sublist.map _).nodup h.nodup
  have hrecords : (s.cleanup keep).2.records =
      Roll.strike (s.ended.length - keep) l.records := by
    rw [Roll.strike_eq_filter _ _ h.nodup, ← h.ended, ← h.records, Store.records, Store.records,
      Store.cleanup, hevicted, List.filter_map]
    rfl
  have hmirrors : ∀ l' : Roll, l'.records = Roll.strike (s.ended.length - keep) l.records →
      Mirrors inserted (s.cleanup keep).2 l' := by
    intro l' hl'
    refine ⟨h.sound.cleanup keep, h.listed.cleanup keep, hrecords.trans hl'.symm, ?_⟩
    intro r hr
    rw [hl', Roll.strike_eq_filter _ _ h.nodup] at hr
    exact h.known r (List.mem_filter.1 hr).1
  have hcount : (s.cleanup keep).1 = s.ended.length - keep := by
    rw [Store.cleanup, hevicted, List.length_take]
    omega
  unfold Roll.cleanup
  simp only [← hlength]
  split
  · exact ⟨hcount, hmirrors _ rfl⟩
  · have hnone : s.ended.length - keep = 0 := by omega
    exact ⟨hcount.trans hnone, hmirrors l (by rw [hnone, Roll.strike_zero])⟩

theorem Mirrors.perform (h : Mirrors inserted s l) (o : Operation ε)
    (hnew : ∀ id, o.inserted? = some id → id ∉ inserted) :
    (s.perform o).1.plain = (l.perform o).1 ∧
      Mirrors (inserted ++ o.inserted?.toList) (s.perform o).2 (l.perform o).2 := by
  cases o with
  | insert r => exact ⟨rfl, h.insert (hnew r.id rfl)⟩
  | insertIf r allow =>
    cases ha : allow r.id with
    | ok _ =>
      have hid := hnew r.id (by simp [Operation.inserted?, ha, Except.toOption])
      simpa [Store.perform, insertIf, Roll.perform, Operation.inserted?, ha, bind, Except.bind,
        pure, Except.pure, Report.plain, Except.toOption] using h.insert hid
    | error reason =>
      simpa [Store.perform, insertIf, Roll.perform, Operation.inserted?, ha, bind, Except.bind,
        Report.plain, Except.toOption] using h
  | begin now id => simpa [Operation.inserted?, Roll.perform] using h.begin now id
  | complete now id v =>
    simpa [Operation.inserted?, Roll.perform] using h.finish (o := .complete now id v) rfl
  | fail now id kind message =>
    simpa [Operation.inserted?, Roll.perform] using h.finish (o := .fail now id kind message) rfl
  | cancel now id message =>
    simpa [Operation.inserted?, Roll.perform] using h.finish (o := .cancel now id message) rfl
  | failRunning now message =>
    simpa [Operation.inserted?, Roll.perform, Store.perform, Report.plain] using
      h.failRunning now message
  | cleanup keep =>
    simpa [Operation.inserted?, Roll.perform, Store.perform, Report.plain] using h.cleanup keep

theorem Mirrors.after (h : Mirrors inserted s l) (operations : List (Operation ε))
    (hfresh : (inserted ++ operations.filterMap (·.inserted?)).Nodup) :
    (s.reports operations).map (·.plain) = l.answers operations ∧
      (s.after operations).Alike (l.after operations) := by
  induction operations generalizing inserted s l with
  | nil => exact ⟨rfl, h.alike⟩
  | cons o operations ih =>
    have hsplit : inserted ++ (o :: operations).filterMap (·.inserted?) =
        (inserted ++ o.inserted?.toList) ++ operations.filterMap (·.inserted?) := by
      cases ho : o.inserted? <;> simp [ho]
    rw [hsplit] at hfresh
    have hnew : ∀ id, o.inserted? = some id → id ∉ inserted := by
      intro id hid hmem
      have hfirst := (List.nodup_append.1 hfresh).1
      rw [hid, List.nodup_append] at hfirst
      exact hfirst.2.2 id hmem id (by simp) rfl
    obtain ⟨hanswer, hmirrors⟩ := h.perform o hnew
    obtain ⟨hanswers, halike⟩ := ih hmirrors hfresh
    exact ⟨congrArg₂ List.cons hanswer hanswers, halike⟩

theorem Placed.replace (h : s.Placed) (r : RequestRecord) : (s.replace r).Placed := by
  intro id
  rw [map_id_replace]
  exact h id

theorem Placed.insert (h : s.Placed) (r : RequestRecord) : (s.insert r).Placed := by
  intro id
  have hid := h id
  simp only [Store.insert, Store.records, List.mem_append, List.mem_map, List.mem_filter,
    List.mem_singleton] at hid ⊢
  grind

theorem Placed.cleanup (h : s.Placed) (keep : Nat) : (s.cleanup keep).2.Placed := by
  intro id
  have hid := h id
  simp only [Store.cleanup, Store.records, List.map_map, List.mem_filter, List.mem_map,
    Function.comp_apply] at hid ⊢
  rw [hid]
  grind

theorem Performs.placed (h : Performs s o p t) (hs : s.Placed) : t.Placed := by
  cases h with
  | insert => exact hs.insert _
  | refuse => exact hs
  | begin => exact hs.replace _
  | notBegun => exact hs
  | @finish _ _ _ _ r => exact hs.replace r
  | notFinished => exact hs
  | sweep now message =>
    intro id
    have hid := hs id
    simpa [Store.failRunning, Store.records, Function.comp_def, failEntry_record_id] using hid
  | cleanup keep => exact hs.cleanup keep

theorem Placed.after (h : s.Placed) (operations : List (Operation ε)) :
    (s.after operations).Placed := by
  induction operations generalizing s with
  | nil => exact h
  | cons o operations ih => exact ih ((performs s o).placed h)

/-- A store and a roll after the same operations, and the places of the store. -/
structure Refined (operations : List (Operation ε)) : Prop where
  answers : Fresh operations →
    (Store.empty.reports operations).map (·.plain) = Roll.empty.answers operations
  alike : Fresh operations → (Store.empty.after operations).Alike (Roll.empty.after operations)
  placed : ∀ id, id ∈ (Store.empty.after operations).order ↔
    ∃ x ∈ (Store.empty.after operations).entries, x.record.id = id

theorem store_answers_eq_roll (operations : List (Operation ε)) : Refined operations := by
  refine ⟨fun hfresh => (mirrors_empty.after operations hfresh).1,
    fun hfresh => (mirrors_empty.after operations hfresh).2, ?_⟩
  intro id
  have hempty : Store.empty.Placed := fun _ => Iff.rfl
  rw [hempty.after operations id]
  simp [Store.records]

/-- Of three requests one completes and another is cut short. Only the later of the two is kept. -/
def mixed : List (Operation Unit) :=
  let request (n : Nat) := RequestRecord.new (.ofNat n) (.ofMillis 0) "a" "f" .null 0
  [.insert (request 1),
    .insertIf (request 2) fun _ => .ok (),
    .insertIf (request 3) fun _ => .error (),
    .insert (request 4),
    .begin (.ofMillis 1) (.ofNat 2),
    .begin (.ofMillis 1) (.ofNat 1),
    .complete (.ofMillis 2) (.ofNat 1) .null,
    .cancel (.ofMillis 3) (.ofNat 1) "late",
    .failRunning (.ofMillis 4) "stopped",
    .cleanup 1]

theorem store_answers_eq_roll_mixed : Fresh mixed ∧
    (Store.empty.reports mixed).map (·.plain) = Roll.empty.answers mixed ∧
    (Store.empty.after mixed).recent 5 = (Roll.empty.after mixed).recent 5 ∧
    ((Store.empty.after mixed).recent 5).map (fun r => (r.id, r.state)) =
      [(.ofNat 4, .pending), (.ofNat 2, .failed)] := by
  have hfresh : Fresh mixed := by
    unfold Fresh
    decide +kernel
  have h := store_answers_eq_roll mixed
  exact ⟨hfresh, h.answers hfresh, (h.alike hfresh).recent 5, by decide +kernel⟩

end Store

end RequestEngine
