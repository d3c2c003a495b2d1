import RequestEngine.Proofs.Session

/-! The records as a list. They stand in the order of their submissions, each changes in its place,
and a call knows when its request began. -/
namespace RequestEngine

open Ledger (submitted Tells)

theorem RequestRecord.map_id_of_forall₂ {l l' : List RequestRecord}
    (h : List.Forall₂ Becomes l l') : l'.map (·.id) = l.map (·.id) := by
  induction h with
  | nil => rfl
  | cons hxy _ ih => simp [hxy.id, ih]

namespace Ledger

variable {b b' : Ledger} {log new : List RequestEvent} {event : RequestEvent}

theorem Step.moves (h : Step b event b') (hb : b.Sound log) (hnew : event.submission? = none) :
    List.Forall₂ RequestRecord.Becomes b.records b'.records := by
  cases h with
  | submit => cases hnew
  | start _ begins records =>
    apply records.forall₂ RequestRecord.Becomes.refl
    exact RequestRecord.becomes_of_begin? (hb.proper _ records.mem) begins
  | finish _ ends records => exact records.forall₂ RequestRecord.Becomes.refl ends.becomes

theorem Tells.moves (h : Tells b new b') (hb : b.Sound log) (hnew : submitted new = []) :
    List.Forall₂ RequestRecord.Becomes b.records b'.records := by
  have hfresh : (submitted (log ++ new)).Nodup := by simpa [hnew] using hb.fresh
  refine h.invariant (P := fun done c => submitted done = [] →
    List.Forall₂ RequestRecord.Becomes b.records c.records) hb hfresh
    (fun _ => List.forall₂_same.2 fun r _ => .refl r) ?_ hnew
  intro c c' done event hc hstep _ hmoved hdone
  have hsplit : submitted done = [] ∧ event.submission? = none := by
    obtain ⟨hdone, hevent⟩ := List.append_eq_nil_iff.1 (submitted_append done _ ▸ hdone)
    exact ⟨hdone, List.filterMap_eq_nil_iff.1 hevent event List.mem_cons_self⟩
  have hmoves := hstep.moves hc hsplit.2
  exact forall₂_comp (hmoved hsplit.1) hmoves fun _ _ _ h h' => h.trans h'

end Ledger

namespace Store

variable {s t : Store} {r : RequestRecord} {id : Uuid}

/-- The places are those of the records, in the same order. -/
def Listed (s : Store) : Prop := s.order = s.records.map (·.id)

theorem change?_replaces {f : RequestRecord → Option RequestRecord}
    (h : s.change? id f = some (r, t)) : t = s.replace r := by
  obtain ⟨old, -, h⟩ := Option.bind_eq_some_iff.1 h
  obtain ⟨r', -, h⟩ := Option.bind_eq_some_iff.1 h
  obtain ⟨rfl, rfl⟩ := Prod.mk.inj (Option.some.inj h)
  rfl

theorem begin?_replaces {now : Instant} {token : Token}
    (h : s.begin? now id = some (r, token, t)) : t = s.replace r ∧ r.startedAt = some now := by
  obtain ⟨x, hx, h⟩ := Option.bind_eq_some_iff.1 h
  obtain ⟨⟨r', t'⟩, hc, h⟩ := Option.bind_eq_some_iff.1 h
  obtain ⟨rfl, -, rfl⟩ : r' = r ∧ x.token = token ∧ t' = t := by simpa using h
  refine ⟨change?_replaces hc, ?_⟩
  obtain ⟨old, -, hc⟩ := Option.bind_eq_some_iff.1 hc
  obtain ⟨r'', hbegin, hc⟩ := Option.bind_eq_some_iff.1 hc
  obtain ⟨rfl, -⟩ := Prod.mk.inj (Option.some.inj hc)
  rw [(RequestRecord.begin?_eq_some hbegin).2]

theorem map_id_replace (s : Store) (r : RequestRecord) :
    (s.replace r).records.map (·.id) = s.records.map (·.id) := by
  simp only [records, replace, List.map_map]
  apply List.map_congr_left
  intro x _
  simp only [Function.comp_apply]
  split
  · rename_i h
    exact h.symm
  · rfl

theorem Listed.replace (h : s.Listed) (r : RequestRecord) : (s.replace r).Listed := by
  rw [Listed, map_id_replace]
  exact h

theorem Listed.insert (h : s.Listed) (hnew : ∀ x ∈ s.entries, x.record.id ≠ r.id) :
    (s.insert r).Listed := by
  rw [Listed, records, insert_entries hnew]
  simp [Store.insert, show s.order = s.records.map (·.id) from h, records]

theorem Listed.cleanup (h : s.Listed) (keep : Nat) : (s.cleanup keep).2.Listed := by
  have horder : s.order = s.entries.map fun x => x.record.id := by
    simpa [Listed, records, Function.comp_def] using h
  simp only [Listed, Store.cleanup, records, List.map_map]
  rw [horder, List.filter_map]
  rfl

theorem Listed.failRunning (h : s.Listed) (now : Instant) (message : String) :
    (s.failRunning now message).2.Listed := by
  have horder : s.order = s.entries.map fun x => x.record.id := by
    simpa [Listed, records, Function.comp_def] using h
  simp [Listed, Store.failRunning, records, Function.comp_def, failEntry_record_id, horder]

theorem Listed.recent (h : s.Listed) (hs : s.Sound) (limit : Nat) :
    s.recent limit = s.records.reverse.take limit := by
  have hget : ∀ r ∈ s.records.reverse, s.get? r.id = some r :=
    fun r hr => (get?_eq_some hs).2 ⟨List.mem_reverse.1 hr, rfl⟩
  have hall : (s.records.reverse.map (·.id)).filterMap s.get? = s.records.reverse := by
    rw [List.filterMap_map]
    exact (List.filterMap_congr hget).trans List.filterMap_some
  rw [Store.recent, show s.order = s.records.map (·.id) from h, ← List.map_reverse, hall]

end Store

namespace Engine

/-- The store lists its records, and each call knows when its request began. -/
structure Regular (e : Engine) : Prop where
  listed : e.store.Listed
  punctual : ∀ j ∈ e.jobs, j.record.startedAt = some (.ofMillis (e.startMs + j.startedMs))

variable {e e' : Engine} {log : List RequestEvent} {j : Job}

theorem Regular.of_eq (h : e.Regular) (hs : e'.store = e.store) (hj : e'.jobs ⊆ e.jobs)
    (ht : e'.startMs = e.startMs) : e'.Regular :=
  ⟨hs ▸ h.listed, fun j hmem => ht ▸ h.punctual j (hj hmem)⟩

/-- A report leaves all alone but one record and what is told of it. -/
theorem Regular.report (h : e.Regular) {change : Option (RequestRecord × Store)}
    (hc : ∀ r store, change = some (r, store) → store = e.store.replace r) :
    (e.report change).Regular := by
  cases change with
  | none => exact h
  | some change =>
    obtain ⟨r, store⟩ := change
    have hstore := hc r store rfl
    exact ⟨by rw [show (e.report (some (r, store))).store = e.store.replace r from hstore]
              exact h.listed.replace r, h.punctual⟩

theorem Regular.fail (h : e.Regular) (id : Uuid) (kind : FailureKind) (message : String) :
    (e.fail id kind message).Regular :=
  h.report fun _ _ hc => Store.change?_replaces hc

theorem Regular.complete (h : e.Regular) (id : Uuid) (v : Json) : (e.complete id v).Regular :=
  h.report fun _ _ hc => Store.change?_replaces hc

theorem Regular.conclude (h : e.Regular) (j : Job) : (e.conclude j).Regular := by
  unfold Engine.conclude
  simp only
  split
  · exact h
  · split
    · exact h.complete _ _
    · exact h.fail _ _ _
    · exact h.fail _ _ _
    · exact h.fail _ _ _

theorem jobs_finish_subset (e : Engine) (j : Job) :
    ({ e with pool := e.pool.map (·.finish j) } : Engine).jobs ⊆ e.jobs := by
  have hfilter : ∀ l : List Job, l.filter (·.token ≠ j.token) ⊆ l :=
    fun l => List.filter_subset_self l
  have hpool : ∀ p : Pool, (p.finish j).jobs ⊆ p.jobs := by
    intro p k hk
    unfold Pool.finish at hk
    split at hk
    · exact List.mem_append.2 ((List.mem_append.1 hk).imp (@hfilter _ _) id)
    · exact List.mem_append.2 ((List.mem_append.1 hk).imp id (@hfilter _ _))
  cases hp : e.pool with
  | none => simp [jobs, hp]
  | some p => simpa [jobs, hp] using hpool p

theorem Regular.finish (h : e.Regular) (j : Job) : (e.finish j).Regular := by
  apply Regular.conclude
  exact h.of_eq rfl (jobs_finish_subset e j) rfl

theorem Regular.begun (h : e.Regular) {id : Uuid} {w : Nat} {queue : WorkQueue}
    {r : RequestRecord} {p : Pool}
    (hjobs : ∀ j ∈ p.jobs, j ∈ e.jobs ∨ j.record.startedAt = some e.now ∧ j.startedMs = e.clock) :
    (e.begun id w queue (e.store.replace r) p).Regular := by
  refine ⟨h.listed.replace r, ?_⟩
  intro j hj
  obtain hj | ⟨hnow, hstarted⟩ := hjobs j hj
  · exact h.punctual j hj
  · rw [hnow, hstarted]
    rfl

theorem Regular.dispatch (h : e.Regular) (hd : e.dispatch? = some e') : e'.Regular := by
  obtain ⟨p, w, id, queue, hp, -, -, hcases⟩ := dispatch?_eq_some hd
  have hrotate : ∀ j ∈ p.rotate.jobs, j ∈ e.jobs ∨ j.record.startedAt = some e.now ∧
      j.startedMs = e.clock := fun j hj => .inl (by rw [jobs_of_pool hp]; exact hj)
  cases hcases with
  | stale _ => exact h.of_eq rfl (List.Subset.refl _) rfl
  | called begins _ _ =>
    obtain ⟨rfl, hnow⟩ := Store.begin?_replaces begins
    apply h.begun
    intro j hj
    obtain rfl | hj := List.mem_cons.1 ((Pool.jobs_assign p _).mem_iff.1 hj)
    · exact .inr ⟨hnow, rfl⟩
    · exact .inl (by rw [jobs_of_pool hp]; exact hj)
  | unknown begins _ =>
    obtain ⟨rfl, -⟩ := Store.begin?_replaces begins
    exact (h.begun hrotate).fail _ _ _
  | resting begins _ _ =>
    obtain ⟨rfl, -⟩ := Store.begin?_replaces begins
    exact (h.begun hrotate).fail _ _ _

theorem Regular.turn (h : e.Regular) (ht : Turn e e') : e'.Regular := by
  cases ht with
  | finish _ _ => exact h.finish _
  | dispatch hd => exact h.dispatch hd
  | pass _ => exact h.of_eq rfl (List.Subset.refl _) rfl

theorem Regular.turns (h : e.Regular) (ht : Turns e e') : e'.Regular := by
  induction ht with
  | refl => exact h
  | tail _ turn ih => exact ih.turn turn

theorem Regular.stop (h : e.Regular) : e.stop.Regular := by
  obtain ⟨-, hstop⟩ | ⟨-, _, _, hstop⟩ := stop_cases e
  · rw [hstop]
    exact h
  · have hretired : ({ e with pool := e.pool.map Pool.retire } : Engine).Regular :=
      h.of_eq rfl (jobs_retire e).subset rfl
    have hdrained := hretired.turns (drain_turns e)
    rw [hstop]
    exact ⟨hdrained.listed.failRunning _ _, by simp [jobs, abandon]⟩

theorem Regular.cancel (h : e.Regular) (id : Uuid) : (e.cancel id).2.Regular := by
  unfold Engine.cancel
  split
  · rename_i r store hc
    obtain ⟨x, -, hc⟩ := Option.bind_eq_some_iff.1 hc
    obtain ⟨⟨r₁, store₁⟩, hf, hc⟩ := Option.bind_eq_some_iff.1 hc
    obtain ⟨rfl, rfl⟩ := Prod.mk.inj (Option.some.inj hc)
    have hstore := Store.change?_replaces hf
    exact ⟨by simpa [hstore, Engine.recordEnd, Store.Listed, Store.records] using
      h.listed.replace r₁, h.punctual⟩
  · exact h

theorem Regular.submit (h : e.Regular) (he : e.Sound log) {id : Uuid} {agent function : String}
    {parameters : Json} {timeout : Option UInt64}
    (hnew : ∀ e', e.enqueue id agent function parameters timeout = .ok e' → id ∉ submitted log) :
    (e.submit id agent function parameters timeout).2.Regular := by
  unfold Engine.submit
  split
  · rename_i e' hok
    have hid := hnew e' hok
    obtain ⟨-, -, -, rfl⟩ := enqueue_eq_ok hok
    refine ⟨h.listed.insert fun x hx (heq : x.record.id = id) => hid ?_, h.punctual⟩
    rw [← heq]
    exact he.ledger.known x.record (List.mem_map_of_mem hx)
  · exact h.of_eq rfl (List.Subset.refl _) rfl

theorem Regular.perform (h : e.Regular) (he : e.Sound log) (c : Command)
    (hfresh : ∀ id, (e.perform c).1.accepted? = some id → id ∉ submitted log) :
    (e.perform c).2.Regular := by
  cases c with
  | start =>
    obtain ⟨pool, hstart, hjobs⟩ := jobs_start e
    simp only [Engine.perform, hstart]
    exact h.of_eq rfl (fun _ hj => hjobs ▸ hj) rfl
  | stop => exact h.stop
  | submit =>
    apply h.submit he
    intro e' hok
    apply hfresh
    simp [Engine.perform, Engine.submit, hok, Answer.accepted?]
  | cancel id => exact h.cancel id
  | wait id maxMs => exact h.turns (wait_turns e id maxMs)
  | cleanup keep => exact ⟨h.listed.cleanup keep, h.punctual⟩
  | setMaxWorkers n => exact h.of_eq rfl (jobs_setMaxWorkers e n).subset rfl
  | loadFile path content =>
    simp only [Engine.perform]
    split <;> exact h.of_eq rfl (List.Subset.refl _) rfl
  | receive name =>
    simp only [Engine.perform]
    split <;> exact h.of_eq rfl (List.Subset.refl _) rfl
  | _ => exact h.of_eq rfl (List.Subset.refl _) rfl

theorem Regular.step (h : e.Regular) (he : e.Sound log) (c : Command)
    (hfresh : ∀ id, (e.step c).1.accepted? = some id → id ∉ submitted log) :
    (e.step c).2.Regular :=
  (h.perform he c hfresh).turns (settle_turns _)

end Engine

theorem Session.regular (s : Session) (n : Nat) : (s.engine n).Regular := by
  refine s.engine_induction ⟨rfl, fun _ hj => by cases hj⟩ ?_ n
  intro e log c he hfresh hr
  exact hr.step he c hfresh

end RequestEngine
