import RequestEngine.Proofs.Roll

/-! What an eviction leaves behind. In a store after any operations, with identifiers inserted
several times or not, it takes away requests that have ended, at most as many of them are left as
were to be kept, and all else stays as and where it was. Where every identifier was inserted once,
two evictions in a row are one. -/
namespace RequestEngine

namespace Store

variable {ε : Type} {s t : Store} {o : Operation ε} {p : Report ε} {x : Entry} {id : Uuid}
  {ids : List Uuid}

/-- Whose requests are evicted if a number of places is to be kept. -/
def evicted (s : Store) (keep : Nat) : List Uuid :=
  (s.ended.take (s.ended.length - keep)).eraseDups

/-- A store with the entries and the places of some identifiers left out. -/
def without (s : Store) (ids : List Uuid) : Store :=
  { s with
    entries := s.entries.filter fun x => !ids.contains x.record.id
    order := s.order.filter fun id => !ids.contains id }

theorem cleanup_count (s : Store) (keep : Nat) :
    (s.cleanup keep).1 = (s.evicted keep).length := rfl

theorem cleanup_store (s : Store) (keep : Nat) :
    (s.cleanup keep).2 = s.without (s.evicted keep) := rfl

theorem without_nil (s : Store) : s.without [] = s := by simp [without]

theorem without_without (s : Store) (ids others : List Uuid) :
    (s.without ids).without others = s.without (ids ++ others) := by
  simp [without, List.filter_filter, Bool.and_comm]

theorem entry?_without (s : Store) (ids : List Uuid) (id : Uuid) :
    Store.entry? (s.without ids) id = if id ∈ ids then none else s.entry? id := by
  simp only [ entry?, without, List.find?_filter]
  split
  · rename_i hid
    refine List.find?_eq_none.2 fun x _ => ?_
    simp only [Bool.decide_and, Bool.and_eq_true, decide_eq_true_eq, not_and]
    rintro hkept rfl
    simp [hid] at hkept
  · rename_i hid
    congr 1
    funext x
    by_cases hx : x.record.id = id
    · simp [hx, hid]
    · simp [hx]

theorem get?_without (s : Store) (ids : List Uuid) (id : Uuid) :
    (s.without ids).get? id = if id ∈ ids then none else s.get? id := by
  rw [get?_eq, entry?_without, get?_eq]
  split <;> rfl

theorem ended_without (s : Store) (ids : List Uuid) :
    (s.without ids).ended = s.ended.filter fun id => !ids.contains id := by
  simp only [ended]
  rw [List.filter_comm]
  refine List.filter_congr fun id hid => ?_
  have hkept : id ∉ ids := by simpa using (List.mem_filter.1 hid).2
  rw [get?_without, if_neg hkept]

theorem mem_ended :
    id ∈ s.ended ↔ id ∈ s.order ∧ ∃ r, s.get? id = some r ∧ r.state.isTerminal := by
  simp only [ended, List.mem_filter, Option.any_eq_true]

theorem mem_evicted {keep : Nat} :
    id ∈ s.evicted keep ↔ id ∈ s.ended.take (s.ended.length - keep) := List.mem_eraseDups

theorem evicted_of_length_le {keep : Nat} (h : s.ended.length ≤ keep) : s.evicted keep = [] := by
  rw [evicted, show s.ended.length - keep = 0 by omega]
  rfl

theorem cleanup_of_length_le {keep : Nat} (h : s.ended.length ≤ keep) :
    s.cleanup keep = (0, s) := by
  apply Prod.ext
  · rw [cleanup_count, evicted_of_length_le h, List.length_nil]
  · rw [cleanup_store, evicted_of_length_le h, without_nil]

/-- The places left are among the last of those before. -/
theorem ended_cleanup_eq_filter (s : Store) (keep : Nat) : (s.cleanup keep).2.ended =
    (s.ended.drop (s.ended.length - keep)).filter fun id => !(s.evicted keep).contains id := by
  have hgone : (s.ended.take (s.ended.length - keep)).filter
      (fun id => !(s.evicted keep).contains id) = [] := by
    refine List.filter_eq_nil_iff.2 fun id hid => ?_
    simpa using mem_evicted.2 hid
  rw [cleanup_store, ended_without]
  conv_lhs => rw [← List.take_append_drop (s.ended.length - keep) s.ended]
  rw [List.filter_append, hgone, List.nil_append]

theorem length_ended_cleanup (s : Store) (keep : Nat) :
    (s.cleanup keep).2.ended.length ≤ keep := by
  rw [ended_cleanup_eq_filter]
  refine Nat.le_trans (List.length_filter_le _ _) ?_
  rw [List.length_drop]
  omega

/-- Every record that has ended has a place, and so there are no more of them than places. -/
theorem countP_terminal_le (hs : s.Sound) (hplaced : s.Placed) :
    s.records.countP (·.state.isTerminal) ≤ s.ended.length := by
  have hnodup : ((s.records.filter (·.state.isTerminal)).map (·.id)).Nodup := by
    refine (List.filter_sublist.map _).nodup ?_
    rw [records, List.map_map]
    exact hs.distinct
  rw [List.countP_eq_length_filter, ← List.length_map (·.id)]
  refine (hnodup.subperm fun id hid => ?_).length_le
  obtain ⟨r, hr, rfl⟩ := List.mem_map.1 hid
  obtain ⟨hr, hend⟩ := List.mem_filter.1 hr
  refine mem_ended.2 ⟨(hplaced r.id).2 (List.mem_map_of_mem hr), r, ?_, hend⟩
  exact (get?_eq_some hs).2 ⟨hr, rfl⟩

theorem mem_of_mem_evicted (hs : s.Sound) {keep : Nat} (h : id ∈ s.evicted keep) :
    id ∈ s.entries.map (·.record.id) := by
  obtain ⟨-, r, hr, -⟩ := mem_ended.1 (List.mem_of_mem_take (mem_evicted.1 h))
  obtain ⟨hmem, rfl⟩ := (get?_eq_some hs).1 hr
  obtain ⟨x, hx, rfl⟩ := List.mem_map.1 hmem
  exact List.mem_map_of_mem hx

/-- What an eviction does to a store. The places that survive are those of the records that do. -/
structure Evicts (s : Store) (keep : Nat) : Prop where
  active : ∀ id x, s.entry? id = some x → x.record.state.isTerminal = false →
    Store.entry? (s.cleanup keep).2 id = some x
  unaltered : ∀ id x, Store.entry? (s.cleanup keep).2 id = some x → s.entry? id = some x
  gone : ∀ id, Store.entry? (s.cleanup keep).2 id = none ↔
    s.entry? id = none ∨ id ∈ s.ended.take (s.ended.length - keep)
  count : (s.cleanup keep).2.size + (s.cleanup keep).1 = s.size
  bound : (s.cleanup keep).2.records.countP (·.state.isTerminal) ≤ keep
  order : (s.cleanup keep).2.order =
    s.order.filter fun id => ((s.cleanup keep).2.get? id).isSome
  recent : ∀ limit, (s.cleanup keep).2.recent limit =
    ((s.recent s.order.length).filter fun r =>
      ((s.cleanup keep).2.get? r.id).isSome).take limit
  tokens : (s.cleanup keep).2.cancelled = s.cancelled ∧
    (s.cleanup keep).2.nextSerial = s.nextSerial
  again : (s.cleanup keep).2.cleanup keep = (0, (s.cleanup keep).2)

theorem recent_length (s : Store) :
    s.recent s.order.length = s.order.reverse.filterMap s.get? := by
  apply List.take_of_length_le
  simpa using List.length_filterMap_le s.get? s.order.reverse

theorem evicts (hs : s.Sound) (hplaced : s.Placed) (keep : Nat) : s.Evicts keep := by
  have hentry : ∀ id, Store.entry? (s.cleanup keep).2 id =
      if id ∈ s.evicted keep then none else s.entry? id := entry?_without s _
  have hget : ∀ id, (s.cleanup keep).2.get? id =
      if id ∈ s.evicted keep then none else s.get? id := get?_without s _
  have hkept : ∀ id ∈ s.order,
      ((s.cleanup keep).2.get? id).isSome = !(s.evicted keep).contains id := by
    intro id hid
    obtain ⟨r, hr, rfl⟩ := List.mem_map.1 ((hplaced id).1 hid)
    rw [hget, (get?_eq_some hs).2 ⟨hr, rfl⟩]
    split <;> simp_all
  have horder : (s.cleanup keep).2.order =
      s.order.filter fun id => ((s.cleanup keep).2.get? id).isSome := by
    rw [List.filter_congr hkept]
    rfl
  refine ⟨?_, ?_, ?_, ?_, ?_, horder, ?_, ⟨rfl, rfl⟩, ?_⟩
  · intro id x hx hactive
    refine (hentry id).trans ((if_neg fun hid => ?_).trans hx)
    obtain ⟨-, r, hr, hend⟩ := mem_ended.1 (List.mem_of_mem_take (mem_evicted.1 hid))
    rw [get?_eq, hx] at hr
    obtain rfl := Option.some.inj hr
    simp [hactive] at hend
  · intro id x hx
    rw [hentry] at hx
    split at hx
    · cases hx
    · exact hx
  · intro id
    rw [hentry, ← mem_evicted]
    split <;> simp_all
  · exact length_filter_not_contains hs.distinct (nodup_eraseDups _)
      fun id hid => mem_of_mem_evicted hs hid
  · exact Nat.le_trans (countP_terminal_le (hs.cleanup keep) (hplaced.cleanup keep))
      (length_ended_cleanup s keep)
  · intro limit
    rw [recent_length, recent, horder, ← List.filter_reverse, List.filterMap_filter,
      List.filter_filterMap]
    congr 2
    funext id
    cases hr : s.get? id with
    | none => simp [hget, hr]
    | some r =>
      obtain ⟨-, hid⟩ := (get?_eq_some hs).1 hr
      simp only [hget, hr, Option.filter_some, hid]
      split <;> simp
  · exact cleanup_of_length_le (length_ended_cleanup s keep)

/-- An operation adds at most one place, that of the identifier that it inserts. -/
theorem Performs.order_sublist (h : Performs s o p t)
    (hp : ∀ id, p = .inserted id → o.inserted? = some id) :
    t.order.Sublist (s.order ++ o.inserted?.toList) := by
  cases h with
  | @insert _ r =>
    rw [hp r.id rfl]
    exact List.Sublist.refl _
  | cleanup keep => exact List.filter_sublist.trans (List.sublist_append_left _ _)
  | _ => exact List.sublist_append_left _ _

theorem inserted?_of_perform (h : (s.perform o).1 = .inserted id) : o.inserted? = some id := by
  have hperforms := performs s o
  rw [h] at hperforms
  generalize (s.perform o).2 = t at hperforms
  cases hperforms with
  | @insert _ r inserts =>
    cases o with
    | insert r' =>
      obtain rfl : r' = r := Option.some.inj inserts
      rfl
    | insertIf r' allow =>
      obtain rfl : r' = r := Option.some.inj inserts
      cases ha : allow r'.id with
      | ok _ => simp [Operation.inserted?, ha, Except.toOption]
      | error reason => simp [perform, insertIf, ha, bind, Except.bind] at h
    | _ => cases inserts

/-- The places are those of insertions, in their order. -/
theorem order_after_sublist (s : Store) (operations : List (Operation ε)) :
    (s.after operations).order.Sublist (s.order ++ operations.filterMap (·.inserted?)) := by
  induction operations generalizing s with
  | nil => simp [after]
  | cons o operations ih =>
    have hfirst := (performs s o).order_sublist fun id => inserted?_of_perform
    have hsplit : s.order ++ (o :: operations).filterMap (·.inserted?) =
        (s.order ++ o.inserted?.toList) ++ operations.filterMap (·.inserted?) := by
      cases ho : o.inserted? <;> simp [ho]
    rw [hsplit]
    exact (ih (s.perform o).2).trans (hfirst.append_right _)

/-- With one place for each identifier the foremost are evicted, as many as are too many. -/
theorem evicted_eq (h : s.order.Nodup) (keep : Nat) :
    s.evicted keep = s.ended.take (s.ended.length - keep) :=
  eraseDups_of_nodup ((List.take_sublist _ _).nodup (List.filter_sublist.nodup h))

theorem ended_cleanup (h : s.order.Nodup) (keep : Nat) :
    (s.cleanup keep).2.ended = s.ended.drop (s.ended.length - keep) := by
  have hended : s.ended.Nodup := List.filter_sublist.nodup h
  rw [ended_cleanup_eq_filter, evicted_eq h]
  refine List.filter_eq_self.2 fun id hid => ?_
  have hlater : id ∉ s.ended.take (s.ended.length - keep) := fun hfirst =>
    List.disjoint_take_drop hended (Nat.le_refl _) hfirst hid
  simpa using hlater

/-- Two evictions take away what the one that keeps less takes away. -/
theorem cleanup_cleanup (h : s.order.Nodup) (a b : Nat) :
    ((s.cleanup a).2.cleanup b).2 = (s.cleanup (min a b)).2 ∧
      (s.cleanup a).1 + ((s.cleanup a).2.cleanup b).1 = (s.cleanup (min a b)).1 := by
  have horder : (s.cleanup a).2.order.Nodup := List.filter_sublist.nodup h
  have hlength : (s.cleanup a).2.ended.length = s.ended.length - (s.ended.length - a) := by
    rw [ended_cleanup h, List.length_drop]
  have hjoined : s.evicted a ++ (s.cleanup a).2.evicted b = s.evicted (min a b) := by
    rw [evicted_eq h, evicted_eq horder, evicted_eq h, hlength, ended_cleanup h, ← List.take_add]
    congr 1
    omega
  constructor
  · rw [cleanup_store (s.cleanup a).2 b, cleanup_store s (min a b), ← hjoined, ← without_without,
      ← cleanup_store s a]
  · rw [cleanup_count, cleanup_count, cleanup_count, ← hjoined, List.length_append]

structure Evictions (operations : List (Operation ε)) : Prop where
  each : ∀ keep, (Store.empty.after operations).Evicts keep
  merged : Fresh operations → ∀ a b,
    (((Store.empty.after operations).cleanup a).2.cleanup b).2 =
        ((Store.empty.after operations).cleanup (min a b)).2 ∧
      ((Store.empty.after operations).cleanup a).1 +
          (((Store.empty.after operations).cleanup a).2.cleanup b).1 =
        ((Store.empty.after operations).cleanup (min a b)).1

theorem cleanup_keeps_newest_ended (operations : List (Operation ε)) : Evictions operations where
  each keep := by
    have hplaced : Store.empty.Placed := fun _ => Iff.rfl
    exact evicts (sound_empty.after operations) (hplaced.after operations) keep
  merged hfresh a b := by
    have horder := order_after_sublist Store.empty operations
    exact cleanup_cleanup (horder.nodup hfresh) a b

/-- Three requests, cancelled one after the other while a fourth waits. -/
def abandoned : List (Operation Unit) :=
  let request (n : Nat) := RequestRecord.new (.ofNat n) (.ofMillis 0) "a" "f" .null 0
  [.insert (request 1), .insert (request 2), .insert (request 3), .insert (request 4),
    .cancel (.ofMillis 1) (.ofNat 3) "late",
    .cancel (.ofMillis 2) (.ofNat 1) "late",
    .cancel (.ofMillis 3) (.ofNat 2) "late"]

theorem cleanup_keeps_newest_ended_abandoned : Fresh abandoned ∧
    (((Store.empty.after abandoned).cleanup 2).2.cleanup 1).2 =
      ((Store.empty.after abandoned).cleanup 1).2 ∧
    ((Store.empty.after abandoned).cleanup 1).1 = 2 ∧
    ((Store.empty.after abandoned).cleanup 1).2.order = [.ofNat 3, .ofNat 4] := by
  have hfresh : Fresh abandoned := by
    unfold Fresh
    decide +kernel
  exact ⟨hfresh, ((cleanup_keeps_newest_ended abandoned).merged hfresh 2 1).1, by decide +kernel,
    by decide +kernel⟩

/-- With an identifier inserted twice one eviction can empty two places, and fewer records are left
than were to be kept. -/
example : let request (n : Nat) := RequestRecord.new (.ofNat n) (.ofMillis 0) "a" "f" .null 0
    let s := Store.empty.after ([.insert (request 1), .insert (request 2), .insert (request 1),
      .cancel (.ofMillis 1) (.ofNat 1) "late",
      .cancel (.ofMillis 1) (.ofNat 2) "late"] : List (Operation Unit))
    s.order = [.ofNat 1, .ofNat 2, .ofNat 1] ∧ (s.cleanup 2).1 = 1 ∧
      (s.cleanup 2).2.order = [.ofNat 2] := by
  decide +kernel

end Store

end RequestEngine
