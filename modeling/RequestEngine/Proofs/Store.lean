import RequestEngine.Engine.Store
import RequestEngine.Proofs.Lists
import RequestEngine.Proofs.Record

/-! The store keeps one entry for each identifier, each with a token of its own. Every operation
that reports a record has put it in the place of the one before. -/
namespace RequestEngine

namespace Store

def records (s : Store) : List RequestRecord := s.entries.map (·.record)

/-- An identifier has one entry, an entry has its own token, and a cancelled token belongs to a
request that has ended. -/
structure Sound (s : Store) : Prop where
  distinct : (s.entries.map (·.record.id)).Nodup
  tokens : (s.entries.map (·.token)).Nodup
  below : ∀ x ∈ s.entries, x.token.serial < s.nextSerial
  spent : ∀ t ∈ s.cancelled, t.serial < s.nextSerial
  ended : ∀ x ∈ s.entries, x.token ∈ s.cancelled → x.record.state.isTerminal

theorem sound_empty : Store.empty.Sound := by
  constructor <;> simp [Store.empty]

variable {s : Store} {x y : Entry} {r : RequestRecord} {id : Uuid}

namespace Sound

theorem entries_nodup (hs : s.Sound) : s.entries.Nodup := List.Nodup.of_map _ hs.distinct

theorem eq_of_id (hs : s.Sound) (hx : x ∈ s.entries) (hy : y ∈ s.entries)
    (h : x.record.id = y.record.id) : x = y :=
  List.inj_on_of_nodup_map hs.distinct hx hy h

theorem eq_of_token (hs : s.Sound) (hx : x ∈ s.entries) (hy : y ∈ s.entries)
    (h : x.token = y.token) : x = y :=
  List.inj_on_of_nodup_map hs.tokens hx hy h

end Sound

theorem entry?_eq_some (hs : s.Sound) : s.entry? id = some x ↔ x ∈ s.entries ∧ x.record.id = id :=
  find?_key_eq_some hs.distinct

theorem get?_eq_some (hs : s.Sound) : s.get? id = some r ↔ r ∈ s.records ∧ r.id = id := by
  unfold get? records
  constructor
  · intro h
    obtain ⟨x, hx, rfl⟩ := Option.map_eq_some_iff.1 h
    obtain ⟨hmem, hid⟩ := (entry?_eq_some hs).1 hx
    exact ⟨List.mem_map_of_mem hmem, hid⟩
  · rintro ⟨hr, hid⟩
    obtain ⟨x, hx, rfl⟩ := List.mem_map.1 hr
    rw [(entry?_eq_some hs).2 ⟨hx, hid⟩]
    rfl

theorem swapped_replace (hs : s.Sound) (hx : x ∈ s.entries) (hid : r.id = x.record.id) :
    Swapped s.entries (s.replace r).entries x { x with record := r } := by
  obtain ⟨before, after, he⟩ := List.append_of_mem hx
  have hn := hs.distinct
  rw [he, List.map_append, List.map_cons] at hn
  have hnot := (List.nodup_cons.1 (List.nodup_middle.1 hn)).1
  have hkeep : ∀ y ∈ before ++ after,
      (if y.record.id = r.id then { y with record := r } else y) = y := by
    intro y hy
    refine if_neg fun h => hnot ?_
    rw [← List.map_append]
    exact List.mem_map.2 ⟨y, hy, h.trans hid⟩
  refine ⟨before, after, he, ?_⟩
  simp only [replace, he, List.map_append, List.map_cons, hid, if_true]
  rw [hid] at hkeep
  congr 1
  · exact (List.map_congr_left fun y hy => hkeep y (by simp [hy])).trans (List.map_id _)
  · congr 1
    exact (List.map_congr_left fun y hy => hkeep y (by simp [hy])).trans (List.map_id _)

theorem mem_replace (hs : s.Sound) (hx : x ∈ s.entries) (hid : r.id = x.record.id) :
    y ∈ (s.replace r).entries ↔ y = { x with record := r } ∨ y ∈ s.entries ∧ y ≠ x :=
  (swapped_replace hs hx hid).mem_iff hs.entries_nodup y

theorem Sound.replace (hs : s.Sound) (hx : x ∈ s.entries) (hid : r.id = x.record.id)
    (hr : x.record.state.isTerminal → r.state.isTerminal) : (s.replace r).Sound := by
  have hswap := swapped_replace hs hx hid
  refine ⟨?_, ?_, ?_, hs.spent, ?_⟩
  · rw [hswap.map_eq hid]
    exact hs.distinct
  · rw [hswap.map_eq rfl]
    exact hs.tokens
  · intro y hy
    obtain rfl | ⟨hy, -⟩ := (mem_replace hs hx hid).1 hy
    · exact hs.below x hx
    · exact hs.below y hy
  · intro y hy ht
    obtain rfl | ⟨hy, -⟩ := (mem_replace hs hx hid).1 hy
    · exact hr (hs.ended x hx ht)
    · exact hs.ended y hy ht

theorem change?_eq_some (hs : s.Sound) (hx : x ∈ s.entries) {f : RequestRecord → Option RequestRecord}
    (hf : f x.record = some r) : s.change? x.record.id f = some (r, s.replace r) := by
  have hget : s.get? x.record.id = some x.record :=
    (get?_eq_some hs).2 ⟨List.mem_map_of_mem hx, rfl⟩
  simp [change?, hget, hf]

theorem begin?_eq_some (hs : s.Sound) (hx : x ∈ s.entries) {now : Instant}
    (hf : x.record.begin? now = some r) :
    s.begin? now x.record.id = some (r, x.token, s.replace r) := by
  have he := (entry?_eq_some hs).2 ⟨hx, rfl⟩
  have hc := change?_eq_some hs hx (f := (·.begin? now)) hf
  simp [begin?, he, hc]

theorem Sound.cancelled (hs : s.Sound) (hx : x ∈ s.entries) (ht : x.record.state.isTerminal) :
    Sound { s with cancelled := x.token :: s.cancelled } where
  distinct := hs.distinct
  tokens := hs.tokens
  below := hs.below
  spent := by
    intro t h
    obtain rfl | h := List.mem_cons.1 h
    · exact hs.below x hx
    · exact hs.spent t h
  ended := by
    intro y hy h
    obtain h | h := List.mem_cons.1 h
    · rw [hs.eq_of_token hy hx h]
      exact ht
    · exact hs.ended y hy h

theorem insert_entries (hs : ∀ x ∈ s.entries, x.record.id ≠ r.id) :
    (s.insert r).entries = s.entries ++ [⟨r, ⟨s.nextSerial⟩⟩] := by
  unfold insert
  rw [List.filter_eq_self.2 fun x hx => by simpa using hs x hx]

theorem Sound.of_sublist (hs : s.Sound) {t : Store} (he : t.entries.Sublist s.entries)
    (hn : t.nextSerial = s.nextSerial) (hc : t.cancelled = s.cancelled) : t.Sound where
  distinct := (he.map _).nodup hs.distinct
  tokens := (he.map _).nodup hs.tokens
  below x hx := hn ▸ hs.below x (he.subset hx)
  spent t ht := hn ▸ hs.spent t (hc ▸ ht)
  ended x hx ht := hs.ended x (he.subset hx) (hc ▸ ht)

theorem Sound.insert (hs : s.Sound) (r : RequestRecord) : (s.insert r).Sound := by
  have hbelow : ∀ y ∈ s.entries.filter (·.record.id ≠ r.id), y.token.serial < s.nextSerial :=
    fun y hy => hs.below y (List.mem_filter.1 hy).1
  have hkept : Sound { s with entries := s.entries.filter (·.record.id ≠ r.id) } :=
    hs.of_sublist List.filter_sublist rfl rfl
  refine ⟨?_, ?_, ?_, ?_, ?_⟩
  · rw [Store.insert, List.map_append, List.map_singleton, List.nodup_append]
    refine ⟨hkept.distinct, List.nodup_singleton _, ?_⟩
    intro a ha b hb
    obtain ⟨y, hy, rfl⟩ := List.mem_map.1 ha
    rw [List.mem_singleton.1 hb]
    simpa using (List.mem_filter.1 hy).2
  · rw [Store.insert, List.map_append, List.map_singleton, List.nodup_append]
    refine ⟨hkept.tokens, List.nodup_singleton _, ?_⟩
    intro a ha b hb hab
    obtain ⟨y, hy, rfl⟩ := List.mem_map.1 ha
    have := hbelow y hy
    rw [hab, List.mem_singleton.1 hb] at this
    exact Nat.lt_irrefl _ this
  · intro y hy
    obtain hy | hy := List.mem_append.1 hy
    · exact Nat.lt_succ_of_lt (hbelow y hy)
    · rw [List.mem_singleton.1 hy]
      exact Nat.lt_succ_self _
  · exact fun t ht => Nat.lt_succ_of_lt (hs.spent t ht)
  · intro y hy ht
    obtain hy | hy := List.mem_append.1 hy
    · exact hkept.ended y hy ht
    · rw [List.mem_singleton.1 hy] at ht
      exact absurd (hs.spent _ ht) (Nat.lt_irrefl _)

theorem Sound.cleanup (hs : s.Sound) (keep : Nat) : (s.cleanup keep).2.Sound :=
  hs.of_sublist List.filter_sublist rfl rfl

theorem mem_cleanup (hs : s.Sound) (keep : Nat) (hx : x ∈ s.entries)
    (ha : x.record.state.isTerminal = false) : x ∈ (s.cleanup keep).2.entries := by
  refine List.mem_filter.2 ⟨hx, ?_⟩
  simp only [Bool.not_eq_true', List.contains_eq_mem, decide_eq_false_iff_not, List.mem_eraseDups]
  intro hmem
  obtain ⟨-, hend⟩ := List.mem_filter.1 (List.mem_of_mem_take hmem)
  rw [(get?_eq_some hs).2 ⟨List.mem_map_of_mem hx, rfl⟩] at hend
  simp [ha] at hend

theorem failEntry_record_id (now : Instant) (message : String) (x : Entry) :
    (failEntry now message x).record.id = x.record.id := by
  unfold failEntry
  split
  · split
    · rename_i h
      rw [(RequestRecord.fail?_eq_some h).2]
    · rfl
  · rfl

theorem failEntry_token (now : Instant) (message : String) (x : Entry) :
    (failEntry now message x).token = x.token := by
  unfold failEntry
  split
  · split <;> rfl
  · rfl

/-- A request that runs fails, and the others stay as they are. -/
theorem failEntry_cases (now : Instant) (message : String) (x : Entry) :
    (x.record.state = .running ∧ ∃ r, x.record.fail? now .failed message = some r ∧
      failEntry now message x = { x with record := r }) ∨
    (x.record.state ≠ .running ∧ failEntry now message x = x) := by
  by_cases hrun : x.record.state = .running
  · refine .inl ⟨hrun, ?_⟩
    simp [failEntry, Entry.isRunning, RequestRecord.fail?, hrun]
  · exact .inr ⟨hrun, by simp [failEntry, Entry.isRunning, hrun]⟩

theorem failEntry_not_running (now : Instant) (message : String) (x : Entry) :
    (failEntry now message x).record.state ≠ .running := by
  obtain ⟨-, r, hr, he⟩ | ⟨hrun, he⟩ := failEntry_cases now message x
  · rw [he, (RequestRecord.fail?_eq_some hr).2]
    exact RequestState.noConfusion
  · rw [he]
    exact hrun

theorem Sound.failRunning (hs : s.Sound) (now : Instant) (message : String) :
    (s.failRunning now message).2.Sound := by
  refine ⟨?_, ?_, ?_, ?_, ?_⟩
  · simpa [Store.failRunning, Function.comp_def, failEntry_record_id] using hs.distinct
  · simpa [Store.failRunning, Function.comp_def, failEntry_token] using hs.tokens
  · intro y hy
    obtain ⟨x, hx, rfl⟩ := List.mem_map.1 hy
    rw [failEntry_token]
    exact hs.below x hx
  · intro t ht
    obtain ht | ht := List.mem_append.1 ht
    · obtain ⟨x, hx, rfl⟩ := List.mem_map.1 ht
      exact hs.below x (List.mem_filter.1 hx).1
    · exact hs.spent t ht
  · intro y hy ht
    obtain ⟨x, hx, rfl⟩ := List.mem_map.1 hy
    obtain ⟨-, r, hr, he⟩ | ⟨hrun, he⟩ := failEntry_cases now message x
    · rw [he, (RequestRecord.fail?_eq_some hr).2]
      rfl
    · rw [he] at ht ⊢
      obtain ht | ht := List.mem_append.1 ht
      · obtain ⟨z, hz, hzx⟩ := List.mem_map.1 ht
        obtain ⟨hz, hzrun⟩ := List.mem_filter.1 hz
        rw [hs.eq_of_token hz hx hzx] at hzrun
        exact absurd (by simpa [Entry.isRunning] using hzrun) hrun
      · exact hs.ended x hx ht

end Store

end RequestEngine
