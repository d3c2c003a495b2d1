import RequestEngine.Engine.Pool
import RequestEngine.Proofs.Ledger

/-! The calls that go on, next to the store: each request that runs has one call, and every other
call is left over from a request that was cancelled. -/
namespace RequestEngine

open Ledger (submitted)

namespace Job

def entry (j : Job) : Entry := ⟨j.record, j.token⟩

/-- The call is that of a request that runs. -/
def Runs (j : Job) (s : Store) : Prop := j.entry ∈ s.entries ∧ j.record.state = .running

/-- The request of the call was cancelled, and may have been evicted since. -/
structure Abandoned (log : List RequestEvent) (s : Store) (j : Job) : Prop where
  token : j.token ∈ s.cancelled
  known : j.record.id ∈ submitted log
  cancelled : ∀ r ∈ s.records, r.id = j.record.id → r.state = .cancelled

end Job

/-- The calls fit the requests. -/
structure Calls (log : List RequestEvent) (s : Store) (jobs : List Job) : Prop where
  tokens : (jobs.map (·.token)).Nodup
  each : ∀ j ∈ jobs, j.Runs s ∨ j.Abandoned log s
  all : ∀ x ∈ s.entries, x.record.state = .running → ∃ j ∈ jobs, j.entry = x

variable {log : List RequestEvent} {s t : Store} {j : Job} {jobs jobs' : List Job} {x : Entry}
  {r r' : RequestRecord}

namespace Job

theorem Runs.state (h : j.Runs s) : j.entry.record.state = .running := h.2

theorem Runs.active (h : j.Runs s) : j.entry.record.state.isTerminal = false := by
  rw [h.state]
  rfl

theorem Runs.not_cancelled (hs : s.Sound) (h : j.Runs s) : j.token ∉ s.cancelled := by
  intro hc
  have ht := hs.ended j.entry h.1 hc
  rw [h.state] at ht
  cases ht

/-- A call that goes on has a token of its own, unless its request runs. -/
theorem token_ne (hs : s.Sound) (hj : j.Runs s ∨ j.Abandoned log s) (hx : x ∈ s.entries)
    (ha : x.record.state.isTerminal = false) (hne : j.entry ≠ x) : j.token ≠ x.token := by
  intro heq
  obtain hruns | hab := hj
  · exact hne (hs.eq_of_token hruns.1 hx heq)
  · rw [hs.ended x hx (heq ▸ hab.token)] at ha
    cases ha

theorem Abandoned.mono (h : j.Abandoned log s) {log' : List RequestEvent}
    (hlog : submitted log ⊆ submitted log') : j.Abandoned log' s :=
  ⟨h.token, hlog h.known, h.cancelled⟩

/-- A change of a request that has not ended is no matter to the calls of others. -/
theorem each_replace (hs : s.Sound) (hj : j.Runs s ∨ j.Abandoned log s) (hx : x ∈ s.entries)
    (ha : x.record.state.isTerminal = false) (hid : r.id = x.record.id) (hne : j.entry ≠ x) :
    j.Runs (s.replace r) ∨ j.Abandoned log (s.replace r) := by
  obtain hruns | hab := hj
  · exact .inl ⟨(Store.mem_replace hs hx hid).2 (.inr ⟨hruns.1, hne⟩), hruns.2⟩
  · refine .inr ⟨hab.token, hab.known, ?_⟩
    intro r₁ hr₁ hid₁
    obtain ⟨y, hy, rfl⟩ := List.mem_map.1 hr₁
    obtain rfl | ⟨hy, -⟩ := (Store.mem_replace hs hx hid).1 hy
    · rw [hab.cancelled x.record (List.mem_map_of_mem hx) (hid.symm.trans hid₁)] at ha
      cases ha
    · exact hab.cancelled _ (List.mem_map_of_mem hy) hid₁

end Job

namespace Calls

theorem nil (hr : ∀ x ∈ s.entries, x.record.state ≠ .running) : Calls log s [] :=
  ⟨.nil, by simp, fun x hx h => absurd h (hr x hx)⟩

theorem perm (h : Calls log s jobs) (hp : jobs'.Perm jobs) : Calls log s jobs' where
  tokens := (hp.map _).nodup_iff.2 h.tokens
  each j hj := h.each j (hp.mem_iff.1 hj)
  all x hx hr := by
    obtain ⟨j, hj, hjx⟩ := h.all x hx hr
    exact ⟨j, hp.mem_iff.2 hj, hjx⟩

theorem mono (h : Calls log s jobs) {log' : List RequestEvent}
    (hlog : submitted log ⊆ submitted log') : Calls log' s jobs where
  tokens := h.tokens
  each j hj := (h.each j hj).imp id (·.mono hlog)
  all := h.all

theorem eq_of_token (h : Calls log s jobs) {j' : Job} (hj : j ∈ jobs) (hj' : j' ∈ jobs)
    (ht : j.token = j'.token) : j = j' :=
  List.inj_on_of_nodup_map h.tokens hj hj' ht

theorem entry_ne_of_pending (h : Calls log s jobs) (hs : s.Sound) (hx : x ∈ s.entries)
    (hp : x.record.state = .pending) : ∀ j ∈ jobs, j.entry ≠ x := by
  rintro j hj rfl
  obtain hruns | hab := h.each j hj
  · rw [hruns.state] at hp
    cases hp
  · have hended := hs.ended j.entry hx hab.token
    rw [hp] at hended
    cases hended

/-- A request that waited begins to run, and its call is a new one. -/
theorem start (h : Calls log s jobs) (hs : s.Sound) (hx : x ∈ s.entries)
    (hp : x.record.state = .pending) (hid : r.id = x.record.id) (hr : r.state = .running)
    (hj : j.record = r ∧ j.token = x.token) : Calls log (s.replace r) (j :: jobs) := by
  have ha : x.record.state.isTerminal = false := by rw [hp]; rfl
  have hentry : j.entry = { x with record := r } := by rw [Job.entry, hj.1, hj.2]
  have hold := h.entry_ne_of_pending hs hx hp
  refine ⟨?_, ?_, ?_⟩
  · rw [List.map_cons, List.nodup_cons]
    refine ⟨?_, h.tokens⟩
    intro hmem
    obtain ⟨j', hj', htoken⟩ := List.mem_map.1 hmem
    exact Job.token_ne hs (h.each j' hj') hx ha (hold j' hj') (htoken.trans hj.2)
  · intro j' hj'
    obtain rfl | hj' := List.mem_cons.1 hj'
    · exact .inl ⟨(Store.mem_replace hs hx hid).2 (.inl hentry), by rw [hj.1]; exact hr⟩
    · exact Job.each_replace hs (h.each j' hj') hx ha hid (hold j' hj')
  · intro y hy hrun
    obtain rfl | ⟨hy, -⟩ := (Store.mem_replace hs hx hid).1 hy
    · exact ⟨j, List.mem_cons_self, hentry⟩
    · obtain ⟨j', hj', hj'y⟩ := h.all y hy hrun
      exact ⟨j', List.mem_cons_of_mem j hj', hj'y⟩

def others (j : Job) (jobs : List Job) : List Job := jobs.filter (·.token ≠ j.token)

theorem mem_others {j' : Job} : j' ∈ others j jobs ↔ j' ∈ jobs ∧ j'.token ≠ j.token := by
  simp [others]

theorem others_cons (hn : ((j :: jobs).map (·.token)).Nodup) : others j (j :: jobs) = jobs := by
  unfold others
  rw [List.filter_cons_of_neg (by simp)]
  refine List.filter_eq_self.2 fun j' hj' => ?_
  have hnot := (List.nodup_cons.1 hn).1
  simp only [ne_eq, decide_not, Bool.not_eq_true', decide_eq_false_iff_not]
  exact fun heq => hnot (List.mem_map.2 ⟨j', hj', heq⟩)

theorem perm_others (hn : (jobs.map (·.token)).Nodup) (hj : j ∈ jobs) :
    jobs.Perm (j :: others j jobs) := by
  obtain ⟨before, after, rfl⟩ := List.append_of_mem hj
  have hperm : (before ++ j :: after).Perm (j :: (before ++ after)) := List.perm_middle
  have hothers : (others j (before ++ j :: after)).Perm (before ++ after) := by
    have h : (others j (before ++ j :: after)).Perm (others j (j :: (before ++ after))) :=
      hperm.filter _
    rwa [others_cons ((hperm.map _).nodup_iff.1 hn)] at h
  exact hperm.trans (hothers.symm.cons j)

theorem finish (h : Calls log s jobs) (hs : s.Sound) (hj : j ∈ jobs) (hruns : j.Runs s)
    (ends : j.record.Ends r) : Calls log (s.replace r) (others j jobs) := by
  have ha := hruns.active
  have hid : r.id = j.entry.record.id := ends.becomes.id
  refine ⟨(List.filter_sublist.map _).nodup h.tokens, ?_, ?_⟩
  · intro j' hj'
    obtain ⟨hj', hne⟩ := mem_others.1 hj'
    exact Job.each_replace hs (h.each j' hj') hruns.1 ha hid
      fun heq => hne (congrArg Entry.token heq)
  · intro y hy hrun
    obtain rfl | ⟨hy, hne⟩ := (Store.mem_replace hs hruns.1 hid).1 hy
    · have ht := ends.terminal
      rw [show r.state = .running from hrun] at ht
      cases ht
    · obtain ⟨j', hj', rfl⟩ := h.all y hy hrun
      exact ⟨j', mem_others.2 ⟨hj', fun heq => hne (congrArg Job.entry (h.eq_of_token hj' hj heq))⟩,
        rfl⟩

theorem drop (h : Calls log s jobs) (hs : s.Sound) (hab : j.token ∈ s.cancelled) :
    Calls log s (others j jobs) where
  tokens := (List.filter_sublist.map _).nodup h.tokens
  each j' hj' := h.each j' (mem_others.1 hj').1
  all y hy hrun := by
    obtain ⟨j', hj', rfl⟩ := h.all y hy hrun
    have hne : j'.token ≠ j.token :=
      fun heq => Job.Runs.not_cancelled hs ⟨hy, hrun⟩ (heq ▸ hab)
    exact ⟨j', mem_others.2 ⟨hj', hne⟩, rfl⟩

theorem cancel (h : Calls log s jobs) (hs : s.Sound) (hx : x ∈ s.entries)
    (ha : x.record.state.isTerminal = false) (hknown : x.record.id ∈ submitted log)
    (hid : r.id = x.record.id) (hr : r.state = .cancelled) :
    Calls log { s.replace r with cancelled := x.token :: s.cancelled } jobs := by
  refine ⟨h.tokens, ?_, ?_⟩
  · intro j hj
    by_cases hjx : j.entry = x
    · refine .inr ⟨List.mem_cons.2 (.inl (hjx ▸ rfl)), ?_, ?_⟩
      · rw [← hjx] at hknown
        exact hknown
      · intro r₁ hr₁ hid₁
        obtain ⟨y, hy, rfl⟩ := List.mem_map.1 hr₁
        obtain rfl | ⟨hy, hne⟩ := (Store.mem_replace hs hx hid).1 hy
        · exact hr
        · refine absurd (hs.eq_of_id hy hx (hid₁.trans ?_)) hne
          rw [← hjx]
          rfl
    · obtain hruns | hab := Job.each_replace hs (h.each j hj) hx ha hid hjx
      · exact .inl hruns
      · exact .inr ⟨List.mem_cons_of_mem _ hab.token, hab.known, hab.cancelled⟩
  · intro y hy hrun
    obtain rfl | ⟨hy, -⟩ := (Store.mem_replace hs hx hid).1 hy
    · rw [show r.state = .running from hrun] at hr
      cases hr
    · exact h.all y hy hrun

theorem insert (h : Calls log s jobs) (hknown : ∀ x ∈ s.entries, x.record.id ∈ submitted log)
    (hnew : r.id ∉ submitted log) (hr : r.state ≠ .running) : Calls log (s.insert r) jobs := by
  have he : (s.insert r).entries = s.entries ++ [⟨r, ⟨s.nextSerial⟩⟩] :=
    Store.insert_entries fun x hx hid => hnew (hid ▸ hknown x hx)
  refine ⟨h.tokens, ?_, ?_⟩
  · intro j hj
    obtain hruns | hab := h.each j hj
    · exact .inl ⟨by rw [he]; exact List.mem_append_left _ hruns.1, hruns.2⟩
    · refine .inr ⟨hab.token, hab.known, ?_⟩
      intro r₁ hr₁ hid₁
      rw [Store.records, he, List.map_append] at hr₁
      obtain hr₁ | hr₁ := List.mem_append.1 hr₁
      · exact hab.cancelled r₁ hr₁ hid₁
      · rw [List.mem_singleton.1 hr₁] at hid₁
        exact absurd (hid₁ ▸ hab.known) hnew
  · intro y hy hrun
    rw [he] at hy
    obtain hy | hy := List.mem_append.1 hy
    · exact h.all y hy hrun
    · rw [List.mem_singleton.1 hy] at hrun
      exact absurd hrun hr

theorem cleanup (h : Calls log s jobs) (hs : s.Sound) (keep : Nat) :
    Calls log (s.cleanup keep).2 jobs := by
  have hsub : (s.cleanup keep).2.entries ⊆ s.entries := List.filter_subset_self _
  refine ⟨h.tokens, ?_, fun y hy hrun => h.all y (hsub hy) hrun⟩
  intro j hj
  obtain hruns | hab := h.each j hj
  · refine .inl ⟨Store.mem_cleanup hs keep hruns.1 ?_, hruns.2⟩
    rw [hruns.state]
    rfl
  · exact .inr ⟨hab.token, hab.known,
      fun r₁ hr₁ hid₁ => hab.cancelled r₁ (List.map_subset _ hsub hr₁) hid₁⟩

end Calls

end RequestEngine
