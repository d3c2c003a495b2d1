import RequestEngine.Proofs.Reports

/-! The token of a request over a sequence of operations. It stays with the entry of the request
until the identifier is inserted again or evicted, up to then it is cancelled when the request is
cancelled or swept and by nothing else, and from then on it stays as it is. -/
namespace RequestEngine.Store

variable {ε : Type} {s t : Store} {o : Operation ε} {p : Report ε} {x y : Entry}
  {r : RequestRecord} {id other : Uuid} {token : Token}

/-- Operations that cancel the tokens of the requests that they end. -/
def Operation.revokes : Operation ε → Bool
  | .cancel .. | .failRunning .. => true
  | _ => false

/-- An operation ends a request and cancels its token. -/
def Cancels (s : Store) (o : Operation ε) (id : Uuid) : Prop :=
  o.revokes ∧ ∃ r ∈ (s.perform o).1.ends, r.id = id

def Bears (s : Store) (id : Uuid) (token : Token) : Prop :=
  ∃ x, s.entry? id = some x ∧ x.token = token

/-- A token of which the entry is gone. -/
structure Detached (s : Store) (token : Token) : Prop where
  below : token.serial < s.nextSerial
  absent : ∀ x ∈ s.entries, x.token ≠ token

/-- An entry is of the same request as before, with the same token, or it is new. -/
theorem Performs.origin (h : Performs s o p t) (hs : s.Sound) (hy : y ∈ t.entries) :
    (∃ x ∈ s.entries, x.record.id = y.record.id ∧ x.token = y.token) ∨
      y.token = ⟨s.nextSerial⟩ ∧ p = .inserted y.record.id := by
  have hreplaced : ∀ {x : Entry} {r : RequestRecord}, x ∈ s.entries → r.id = x.record.id →
      y ∈ (s.replace r).entries →
        ∃ z ∈ s.entries, z.record.id = y.record.id ∧ z.token = y.token := by
    intro x r hx hid hy
    obtain rfl | ⟨hy, -⟩ := (mem_replace hs hx hid).1 hy
    · exact ⟨x, hx, hid.symm, rfl⟩
    · exact ⟨y, hy, rfl, rfl⟩
  cases h with
  | insert =>
    obtain hy | hy := List.mem_append.1 hy
    · exact .inl ⟨y, (List.mem_filter.1 hy).1, rfl, rfl⟩
    · rw [List.mem_singleton.1 hy]
      exact .inr ⟨rfl, rfl⟩
  | begin hx h =>
    obtain ⟨hmem, -⟩ := (entry?_eq_some hs).1 hx
    refine .inl (hreplaced hmem ?_ hy)
    rw [(RequestRecord.begin?_eq_some h).2]
  | finish ends hx h =>
    obtain ⟨hmem, -⟩ := (entry?_eq_some hs).1 hx
    exact .inl (hreplaced hmem ((Operation.ending?_spec ends).1 _ _ h).id hy)
  | sweep now message =>
    obtain ⟨x, hx, rfl⟩ := List.mem_map.1 hy
    exact .inl ⟨x, hx, (failEntry_record_id now message x).symm,
      (failEntry_token now message x).symm⟩
  | cleanup keep => exact .inl ⟨y, (List.mem_filter.1 hy).1, rfl, rfl⟩
  | _ => exact .inl ⟨y, hy, rfl, rfl⟩

theorem Performs.nextSerial_le (h : Performs s o p t) : s.nextSerial ≤ t.nextSerial := by
  cases h with
  | insert => exact Nat.le_succ _
  | _ => exact Nat.le_refl _

theorem Performs.entry?_inserted (h : Performs s o p t) (hs : s.Sound) (hp : p = .inserted id) :
    ∃ r, t.entry? id = some ⟨r, ⟨s.nextSerial⟩⟩ ∧ t.cancelled = s.cancelled := by
  cases h with
  | @insert _ r =>
    obtain rfl := Report.inserted.inj hp
    refine ⟨r, (entry?_eq_some (hs.insert r)).2 ⟨?_, rfl⟩, rfl⟩
    exact List.mem_append_right _ (List.mem_singleton_self _)
  | _ => cases hp

theorem Performs.bears (h : Performs s o p t) (hs : s.Sound) (hb : s.Bears id token)
    (hother : p ≠ .inserted id) (hkept : (t.get? id).isSome) : t.Bears id token := by
  obtain ⟨x, hx, rfl⟩ := hb
  obtain ⟨r, hr⟩ := Option.isSome_iff_exists.1 hkept
  obtain ⟨y, hy, rfl⟩ := Option.map_eq_some_iff.1 hr
  obtain ⟨hmem, hid⟩ := (entry?_eq_some (h.sound hs)).1 hy
  obtain ⟨hx, hxid⟩ := (entry?_eq_some hs).1 hx
  obtain ⟨z, hz, hzid, hztoken⟩ | ⟨-, hp⟩ := h.origin hs hmem
  · obtain rfl := hs.eq_of_id hz hx (hzid.trans (hid.trans hxid.symm))
    exact ⟨y, hy, hztoken.symm⟩
  · exact absurd (hid ▸ hp) hother

theorem Performs.detached (h : Performs s o p t) (hs : s.Sound) (hb : s.Bears id token)
    (hgone : p = .inserted id ∨ t.get? id = none) : t.Detached token := by
  obtain ⟨x, hx, rfl⟩ := hb
  obtain ⟨hx, hxid⟩ := (entry?_eq_some hs).1 hx
  refine ⟨Nat.lt_of_lt_of_le (hs.below x hx) h.nextSerial_le, fun y hy htoken => ?_⟩
  have hnew : y.token ≠ ⟨s.nextSerial⟩ := by
    intro hnew
    have hbelow := hs.below x hx
    rw [← htoken, hnew] at hbelow
    exact Nat.lt_irrefl _ hbelow
  obtain ⟨z, hz, hzid, hztoken⟩ | ⟨hlast, -⟩ := h.origin hs hy
  · obtain rfl := hs.eq_of_token hz hx (hztoken.trans htoken)
    have hy' : t.entry? id = some y :=
      (entry?_eq_some (h.sound hs)).2 ⟨hy, hzid.symm.trans hxid⟩
    obtain hp | hnone := hgone
    · obtain ⟨r, hr, -⟩ := h.entry?_inserted hs hp
      obtain rfl : y = ⟨r, ⟨s.nextSerial⟩⟩ := Option.some.inj (hy'.symm.trans hr)
      exact hnew rfl
    · simp [get?_eq, hy'] at hnone
  · exact hnew hlast

theorem Detached.perform (h : s.Detached token) (hs : s.Sound) (o : Operation ε) :
    (s.perform o).2.Detached token := by
  have hperforms := performs s o
  refine ⟨Nat.lt_of_lt_of_le h.below hperforms.nextSerial_le, fun y hy htoken => ?_⟩
  obtain ⟨x, hx, -, hxtoken⟩ | ⟨hlast, -⟩ := hperforms.origin hs hy
  · exact h.absent x hx (hxtoken.trans htoken)
  · have hbelow := h.below
    rw [← htoken, hlast] at hbelow
    exact Nat.lt_irrefl _ hbelow

theorem cancels_iff (hs : s.Sound) (hx : x ∈ s.entries) :
    s.Cancels o x.record.id ↔ o.revokes ∧ o.Ends x.record.id x.record.state := by
  have hget : s.get? x.record.id = some x.record :=
    (get?_eq_some hs).2 ⟨List.mem_map_of_mem hx, rfl⟩
  rw [Cancels, (performs s o).ends_iff hs, hget]
  simp

theorem reportEnd_change?_cancelled (s : Store) (id : Uuid)
    (f : RequestRecord → Option RequestRecord) :
    (s.reportEnd (s.change? id f) : Report ε × Store).2.cancelled = s.cancelled := by
  rw [change?_eq]
  cases (s.get? id).bind f <;> rfl

theorem Performs.cancelled_eq (h : Performs s o p t) (hends : o.ending? = none)
    (ho : o.revokes = false) : t.cancelled = s.cancelled := by
  cases h with
  | finish ends => cases ends.symm.trans hends
  | sweep => cases ho
  | _ => rfl

theorem perform_cancelled_of_not (s : Store) (ho : o.revokes = false) :
    (s.perform o).2.cancelled = s.cancelled := by
  cases o with
  | complete now id v => exact reportEnd_change?_cancelled s id _
  | fail now id kind message => exact reportEnd_change?_cancelled s id _
  | cancel now id message => cases ho
  | failRunning now message => cases ho
  | _ => exact (performs s _).cancelled_eq rfl rfl

theorem perform_cancel_cancelled (s : Store) (now : Instant) (id : Uuid) (message : String) :
    (s.perform (.cancel now id message : Operation ε)).2.cancelled =
      match s.entry? id with
      | some x => if x.record.state.isTerminal then s.cancelled else x.token :: s.cancelled
      | none => s.cancelled := by
  cases hx : s.entry? id with
  | none => simp [perform, cancel?, hx, reportEnd]
  | some x =>
    cases hend : x.record.state.isTerminal <;>
      simp [perform, cancel?, fail?, change?_eq, get?_eq, RequestRecord.fail?, hx, hend, reportEnd,
        replace]

theorem mem_cancelled_failRunning (s : Store) (now : Instant) (message : String) :
    token ∈ (s.failRunning now message).2.cancelled ↔
      token ∈ s.cancelled ∨ ∃ x ∈ s.entries, x.token = token ∧ x.record.state = .running := by
  simp only [failRunning, List.mem_append, List.mem_map, List.mem_filter, Entry.isRunning,
    decide_eq_true_eq]
  rw [or_comm]
  exact or_congr_right (exists_congr fun x => by tauto)

/-- The tokens that an operation cancels are those of the requests that it ends so. -/
theorem mem_cancelled_perform (hs : s.Sound) (o : Operation ε) :
    token ∈ (s.perform o).2.cancelled ↔
      token ∈ s.cancelled ∨ ∃ x ∈ s.entries, x.token = token ∧ s.Cancels o x.record.id := by
  cases o with
  | cancel now id message =>
    have hcancels : ∀ x ∈ s.entries,
        (s.Cancels (.cancel now id message : Operation ε) x.record.id ↔
          s.entry? id = some x ∧ x.record.state.isTerminal = false) := by
      intro x hx
      rw [cancels_iff hs hx, entry?_eq_some hs,
        RequestState.isTerminal_eq_false_iff]
      simp [Operation.revokes, Operation.Ends, hx]
    rw [perform_cancel_cancelled]
    constructor
    · intro h
      cases hx : s.entry? id with
      | none =>
        rw [hx] at h
        exact .inl h
      | some x =>
        simp only [hx] at h
        split at h
        · exact .inl h
        · rename_i hactive
          obtain rfl | h := List.mem_cons.1 h
          · obtain ⟨hmem, -⟩ := (entry?_eq_some hs).1 hx
            exact .inr ⟨x, hmem, rfl, (hcancels x hmem).2 ⟨hx, by simpa using hactive⟩⟩
          · exact .inl h
    · rintro (h | ⟨x, hx, rfl, hc⟩)
      · split
        · split
          · exact h
          · exact List.mem_cons_of_mem _ h
        · exact h
      · obtain ⟨hfound, hactive⟩ := (hcancels x hx).1 hc
        simp [hfound, hactive]
  | failRunning now message =>
    rw [show (s.perform (.failRunning now message : Operation ε)).2 =
      (s.failRunning now message).2 from rfl, mem_cancelled_failRunning]
    refine or_congr_right (exists_congr fun x => and_congr_right fun hx => and_congr_right fun _ => ?_)
    rw [cancels_iff hs hx]
    simp [Operation.revokes, Operation.Ends]
  | _ =>
    rw [perform_cancelled_of_not s rfl]
    simp [Cancels, Operation.revokes]

theorem Sound.perform (hs : s.Sound) (o : Operation ε) : (s.perform o).2.Sound :=
  (performs s o).sound hs

theorem isCancelled_iff_mem (s : Store) (token : Token) :
    s.isCancelled token ↔ token ∈ s.cancelled := by simp [isCancelled]

/-- While a request is in the store its token is cancelled by what cancels the request. -/
theorem Bears.isCancelled_perform (hb : s.Bears id token) (hs : s.Sound) (o : Operation ε) :
    (s.perform o).2.isCancelled token ↔ s.isCancelled token ∨ s.Cancels o id := by
  obtain ⟨x, hx, rfl⟩ := hb
  obtain ⟨hmem, rfl⟩ := (entry?_eq_some hs).1 hx
  rw [isCancelled_iff_mem, isCancelled_iff_mem, mem_cancelled_perform hs]
  refine or_congr_right ⟨?_, fun hc => ⟨x, hmem, rfl, hc⟩⟩
  rintro ⟨y, hy, htoken, hc⟩
  exact hs.eq_of_token hy hmem htoken ▸ hc

theorem Detached.isCancelled_perform (h : s.Detached token) (hs : s.Sound) (o : Operation ε) :
    (s.perform o).2.isCancelled token ↔ s.isCancelled token := by
  rw [isCancelled_iff_mem, isCancelled_iff_mem, mem_cancelled_perform hs]
  refine or_iff_left ?_
  rintro ⟨x, hx, htoken, -⟩
  exact h.absent x hx htoken

theorem isCancelled_after (hs : s.Sound) (h : s.isCancelled token)
    (operations : List (Operation ε)) : (s.after operations).isCancelled token := by
  induction operations generalizing s with
  | nil => exact h
  | cons o operations ih =>
    refine ih (hs.perform o) ?_
    rw [isCancelled_iff_mem, mem_cancelled_perform hs, ← isCancelled_iff_mem]
    exact .inl h

theorem Detached.after (h : s.Detached token) (hs : s.Sound) (operations : List (Operation ε)) :
    (s.after operations).Detached token ∧
      ((s.after operations).isCancelled token ↔ s.isCancelled token) := by
  induction operations generalizing s with
  | nil => exact ⟨h, Iff.rfl⟩
  | cons o operations ih =>
    obtain ⟨hdetached, hsame⟩ := ih (h.perform hs o) (hs.perform o)
    exact ⟨hdetached, hsame.trans (h.isCancelled_perform hs o)⟩

theorem Stays.bears {operations : List (Operation ε)} (hstays : Stays id s operations)
    (hs : s.Sound) (hb : s.Bears id token) : (s.after operations).Bears id token := by
  induction operations generalizing s with
  | nil => exact hb
  | cons o operations ih =>
    obtain ⟨hother, hkept, hstays⟩ := hstays
    exact ih hstays (hs.perform o) ((performs s o).bears hs hb hother hkept)

theorem Bears.detached (hb : s.Bears id token) (hs : s.Sound) {operations : List (Operation ε)}
    (hleft : ¬ Stays id s operations) : (s.after operations).Detached token := by
  induction operations generalizing s with
  | nil => exact absurd trivial hleft
  | cons o operations ih =>
    by_cases hkept : (s.perform o).1 ≠ .inserted id ∧ ((s.perform o).2.get? id).isSome
    · refine ih ((performs s o).bears hs hb hkept.1 hkept.2) (hs.perform o) fun hstays => ?_
      exact hleft ⟨hkept.1, hkept.2, hstays⟩
    · have hgone : (s.perform o).1 = .inserted id ∨ (s.perform o).2.get? id = none := by
        simpa [imp_iff_not_or, or_comm] using hkept
      exact (((performs s o).detached hs hb hgone).after (hs.perform o) operations).1

/-- Some operation of a sequence cancels a request that is in the store until then. -/
def Revoked (id : Uuid) (s : Store) (operations : List (Operation ε)) : Prop :=
  ∃ before o after, operations = before ++ o :: after ∧ Stays id s before ∧
    (s.after before).Cancels o id

theorem revoked_nil : ¬ Revoked id s ([] : List (Operation ε)) := by
  rintro ⟨before, o, after, h, -⟩
  simp at h

theorem revoked_cons {operations : List (Operation ε)} :
    Revoked id s (o :: operations) ↔ s.Cancels o id ∨
      ((s.perform o).1 ≠ .inserted id ∧ ((s.perform o).2.get? id).isSome) ∧
        Revoked id (s.perform o).2 operations := by
  constructor
  · rintro ⟨before, o', after, h, hstays, hc⟩
    cases before with
    | nil =>
      obtain ⟨rfl, rfl⟩ := List.cons.inj h
      exact .inl hc
    | cons first before =>
      obtain ⟨rfl, rfl⟩ := List.cons.inj h
      obtain ⟨hother, hkept, hstays⟩ := hstays
      exact .inr ⟨⟨hother, hkept⟩, before, o', after, rfl, hstays, hc⟩
  · rintro (hc | ⟨⟨hother, hkept⟩, before, o', after, rfl, hstays, hc⟩)
    · exact ⟨[], o, operations, rfl, trivial, hc⟩
    · exact ⟨o :: before, o', after, rfl, ⟨hother, hkept, hstays⟩, hc⟩

/-- The token of a request is cancelled by what cancels the request while it is in the store. -/
theorem Bears.isCancelled_after (hb : s.Bears id token) (hs : s.Sound)
    (operations : List (Operation ε)) :
    (s.after operations).isCancelled token ↔
      s.isCancelled token ∨ Revoked id s operations := by
  induction operations generalizing s with
  | nil => simp [Store.after, revoked_nil]
  | cons o operations ih =>
    rw [revoked_cons, ← or_assoc, ← hb.isCancelled_perform hs o]
    have hsound := hs.perform o
    by_cases hkept : (s.perform o).1 ≠ .inserted id ∧ ((s.perform o).2.get? id).isSome
    · rw [and_iff_right hkept]
      exact ih ((performs s o).bears hs hb hkept.1 hkept.2) hsound
    · have hleft : ¬ Stays id s [o] := fun h => hkept ⟨h.1, h.2.1⟩
      have hrest := ((hb.detached hs hleft).after hsound operations).2
      rw [or_iff_left fun h => hkept h.1]
      exact hrest

theorem Performs.ends_terminal (h : Performs s o p t) (hs : s.Sound) :
    ∀ r ∈ p.ends, r.state.isTerminal := by
  intro r hr
  cases h with
  | finish ends hx h =>
    obtain rfl := List.mem_singleton.1 hr
    exact ((Operation.ending?_spec ends).1 _ _ h).terminal
  | sweep now message =>
    obtain ⟨old, -, -, hfail⟩ := (mem_swept hs).1 hr
    exact (RequestRecord.Finishes.fail hfail).terminal
  | _ => cases hr

theorem Stays.terminal {operations : List (Operation ε)} (hstays : Stays id s operations)
    (hs : s.Sound) (hr : s.get? id = some r) (hend : r.state.isTerminal) :
    ∃ r', (s.after operations).get? id = some r' ∧ r'.state.isTerminal := by
  obtain ⟨r', hr', hover⟩ := hs.told hr hstays
  refine ⟨r', hr', ?_⟩
  have hends := hover.ends
  rw [if_pos hend] at hends
  by_contra hactive
  rw [if_neg hactive] at hends
  omega

theorem Operation.Ends.active {state : RequestState} (h : o.Ends id state) :
    state.isTerminal = false := by
  refine state.isTerminal_eq_false_iff.2 ?_
  cases o with
  | failRunning => exact .inr h
  | complete => exact h.2
  | fail => exact h.2
  | cancel => exact h.2
  | _ => exact h.elim

theorem not_revoked_of_terminal (hs : s.Sound) (hr : s.get? id = some r)
    (hend : r.state.isTerminal) (operations : List (Operation ε)) :
    ¬ Revoked id s operations := by
  rintro ⟨before, o, after, -, hstays, -, hends⟩
  obtain ⟨r', hr', hend'⟩ := hstays.terminal hs hr hend
  obtain ⟨r'', hr'', hactive⟩ := ((performs _ o).ends_iff (hs.after before) id).1 hends
  obtain rfl : r' = r'' := Option.some.inj (hr'.symm.trans hr'')
  rw [hactive.active] at hend'
  cases hend'

/-- The token of a request that ends otherwise is never cancelled. -/
theorem Bears.spared (hb : s.Bears id token) (hs : s.Sound) (ho : o.revokes = false)
    (hends : ∃ r ∈ (s.perform o).1.ends, r.id = id) (later : List (Operation ε)) :
    ((s.perform o).2.after later).isCancelled token = false := by
  have hperforms := performs s o
  have hsound := hs.perform o
  have hclear : ¬ s.isCancelled token := by
    obtain ⟨x, hx, rfl⟩ := hb
    obtain ⟨hmem, -⟩ := (entry?_eq_some hs).1 hx
    obtain ⟨old, hold, hactive⟩ := (hperforms.ends_iff hs id).1 hends
    obtain rfl : x.record = old := by simpa [get?_eq, hx] using hold
    intro h
    have hended := hs.ended x hmem ((isCancelled_iff_mem s _).1 h)
    rw [hactive.active] at hended
    cases hended
  obtain ⟨r, hr, rfl⟩ := hends
  have hget := hperforms.current hs r (List.mem_append_right _ hr)
  have hother : (s.perform o).1 ≠ .inserted r.id := by
    intro h
    rw [h] at hr
    cases hr
  have hb' := hperforms.bears hs hb hother (by rw [hget]; rfl)
  refine Bool.eq_false_iff.2 fun h => ?_
  obtain h | h := (hb'.isCancelled_after hsound later).1 h
  · obtain h | h := (hb.isCancelled_perform hs o).1 h
    · exact hclear h
    · cases ho.symm.trans h.1
  · exact not_revoked_of_terminal hsound hget (hperforms.ends_terminal hs r hr) later h

/-- A request of which the token has just been cancelled is cancelled or has failed. -/
theorem Cancels.state (h : s.Cancels o id) (hs : s.Sound) :
    ∃ r, (s.perform o).2.get? id = some r ∧ (r.state = .cancelled ∨ r.state = .failed) := by
  obtain ⟨hrevokes, r, hr, rfl⟩ := h
  have hperforms := performs s o
  refine ⟨r, hperforms.current hs r (List.mem_append_right _ hr), ?_⟩
  generalize s.perform o = answer at hperforms hr
  obtain ⟨p, t⟩ := answer
  cases hperforms with
  | finish ends hx h =>
    obtain rfl := List.mem_singleton.1 hr
    cases o with
    | cancel now i message =>
      obtain ⟨rfl, rfl⟩ := Prod.mk.inj (Option.some.inj ends)
      rw [(RequestRecord.fail?_eq_some h).2]
      exact .inl rfl
    | failRunning => cases ends
    | _ => cases hrevokes
  | sweep now message =>
    obtain ⟨old, -, -, hfail⟩ := (mem_swept hs).1 hr
    rw [(RequestRecord.fail?_eq_some hfail).2]
    exact .inr rfl
  | _ => cases hr

/-- A cancelled token belongs to a request that was cancelled or has failed. -/
def Spent (s : Store) : Prop :=
  ∀ x ∈ s.entries, s.isCancelled x.token →
    x.record.state = .cancelled ∨ x.record.state = .failed

theorem Spent.perform (h : s.Spent) (hs : s.Sound) (o : Operation ε) : (s.perform o).2.Spent := by
  have hperforms := performs s o
  have hsound := hs.perform o
  intro y hy hc
  rw [isCancelled_iff_mem, mem_cancelled_perform hs] at hc
  have hfound := (entry?_eq_some hsound).2 ⟨hy, rfl⟩
  have hget : (s.perform o).2.get? y.record.id = some y.record := by rw [get?_eq, hfound]; rfl
  obtain ⟨x, hx, hid, htoken⟩ | ⟨hlast, -⟩ := hperforms.origin hs hy
  · have hother : (s.perform o).1 ≠ .inserted y.record.id := by
      intro hp
      obtain ⟨r, hr, -⟩ := hperforms.entry?_inserted hs hp
      obtain rfl := Option.some.inj (hfound.symm.trans hr)
      have hbelow := hs.below x hx
      rw [htoken] at hbelow
      exact Nat.lt_irrefl _ hbelow
    have hold : s.get? y.record.id = some x.record :=
      (get?_eq_some hs).2 ⟨List.mem_map_of_mem hx, hid⟩
    obtain ⟨r, hr, htold⟩ := hperforms.told hs hold hother (by rw [hget]; rfl)
    obtain rfl : y.record = r := Option.some.inj (hget.symm.trans hr)
    obtain hc | ⟨z, hz, hztoken, hc⟩ := hc
    · have hspent := h x hx ((isCancelled_iff_mem s _).2 (htoken ▸ hc))
      have hend := hs.ended x hx (htoken ▸ hc)
      cases htold with
      | nothing same => rwa [same]
      | begun hbegin =>
        rw [(RequestRecord.begin?_eq_some hbegin).1] at hend
        cases hend
      | ended hfinish =>
        rw [hfinish.not_terminal] at hend
        cases hend
    · obtain rfl := hs.eq_of_token hz hx (hztoken.trans htoken.symm)
      obtain ⟨r, hr, hstate⟩ := hc.state hs
      obtain rfl : y.record = r := Option.some.inj (hget.symm.trans (hid ▸ hr))
      exact hstate
  · have hbelow : y.token.serial < s.nextSerial := by
      obtain hc | ⟨z, hz, hztoken, -⟩ := hc
      · exact hs.spent _ hc
      · exact hztoken ▸ hs.below z hz
    rw [hlast] at hbelow
    exact absurd hbelow (Nat.lt_irrefl _)

theorem Spent.after (h : s.Spent) (hs : s.Sound) (operations : List (Operation ε)) :
    (s.after operations).Spent := by
  induction operations generalizing s with
  | nil => exact h
  | cons o operations ih => exact ih (h.perform hs o) (hs.perform o)

theorem nextSerial_le_after (s : Store) (operations : List (Operation ε)) :
    s.nextSerial ≤ (s.after operations).nextSerial := by
  induction operations generalizing s with
  | nil => exact Nat.le_refl _
  | cons o operations ih => exact Nat.le_trans (performs s o).nextSerial_le (ih _)

/-- An operation on one identifier cancels no token of another, whether its entry is gone or not. -/
theorem Bears.isCancelled_others (hb : s.Bears id token) (hs : s.Sound)
    (later : List (Operation ε)) (ho : o.subject? = some other) (hne : other ≠ id) :
    ((s.after later).perform o).2.isCancelled token = (s.after later).isCancelled token := by
  have hlater := hs.after later
  refine Bool.eq_iff_iff.2 ?_
  by_cases hstays : Stays id s later
  · rw [(hstays.bears hs hb).isCancelled_perform hlater]
    refine or_iff_left fun hc => hne ?_
    obtain ⟨r, -, hends⟩ := ((performs _ o).ends_iff hlater id).1 hc.2
    cases o with
    | cancel =>
      obtain rfl := Option.some.inj ho
      exact hends.1.symm
    | failRunning => cases ho
    | _ => cases hc.1
  · exact (hb.detached hs hstays).isCancelled_perform hlater o

/-- What becomes of the token that a request was handed when it began to run. -/
structure Handed (ε : Type) (s : Store) (id : Uuid) (token : Token) : Prop where
  borne : s.Bears id token
  clear : s.isCancelled token = false
  revoked : ∀ later : List (Operation ε),
    (s.after later).isCancelled token ↔ Revoked id s later
  others : ∀ (later : List (Operation ε)) (o : Operation ε) other, o.subject? = some other →
    other ≠ id →
    ((s.after later).perform o).2.isCancelled token = (s.after later).isCancelled token
  stays : ∀ later : List (Operation ε), Stays id s later → (s.after later).Bears id token
  left : ∀ later more : List (Operation ε), ¬ Stays id s later →
    (∀ x ∈ ((s.after later).after more).entries, x.token ≠ token) ∧
      ((s.after later).after more).isCancelled token = (s.after later).isCancelled token

theorem Bears.handed (hb : s.Bears id token) (hs : s.Sound) (hclear : s.isCancelled token = false) :
    Handed ε s id token where
  borne := hb
  clear := hclear
  revoked later := by
    rw [hb.isCancelled_after hs, hclear]
    simp
  others later o other := hb.isCancelled_others hs later
  stays later hstays := hstays.bears hs hb
  left later more hleft := by
    obtain ⟨hdetached, hsame⟩ := (hb.detached hs hleft).after (hs.after later) more
    exact ⟨hdetached.absent, Bool.eq_iff_iff.2 hsame⟩

theorem handed_of_begun (hs : s.Sound) {now : Instant}
    (h : (s.perform (.begin now id : Operation ε)).1 = .begun (some (r, token))) :
    Handed ε (s.perform (.begin now id : Operation ε)).2 id token := by
  have hperforms := performs s (.begin now id : Operation ε)
  have hsound := hperforms.sound hs
  generalize s.perform (.begin now id : Operation ε) = answer at h hperforms hsound ⊢
  obtain ⟨p, t⟩ := answer
  cases hperforms with
  | @begin _ _ x r' hx hbegin =>
    obtain ⟨rfl, rfl⟩ : r' = r ∧ x.token = token := by simpa using h
    obtain ⟨hmem, hid⟩ := (entry?_eq_some hs).1 hx
    obtain ⟨hpending, hr⟩ := RequestRecord.begin?_eq_some hbegin
    have hsame : r'.id = x.record.id := by rw [hr]
    refine Bears.handed ⟨⟨r', x.token⟩, ?_, rfl⟩ hsound ?_
    · exact (entry?_eq_some hsound).2 ⟨(mem_replace hs hmem hsame).2 (.inl rfl), hsame.trans hid⟩
    · refine Bool.eq_false_iff.2 fun hc => ?_
      have hend := hs.ended x hmem ((isCancelled_iff_mem _ _).1 hc)
      rw [hpending] at hend
      cases hend
  | notBegun => cases h
  | insert inserts => cases inserts
  | refuse inserts => cases inserts
  | finish ends => cases ends
  | notFinished ends => cases ends

/-- What the sweep does to the entries and to the tokens. -/
structure Sweeps (s t : Store) (now : Instant) (message : String) : Prop where
  running : ∀ id x, s.entry? id = some x → x.record.state = .running →
    ∃ r, x.record.fail? now .failed message = some r ∧ r.state = .failed ∧
      t.entry? id = some { x with record := r } ∧ t.isCancelled x.token
  others : ∀ id x, s.entry? id = some x → x.record.state ≠ .running →
    t.entry? id = some x ∧ t.isCancelled x.token = s.isCancelled x.token
  absent : ∀ id, s.entry? id = none → t.entry? id = none
  tokens : ∀ token, t.isCancelled token ↔ s.isCancelled token ∨
    ∃ x ∈ s.entries, x.token = token ∧ x.record.state = .running

theorem sweeps (hs : s.Sound) (now : Instant) (message : String) :
    s.Sweeps (s.failRunning now message).2 now message := by
  have hentry := entry?_map s (failEntry now message) (failEntry_record_id now message)
    (t := (s.failRunning now message).2) rfl
  have htokens : ∀ token, (s.failRunning now message).2.isCancelled token ↔
      s.isCancelled token ∨ ∃ x ∈ s.entries, x.token = token ∧ x.record.state = .running := by
    intro token
    rw [isCancelled_iff_mem, isCancelled_iff_mem, mem_cancelled_failRunning]
  refine ⟨?_, ?_, ?_, htokens⟩
  · intro id x hx hrun
    obtain ⟨-, r, hr, he⟩ | ⟨hidle, -⟩ := failEntry_cases now message x
    · refine ⟨r, hr, ?_, ?_, ?_⟩
      · rw [(RequestRecord.fail?_eq_some hr).2]
        rfl
      · rw [hentry, hx, Option.map_some, he]
      · exact (htokens x.token).2 (.inr ⟨x, ((entry?_eq_some hs).1 hx).1, rfl, hrun⟩)
    · exact absurd hrun hidle
  · intro id x hx hidle
    obtain ⟨hrun, -⟩ | ⟨-, he⟩ := failEntry_cases now message x
    · exact absurd hrun hidle
    · refine ⟨by rw [hentry, hx, Option.map_some, he], Bool.eq_iff_iff.2 ?_⟩
      rw [htokens]
      refine or_iff_left ?_
      rintro ⟨y, hy, htoken, hrun⟩
      obtain rfl := hs.eq_of_token hy ((entry?_eq_some hs).1 hx).1 htoken
      exact hidle hrun
  · intro id hnone
    rw [hentry, hnone, Option.map_none]

/-- Whose the tokens are after a sequence of operations, and over the operations to come. -/
structure Custody (operations : List (Operation ε)) (s : Store) : Prop where
  handed : ∀ now id r token,
    (s.perform (.begin now id : Operation ε)).1 = .begun (some (r, token)) →
    Handed ε (s.perform (.begin now id : Operation ε)).2 id token
  spent : ∀ x ∈ s.entries, s.isCancelled x.token →
    x.record.state = .cancelled ∨ x.record.state = .failed
  spared : ∀ id x (o : Operation ε), s.entry? id = some x → o.revokes = false →
    (∃ r ∈ (s.perform o).1.ends, r.id = id) → ∀ later : List (Operation ε),
    ((s.perform o).2.after later).isCancelled x.token = false
  fresh : ∀ (o : Operation ε) id, (s.perform o).1 = .inserted id →
    ∃ r token, Store.entry? (s.perform o).2 id = some ⟨r, token⟩ ∧
      (s.perform o).2.isCancelled token = false ∧
      ∀ before after, operations = before ++ after →
        ∀ x ∈ (empty.after before).entries, x.token ≠ token
  kept : ∀ (later : List (Operation ε)) token, s.isCancelled token →
    (s.after later).isCancelled token
  swept : ∀ now message, s.Sweeps (s.failRunning now message).2 now message

theorem token_cancelled_with_its_life (operations : List (Operation ε)) :
    Custody operations (empty.after operations) := by
  have hs : (empty.after operations).Sound := sound_empty.after operations
  have hspent : (empty.after operations).Spent := by
    refine Spent.after ?_ sound_empty operations
    intro x hx
    cases hx
  refine ⟨?_, hspent, ?_, ?_, ?_, ?_⟩
  · exact fun now id r token h => handed_of_begun hs h
  · exact fun id x o hx ho hends later => Bears.spared ⟨x, hx, rfl⟩ hs ho hends later
  · intro o id hp
    obtain ⟨r, hr, hcancelled⟩ := (performs _ o).entry?_inserted hs hp
    refine ⟨r, _, hr, Bool.eq_false_iff.2 fun hc => ?_, ?_⟩
    · rw [isCancelled_iff_mem, hcancelled] at hc
      exact Nat.lt_irrefl _ (hs.spent _ hc)
    · intro before after hsplit x hx htoken
      have hbelow := (sound_empty.after before).below x hx
      have hlater := nextSerial_le_after (empty.after before) after
      rw [htoken] at hbelow
      rw [hsplit, Store.after, List.foldl_append] at hbelow
      exact absurd (Nat.lt_of_lt_of_le hbelow hlater) (Nat.lt_irrefl _)
  · exact fun later token h => isCancelled_after hs h later
  · exact fun now message => sweeps hs now message

/-- A request as it waits, and as it runs. -/
def waiting : RequestRecord := .new (.ofNat 1) (.ofMillis 0) "a" "f" .null 0

def launched : RequestRecord := { waiting with state := .running, startedAt := some (.ofMillis 1) }

/-- The token of a request that runs is cancelled with it, and not with a later one of its name. -/
theorem token_cancelled_with_its_life_relaunched :
    let s := empty.after [(.insert waiting : Operation Unit)]
    let t := (s.perform (.begin (.ofMillis 1) waiting.id : Operation Unit)).2
    let again : List (Operation Unit) := [.insert waiting]
    let cancel : List (Operation Unit) := [.cancel (.ofMillis 2) waiting.id "late"]
    (s.perform (.begin (.ofMillis 1) waiting.id : Operation Unit)).1 =
        .begun (some (launched, ⟨0⟩)) ∧
      (t.after cancel).isCancelled ⟨0⟩ ∧ ¬ Stays waiting.id t again ∧
      ((t.after again).after cancel).isCancelled ⟨0⟩ = false ∧
      ((t.after again).after cancel).isCancelled ⟨1⟩ := by
  intro s t again cancel
  have hbegun : (s.perform (.begin (.ofMillis 1) waiting.id : Operation Unit)).1 =
      .begun (some (launched, ⟨0⟩)) := rfl
  have h := (token_cancelled_with_its_life [(.insert waiting : Operation Unit)]).handed _ _ _ _ hbegun
  have hleft : ¬ Stays waiting.id t again := fun hstays => hstays.1 rfl
  refine ⟨hbegun, ?_, hleft, ?_, by decide +kernel⟩
  · exact (h.revoked cancel).2 ⟨[], _, [], rfl, trivial, rfl, by decide +kernel⟩
  · exact (h.left again cancel hleft).2.trans (by decide +kernel)

end RequestEngine.Store
