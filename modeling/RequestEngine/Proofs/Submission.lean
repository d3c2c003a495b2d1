import RequestEngine.Proofs.Accounting
import RequestEngine.Proofs.Listing

/-! Submissions. Each is decided by the registry, the function table and the number of requests
that wait, in this order. A refusal is counted and has no other effect, and an accepted request
becomes the newest record. -/
namespace RequestEngine

open Ledger (submitted)

universe u v

theorem Entries.isSome_find?_iff {α : Type u} {key : String} {entries : List (String × α)} :
    (find? key entries).isSome ↔ ∃ value, (key, value) ∈ entries := by
  induction entries with
  | nil => simp [find?]
  | cons entry rest ih =>
    obtain ⟨k, v⟩ := entry
    by_cases h : key = k
    · simp [find?, h]
    · simp [find?, h, ih]

namespace Json

/-- The value is an object with a member under the key. -/
def HasKey (v : Json) (key : String) : Prop :=
  ∃ members value, v = .object members ∧ (key, value) ∈ members

theorem isSome_get?_iff {v : Json} {key : String} : (v.get? key).isSome ↔ v.HasKey key := by
  cases v with
  | object members => simp [get?, HasKey, Entries.isSome_find?_iff]
  | _ => simp [get?, HasKey]

end Json

namespace FunctionTable

variable {t : FunctionTable} {function : String} {parameters : Json} {name : String}

/-- The function is in the table and requires a parameter that is not given. -/
def Lacks (t : FunctionTable) (function : String) (parameters : Json) : Prop :=
  ∃ config, t.get? function = some config ∧
    ∃ spec ∈ config.parameters, spec.required ∧ ¬ parameters.HasKey spec.name

/-- The parameter is the first that is required and not given, as they are declared. -/
def FirstMissing (t : FunctionTable) (function : String) (parameters : Json) (name : String) :
    Prop :=
  ∃ config, t.get? function = some config ∧
    ∃ before spec after, config.parameters = before ++ spec :: after ∧
      spec.required ∧ spec.name = name ∧ ¬ parameters.HasKey spec.name ∧
      ∀ other ∈ before, other.required → parameters.HasKey other.name

theorem missingParameter?_eq_some :
    t.missingParameter? function parameters = some name ↔
      t.FirstMissing function parameters name := by
  have hkey : ∀ key, (parameters.get? key).isNone = true ↔ ¬ parameters.HasKey key := by
    intro key
    rw [← Json.isSome_get?_iff]
    simp
  unfold missingParameter? FirstMissing
  simp only [Option.bind_eq_bind, Option.bind_eq_some_iff]
  refine exists_congr fun config => and_congr_right fun _ => ?_
  rw [FunctionConfig.required, List.find?_map, List.find?_filter, Option.map_eq_some_iff]
  simp only [List.find?_eq_some_iff_append, Function.comp_apply, hkey, decide_eq_true_eq,
    Bool.not_eq_true', decide_eq_false_iff_not, not_and, not_not]
  constructor
  · rintro ⟨spec, ⟨⟨hrequired, hmissing⟩, before, after, hsplit, hbefore⟩, hname⟩
    exact ⟨before, spec, after, hsplit, hrequired, hname, hmissing, hbefore⟩
  · rintro ⟨before, spec, after, hsplit, hrequired, hname, hmissing, hbefore⟩
    exact ⟨spec, ⟨⟨hrequired, hmissing⟩, before, after, hsplit, hbefore⟩, hname⟩

theorem lacks_iff :
    t.Lacks function parameters ↔ (t.missingParameter? function parameters).isSome := by
  constructor
  · rintro ⟨config, hconfig, spec, hspec, hrequired, hmissing⟩
    have hname : spec.name ∈ config.required :=
      List.mem_map_of_mem (List.mem_filter.2 ⟨hspec, hrequired⟩)
    have hnone : (parameters.get? spec.name).isNone = true := by
      rw [← Json.isSome_get?_iff] at hmissing
      simpa using hmissing
    simp only [missingParameter?, hconfig, Option.bind_eq_bind, Option.bind_some]
    exact List.find?_isSome.2 ⟨spec.name, hname, hnone⟩
  · intro h
    obtain ⟨name, hname⟩ := Option.isSome_iff_exists.1 h
    obtain ⟨config, hconfig, before, spec, after, hsplit, hrequired, -, hmissing, -⟩ :=
      missingParameter?_eq_some.1 hname
    exact ⟨config, hconfig, spec, by simp [hsplit], hrequired, hmissing⟩

end FunctionTable

namespace Engine

variable {e e' : Engine} {log : List RequestEvent} {id : Uuid} {agent function : String}
  {parameters : Json} {timeout : Option UInt64}

structure Decides (e : Engine) (id : Uuid) (agent function : String) (parameters : Json)
    (result : Except Rejection Uuid) : Prop where
  unknown : ∀ a, result = .error (.unknownAgent a) ↔
    a = agent ∧ e.registry.resolve? agent = none
  lacking : (∃ a f name, result = .error (.missingParameter a f name)) ↔
    (e.registry.resolve? agent).isSome ∧ e.functions.Lacks function parameters
  missing : ∀ a f name, result = .error (.missingParameter a f name) ↔
    a = agent ∧ f = function ∧ (e.registry.resolve? agent).isSome ∧
      e.functions.FirstMissing function parameters name
  full : ∀ capacity, result = .error (.queueFull capacity) ↔
    capacity = e.queue.capacity ∧ (e.registry.resolve? agent).isSome ∧
      ¬ e.functions.Lacks function parameters ∧ e.queue.capacity ≤ e.store.count .pending
  accepted : ∀ i, result = .ok i ↔
    i = id ∧ (e.registry.resolve? agent).isSome ∧
      ¬ e.functions.Lacks function parameters ∧ e.store.count .pending < e.queue.capacity

/-- The checks of a submission, one after the other. -/
theorem submit_fst (e : Engine) (id : Uuid) (agent function : String) (parameters : Json)
    (timeout : Option UInt64) :
    (e.submit id agent function parameters timeout).1 =
      if (e.registry.resolve? agent).isSome then
        match e.functions.missingParameter? function parameters with
        | some name => .error (.missingParameter agent function name)
        | none =>
          if e.queue.capacity ≤ e.queue.items.length then .error (.queueFull e.queue.capacity)
          else .ok id
      else .error (.unknownAgent agent) := by
  unfold submit enqueue
  cases e.registry.resolve? agent with
  | none => simp [throw, throwThe, MonadExceptOf.throw, bind, Except.bind]
  | some a =>
    cases e.functions.missingParameter? function parameters with
    | some name => simp [throw, throwThe, MonadExceptOf.throw, bind, Except.bind]
    | none =>
      by_cases hq : e.queue.capacity ≤ e.queue.items.length
      · simp [Store.insertIf, WorkQueue.push, hq, bind, Except.bind]
      · simp [Store.insertIf, WorkQueue.push, hq, bind, Except.bind, pure, Except.pure]

theorem Sound.length_items (h : e.Sound log) : e.queue.items.length = e.store.count .pending := by
  have hpending : ((e.ledger.records.filter (·.state = .pending)).map (·.id)).Perm
      e.ledger.waiting := by
    rw [List.perm_ext_iff_of_nodup ((List.filter_sublist.map _).nodup h.ledger.distinct)
      h.ledger.waiting_nodup]
    intro id
    rw [h.ledger.waiting id]
    simp only [List.mem_map, List.mem_filter, decide_eq_true_eq]
    constructor
    · rintro ⟨r, ⟨hr, hs⟩, hid⟩
      exact ⟨r, hr, hid, hs⟩
    · rintro ⟨r, hr, hid, hs⟩
      exact ⟨r, ⟨hr, hs⟩, hid⟩
  have hlength := hpending.length_eq
  rw [List.length_map, ← List.countP_eq_length_filter] at hlength
  rw [Session.count_eq]
  exact hlength.symm

theorem Sound.decides (h : e.Sound log) (id : Uuid) (agent function : String) (parameters : Json)
    (timeout : Option UInt64) :
    e.Decides id agent function parameters (e.submit id agent function parameters timeout).1 := by
  have hlacks := @FunctionTable.lacks_iff e.functions function parameters
  have hfirst := @FunctionTable.missingParameter?_eq_some e.functions function parameters
  rw [submit_fst, h.length_items]
  cases ha : e.registry.resolve? agent with
  | none => constructor <;> simp [ha, eq_comm]
  | some a =>
    cases hm : e.functions.missingParameter? function parameters with
    | some name =>
      rw [hm] at hlacks
      constructor <;> simp [ha, hlacks, ← hfirst, hm, eq_comm]
    | none =>
      rw [hm] at hlacks
      by_cases hq : e.queue.capacity ≤ e.store.count .pending
      · constructor <;> simp [ha, hlacks, ← hfirst, hm, hq, eq_comm]
      · constructor <;> simp [ha, hlacks, ← hfirst, hm, hq, Nat.lt_of_not_le hq, eq_comm]

/-- A submission to an engine at rest. A refusal is counted and has no other effect. What is
accepted becomes the newest record, and the others move on as they may. -/
structure Decided (e : Engine) (id : Uuid) (agent function : String) (parameters : Json)
    (timeout : Option UInt64) (result : Except Rejection Uuid) (e' : Engine) : Prop
    extends e.Decides id agent function parameters result where
  refused : ∀ reason, result = .error reason → e' =
    { e with statistics := { e.statistics with rejected := e.statistics.rejected + 1 } }
  added : ∀ i, result = .ok i → ∃ others r, e'.store.records = others ++ [r] ∧
    List.Forall₂ RequestRecord.Becomes e.store.records others ∧
    (RequestRecord.new id e.now agent function parameters
      (e.timeoutFor function timeout)).Becomes r
  newest : ∀ i, result = .ok i → ∀ limit,
    (e'.store.recent (limit + 1)).map (·.id) = id :: (e.store.recent limit).map (·.id)

theorem step_submit_ok (he : e.enqueue id agent function parameters timeout = .ok e') :
    e.step (.submit id agent function parameters timeout) =
      (.submission (.ok id), e'.settle) := by simp [step, perform, submit, he]

theorem step_submit_error {reason : Rejection}
    (he : e.enqueue id agent function parameters timeout = .error reason) (h : e.AtRest) :
    e.step (.submit id agent function parameters timeout) = (.submission (.error reason),
      { e with statistics := { e.statistics with rejected := e.statistics.rejected + 1 } }) := by
  have hrest : ({ e with statistics := e.statistics.recordRejected } : Engine).AtRest :=
    h.of_eq rfl rfl rfl rfl rfl
  have hperform : e.perform (.submit id agent function parameters timeout) =
      (.submission (.error reason), { e with statistics := e.statistics.recordRejected }) := by
    simp [perform, submit, he]
  rw [step, hperform]
  exact congrArg (Prod.mk _) hrest.settle

theorem Sound.enqueued (h : e.Sound log) (hnew : id ∉ submitted log)
    (he : e.enqueue id agent function parameters timeout = .ok e') :
    e'.Sound (log ++ [.submitted id agent function e.now]) ∧
      e'.store.records = e.store.records ++
        [.new id e.now agent function parameters (e.timeoutFor function timeout)] := by
  have hproceeds := h.enqueue hnew he
  constructor
  · apply hproceeds.sound h
    rw [Ledger.submitted_append, List.nodup_append]
    refine ⟨h.ledger.fresh, List.nodup_singleton id, ?_⟩
    rintro a ha b hb rfl
    exact hnew (List.mem_singleton.1 hb ▸ ha)
  · obtain ⟨-, -, -, rfl⟩ := enqueue_eq_ok he
    exact h.records_insert hnew

theorem Sound.moves_submit (h : e.Sound log) (hnew : id ∉ submitted log)
    (he : e.enqueue id agent function parameters timeout = .ok e') :
    List.Forall₂ RequestRecord.Becomes (e.store.records ++
      [.new id e.now agent function parameters (e.timeoutFor function timeout)])
      e'.settle.store.records := by
  obtain ⟨hsound, hrecords⟩ := h.enqueued hnew he
  obtain ⟨new, hworks⟩ := hsound.turns (settle_turns e')
  rw [← hrecords]
  exact hworks.proceeds.tells.moves hsound.ledger hworks.none

theorem Sound.decided_submit (h : e.Sound log) (hrest : e.AtRest) (hregular : e.Regular)
    (hnew : id ∉ submitted log) :
    ∃ result, (e.step (.submit id agent function parameters timeout)).1 = .submission result ∧
      e.Decided id agent function parameters timeout result
        (e.step (.submit id agent function parameters timeout)).2 := by
  have hdecides := h.decides id agent function parameters timeout
  have hfresh : ∀ i, (e.step (.submit id agent function parameters timeout)).1.accepted? = some i →
      i ∉ submitted log := by
    intro i hi
    have hid := submission?_of_accepted? hi
    exact Option.some.inj hid ▸ hnew
  have hlisted := (hregular.step h _ hfresh).listed
  obtain ⟨_, _, hcarries, -⟩ := h.step _ hfresh
  have hstore := (hcarries.after hfresh).store
  rw [Engine.submit] at hdecides
  cases he : e.enqueue id agent function parameters timeout with
  | error reason =>
    rw [he] at hdecides
    rw [step_submit_error he hrest]
    refine ⟨_, rfl, hdecides, fun _ _ => rfl, ?_, ?_⟩
    · intro i hi
      cases hi
    · intro i hi
      cases hi
  | ok e' =>
    rw [he] at hdecides
    rw [step_submit_ok he] at hlisted hstore ⊢
    obtain ⟨others, r, hrecords, hothers, hr⟩ := exists_of_forall₂_concat (h.moves_submit hnew he)
    refine ⟨_, rfl, hdecides, ?_, fun _ _ => ⟨others, r, hrecords, hothers, hr⟩, ?_⟩
    · intro reason hreason
      cases hreason
    · intro _ _ limit
      rw [hlisted.recent hstore, hregular.listed.recent h.store, hrecords]
      have hids := RequestRecord.map_id_of_forall₂ hothers
      simp only [List.reverse_append, List.reverse_singleton, List.singleton_append,
        List.take_succ_cons, List.map_cons, List.map_take, List.map_reverse, hids, hr.id]
      rfl

end Engine

namespace Session

/-- Whatever is submitted at a resting point is decided exactly, and it is accepted as a whole or
not at all. -/
theorem submit_refused_or_newest (s : Session) (n : Nat) (id : Uuid) (agent function : String)
    (parameters : Json) (timeout : Option UInt64) (hnew : id ∉ s.accepted n) : ∃ result,
    ((s.engine n).step (.submit id agent function parameters timeout)).1 = .submission result ∧
      (s.engine n).Decided id agent function parameters timeout result
        ((s.engine n).step (.submit id agent function parameters timeout)).2 := by
  obtain ⟨log, h⟩ := s.history n
  obtain ⟨hsound, hlog⟩ := h.sound
  exact hsound.decided_submit (s.atRest n) (s.regular n) (hlog ▸ hnew)

/-- A function with a parameter that is required, and a queue for one request. -/
def crowded : Session where
  registry := Registry.empty.register .nil (.plain "a" fun _ _ => .value .null)
  config := ⟨1, 1, 60000, 100, 8⟩
  startMs := 0
  commands := [.load ⟨Dictionary.empty.insert "f" ⟨"", none, [⟨"k", "string", true⟩]⟩⟩,
    .submit (.ofNat 1) "a" "f" (.object [("k", .null)]) none]
  fresh := by decide

/-- A second request finds the queue full. -/
theorem submit_refused_or_newest_full : Uuid.ofNat 2 ∉ crowded.accepted 2 ∧ ∃ result,
    ((crowded.engine 2).step (.submit (.ofNat 2) "a" "f" (.object [("k", .null)]) none)).1 =
      .submission result ∧ result = .error (.queueFull 1) := by
  have hnew : Uuid.ofNat 2 ∉ crowded.accepted 2 := by decide +kernel
  obtain ⟨result, hanswer, hdecided⟩ :=
    submit_refused_or_newest crowded 2 (.ofNat 2) "a" "f" (.object [("k", .null)]) none hnew
  refine ⟨hnew, result, hanswer, (hdecided.full 1).2 ⟨?_, ?_, ?_, ?_⟩⟩
  · decide +kernel
  · decide +kernel
  · rw [FunctionTable.lacks_iff]
    decide +kernel
  · decide +kernel

end Session

end RequestEngine
