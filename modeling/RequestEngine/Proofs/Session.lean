import RequestEngine.Proofs.Commands

/-! Sessions with an engine and their resting points: one before the first command, and one after
each command, when nothing more happens by itself. -/
namespace RequestEngine

open Ledger (submitted)

/-- The identifier that a submission brings. -/
def Command.submission? : Command → Option Uuid
  | .submit id .. => some id
  | _ => none

namespace Engine

def answers (e : Engine) : List Command → List Answer
  | [] => []
  | c :: commands => (e.step c).1 :: (e.step c).2.answers commands

theorem answers_append (e : Engine) (commands later : List Command) :
    e.answers (commands ++ later) = e.answers commands ++ (e.after commands).answers later := by
  induction commands generalizing e with
  | nil => rfl
  | cons c commands ih => exact congrArg _ (ih _)

theorem after_append (e : Engine) (commands later : List Command) :
    e.after (commands ++ later) = (e.after commands).after later := List.foldl_append

theorem submission?_of_accepted? {e : Engine} {c : Command} {id : Uuid}
    (h : (e.step c).1.accepted? = some id) : c.submission? = some id := by
  cases c with
  | submit id' agent function parameters timeout =>
    simp only [step, perform, submit] at h
    split at h
    · exact h
    · cases h
  | loadFile path content =>
    simp only [step, perform] at h
    split at h <;> cases h
  | receive name =>
    simp only [step, perform] at h
    split at h <;> cases h
  | _ => cases h

theorem accepted_sublist (commands : List Command) : ∀ e : Engine,
    ((e.answers commands).filterMap (·.accepted?)).Sublist
      (commands.filterMap (·.submission?)) := by
  induction commands with
  | nil => exact fun e => List.Sublist.refl _
  | cons c commands ih =>
    intro e
    have hrest := ih (e.step c).2
    cases ha : (e.step c).1.accepted? with
    | none =>
      rw [answers, List.filterMap_cons_none ha]
      cases hc : c.submission? with
      | none => rwa [List.filterMap_cons_none hc]
      | some id => rw [List.filterMap_cons_some hc]; exact hrest.cons id
    | some id =>
      rw [answers, List.filterMap_cons_some ha,
        List.filterMap_cons_some (submission?_of_accepted? ha)]
      exact hrest.cons_cons id

theorem records_new (registry : Registry) (config : EngineConfig) (startMs : Nat) :
    (new registry config startMs).ledger.records = [] := rfl

theorem waiting_new (registry : Registry) (config : EngineConfig) (startMs : Nat) :
    (new registry config startMs).ledger.waiting = [] := rfl

theorem initial_sound (registry : Registry) (config : EngineConfig) (startMs : Nat) :
    (new registry config startMs).Sound [] where
  store := Store.sound_empty
  ledger := {
    fresh := .nil
    distinct := .nil
    known := by simp [records_new]
    proper := by simp [records_new]
    waiting := by simp [records_new, waiting_new]
    line := ⟨[], [], rfl, by simp [Ledger.started], List.Sublist.refl _⟩ }
  calls := Calls.nil (by simp [new, Store.empty])

end Engine

/-- A session with an engine: one command after the other, each given at rest and carried out before
a worker or anyone else acts. Each submission brings an identifier of its own. -/
structure Session where
  registry : Registry
  config : EngineConfig
  startMs : Nat
  commands : List Command
  fresh : (commands.filterMap (·.submission?)).Nodup

namespace Session

def initial (s : Session) : Engine := .new s.registry s.config s.startMs

/-- The engine at rest after a number of commands. -/
def engine (s : Session) (n : Nat) : Engine := s.initial.after (s.commands.take n)

def answers (s : Session) (n : Nat) : List Answer := s.initial.answers (s.commands.take n)

/-- The requests accepted until then, in this order. -/
def accepted (s : Session) (n : Nat) : List Uuid := (s.answers n).filterMap (·.accepted?)

def refused (s : Session) (n : Nat) : Nat := (s.answers n).countP (·.isRefusal)

def record? (s : Session) (n : Nat) (id : Uuid) : Option RequestRecord := (s.engine n).status? id

variable {s : Session} {n : Nat} {log new : List RequestEvent} {answer : Answer} {middle : Engine}

theorem accepted_nodup (s : Session) (n : Nat) : (s.accepted n).Nodup :=
  ((Engine.accepted_sublist _ _).trans ((List.take_sublist n s.commands).filterMap _)).nodup s.fresh

/-- One more command is carried out. After the last of them nothing changes any more. -/
theorem engine_succ (s : Session) (n : Nat) :
    (s.commands[n]? = none ∧ s.engine (n + 1) = s.engine n ∧ s.answers (n + 1) = s.answers n) ∨
    ∃ c, s.commands[n]? = some c ∧ s.engine (n + 1) = ((s.engine n).step c).2 ∧
      s.answers (n + 1) = s.answers n ++ [((s.engine n).step c).1] := by
  simp only [engine, answers, List.take_add_one, Engine.after_append, Engine.answers_append]
  cases s.commands[n]? with
  | none => exact .inl ⟨rfl, rfl, by simp [Engine.answers]⟩
  | some c => exact .inr ⟨c, rfl, rfl, rfl⟩

theorem engine_step {c : Command} (h : s.commands[n]? = some c) :
    s.engine (n + 1) = ((s.engine n).step c).2 := by
  obtain ⟨hnone, -⟩ | ⟨c', hc', he, -⟩ := s.engine_succ n
  · rw [h] at hnone
    cases hnone
  · rw [h] at hc'
    rw [he, Option.some.inj hc']

theorem answers_add (s : Session) (n k : Nat) : s.answers n <+: s.answers (n + k) := by
  rw [answers, answers, List.take_add, Engine.answers_append]
  exact List.prefix_append _ _

theorem accepted_add (s : Session) (n k : Nat) : s.accepted n <+: s.accepted (n + k) :=
  (s.answers_add n k).filterMap _

theorem accepted_succ (h : s.answers (n + 1) = s.answers n ++ [answer]) :
    s.accepted (n + 1) = s.accepted n ++ answer.accepted?.toList := by
  rw [accepted, h, List.filterMap_append]
  cases ha : answer.accepted? <;> simp [ha, accepted]

/-- What is accepted has not been submitted before. -/
theorem fresh_of_accepted (h : s.accepted (n + 1) = s.accepted n ++ answer.accepted?.toList)
    (hlog : submitted log = s.accepted n) (id : Uuid) (ha : answer.accepted? = some id) :
    id ∉ submitted log := by
  have hn := s.accepted_nodup (n + 1)
  rw [h, ha, List.nodup_append] at hn
  intro hid
  exact hn.2.2 id (hlog ▸ hid) id (by simp) rfl

theorem atRest (s : Session) (n : Nat) : (s.engine n).AtRest := by
  induction n with
  | zero => rfl
  | succ n ih =>
    obtain ⟨-, h, -⟩ | ⟨c, -, h, -⟩ := s.engine_succ n
    · rw [h]
      exact ih
    · rw [h]
      exact Engine.settle_atRest _

/-- What comes of one more command. -/
structure Next (s : Session) (n : Nat) (log new : List RequestEvent) (answer : Answer)
    (middle : Engine) : Prop where
  carries : Engine.Carries log new answer (s.engine n) middle (s.engine (n + 1))
  accepted : s.accepted (n + 1) = s.accepted n ++ answer.accepted?.toList
  refused : s.refused (n + 1) = s.refused n + answer.isRefusal.toNat
  attended : middle.events = s.commands[n]?.elim (s.engine n).events (·.attend (s.engine n).events)

/-- All that happens to the requests until a resting point. -/
inductive History (s : Session) : Nat → List RequestEvent → Prop
  | start : History s 0 []
  | step {n : Nat} {log new : List RequestEvent} {answer : Answer} {middle : Engine}
      (before : History s n log) (next : s.Next n log new answer middle) :
      History s (n + 1) (log ++ new)

theorem Next.fresh (h : s.Next n log new answer middle) (hlog : submitted log = s.accepted n) :
    ∀ id, answer.accepted? = some id → id ∉ submitted log :=
  fresh_of_accepted h.accepted hlog

theorem Next.nodup (h : s.Next n log new answer middle) (hlog : submitted log = s.accepted n) :
    (submitted (log ++ new)).Nodup :=
  (h.carries.after (h.fresh hlog)).ledger.fresh

theorem Next.submitted (h : s.Next n log new answer middle) (hlog : submitted log = s.accepted n) :
    Ledger.submitted (log ++ new) = s.accepted (n + 1) := by
  rw [Ledger.submitted_append, hlog, h.carries.accepted, h.accepted]

theorem History.sound (h : s.History n log) :
    (s.engine n).Sound log ∧ submitted log = s.accepted n := by
  induction h with
  | start => exact ⟨Engine.initial_sound .., rfl⟩
  | step _ next ih => exact ⟨next.carries.after (next.fresh ih.2), next.submitted ih.2⟩

theorem History.next (h : s.History n log) :
    ∃ new answer middle, s.Next n log new answer middle := by
  obtain ⟨hsound, hlog⟩ := h.sound
  obtain ⟨hc, he, ha⟩ | ⟨c, hc, he, ha⟩ := s.engine_succ n
  · refine ⟨[], .nothing, s.engine (n + 1), ?_, ?_, ?_, ?_⟩
    · rw [he]
      exact hsound.carries rfl rfl rfl (.refl _) rfl
    · simp [accepted, ha, Answer.accepted?]
    · simp [refused, ha, Answer.isRefusal]
    · rw [hc, he]
      rfl
  · have haccepted := accepted_succ ha
    have hfresh := fresh_of_accepted haccepted hlog
    obtain ⟨middle, new, hcarries, hattend⟩ := hsound.step c hfresh
    refine ⟨new, _, middle, by rw [he]; exact hcarries, haccepted, ?_, by rw [hc]; exact hattend⟩
    rw [refused, ha, List.countP_append]
    cases h : ((s.engine n).step c).1.isRefusal <;> simp [h, refused]

theorem history (s : Session) (n : Nat) : ∃ log, s.History n log := by
  induction n with
  | zero => exact ⟨[], .start⟩
  | succ n ih =>
    obtain ⟨log, h⟩ := ih
    obtain ⟨new, answer, middle, next⟩ := h.next
    exact ⟨log ++ new, h.step next⟩

theorem sound (s : Session) (n : Nat) : (s.engine n).store.Sound := by
  obtain ⟨log, h⟩ := s.history n
  exact h.sound.1.store

theorem record?_eq_some {id : Uuid} {r : RequestRecord} :
    s.record? n id = some r ↔ r ∈ (s.engine n).store.records ∧ r.id = id :=
  Store.get?_eq_some (s.sound n)

/-- What holds at first, and is kept by each command, holds at every resting point. -/
theorem engine_induction {P : Engine → Prop} (s : Session) (h₀ : P s.initial)
    (step : ∀ {e log} c, e.Sound log →
      (∀ id, (e.step c).1.accepted? = some id → id ∉ submitted log) → P e → P (e.step c).2)
    (n : Nat) : P (s.engine n) := by
  induction n with
  | zero => exact h₀
  | succ n ih =>
    obtain ⟨log, h⟩ := s.history n
    obtain ⟨hsound, hlog⟩ := h.sound
    obtain ⟨-, he, -⟩ | ⟨c, -, he, ha⟩ := s.engine_succ n
    · rw [he]
      exact ih
    · rw [he]
      exact step c hsound (fresh_of_accepted (accepted_succ ha) hlog) ih

/-- What holds at first, and is kept by each correction and by each entry, holds at every resting
point. -/
theorem History.invariant {P : List RequestEvent → Ledger → Prop} (h : s.History n log)
    (h₀ : P [] s.initial.ledger)
    (adjusted : ∀ {log refusals b b'}, b.Sound log → Ledger.Adjusted refusals b b' → P log b →
      P log b')
    (entered : ∀ {log event b b'}, b.Sound log → b.Step event b' → b'.Sound (log ++ [event]) →
      P log b → P (log ++ [event]) b') : P log (s.engine n).ledger := by
  induction h with
  | start => exact h₀
  | @step n log new answer middle before next ih =>
    obtain ⟨hsound, hlog⟩ := before.sound
    refine next.carries.proceeds.tells.invariant (P := fun done b => P (log ++ done) b)
      next.carries.sound.ledger (next.nodup hlog) ?_ ?_
    · rw [List.append_nil]
      exact adjusted hsound.ledger next.carries.adjusted ih
    · intro c c' done event hc hstep hc' hP
      rw [← List.append_assoc] at hc' ⊢
      exact entered hc hstep hc' hP

end Session

end RequestEngine
