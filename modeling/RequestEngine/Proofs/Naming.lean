import Mathlib.Data.List.Induction
import RequestEngine.Proofs.Submission

/-! Sequences of registrations, each under an identifier of its own. A registry knows the last agent
of each name and no other. A text that spells an identifier is never read as a name, so a listed
name leads to its agent if it spells none, and to another's agent if it spells that one's. -/
namespace RequestEngine

namespace Registry

variable {l : List (Uuid × Agent)} {r : Registry} {id other : Uuid} {a b : Agent} {name : String}

/-- The new agent is found, the one it replaces is not, and all others are as before. -/
theorem lookup_register (r : Registry) (id other : Uuid) (a : Agent) :
    (r.register id a).agents.lookup other =
      if other = id then some a
      else if r.names.get? a.name = some other then none
      else r.agents.lookup other := by
  by_cases hid : other = id
  · simp [register, hid]
  · have hother : (other == id) = false := beq_eq_false_iff_ne.2 hid
    rw [register, List.lookup_cons, hother, if_neg hid, without]
    dsimp only
    rw [lookup_filter_ne hid]
    cases hprevious : r.names.get? a.name with
    | none => simp
    | some previous =>
      by_cases h : other = previous
      · rw [if_pos (congrArg some h.symm), h]
        exact lookup_filter_self previous r.agents
      · rw [if_neg fun hsome => h (Option.some.inj hsome).symm]
        exact lookup_filter_ne h r.agents

theorem mem_list : name ∈ r.list ↔ (r.names.get? name).isSome := by
  rw [Dictionary.get?, Entries.isSome_find?_iff]
  simp [list, Dictionary.keys]

/-- The last registration under a name. -/
def latest? (l : List (Uuid × Agent)) (name : String) : Option (Uuid × Agent) :=
  l.reverse.find? (·.2.name = name)

theorem latest?_concat (l : List (Uuid × Agent)) (p : Uuid × Agent) (name : String) :
    latest? (l ++ [p]) name = if p.2.name = name then some p else latest? l name := by
  by_cases h : p.2.name = name <;> simp [latest?, h]

theorem name_of_latest? {p : Uuid × Agent} (h : latest? l name = some p) : p.2.name = name := by
  simpa using List.find?_some h

theorem mem_of_latest? {p : Uuid × Agent} (h : latest? l name = some p) : p ∈ l :=
  List.mem_reverse.1 (List.mem_of_find?_eq_some h)

/-- A registry knows the last registration under each name, and no other agent. -/
structure Knows (l : List (Uuid × Agent)) (r : Registry) : Prop where
  names : ∀ name, r.names.get? name = (latest? l name).map (·.1)
  agents : ∀ id a, r.agents.lookup id = some a ↔ latest? l a.name = some (id, a)
  remembers : r.forgotten = []

theorem knows_empty : Knows [] empty where
  names _ := rfl
  agents _ _ := by simp [empty, latest?]
  remembers := rfl

theorem Knows.latest?_of_names (h : Knows l r) (hid : r.names.get? name = some id) :
    ∃ a, latest? l name = some (id, a) := by
  rw [h.names, Option.map_eq_some_iff] at hid
  obtain ⟨⟨i, a⟩, ha, rfl⟩ := hid
  exact ⟨a, ha⟩

/-- Identifiers are not used twice, so the one under a name is of no agent of another name. -/
theorem Knows.name_eq (h : Knows l r) (hl : (l.map (·.1)).Nodup)
    (hid : r.names.get? name = some id) (hb : latest? l b.name = some (id, b)) : b.name = name := by
  obtain ⟨c, hc⟩ := h.latest?_of_names hid
  have hsame := List.inj_on_of_nodup_map hl (mem_of_latest? hb) (mem_of_latest? hc) rfl
  cases hsame
  exact name_of_latest? hc

theorem Knows.register (h : Knows l r) (hl : (l.map (·.1)).Nodup) (hid : id ∉ l.map (·.1)) :
    Knows (l ++ [(id, a)]) (r.register id a) where
  names name := by
    rw [latest?_concat]
    by_cases hname : a.name = name
    · simp [Registry.register, hname]
    · simp [Registry.register, hname, Ne.symm hname, h.names]
  agents other b := by
    rw [lookup_register, latest?_concat]
    by_cases hother : other = id
    · subst hother
      have hold : latest? l b.name ≠ some (other, b) :=
        fun hb => hid (List.mem_map_of_mem (mem_of_latest? hb))
      rw [if_pos rfl]
      by_cases hname : a.name = b.name
      · simp [hname]
      · have hne : a ≠ b := fun hab => hname (congrArg Agent.name hab)
        simp [hname, hold, hne]
    · have hne : id ≠ other := Ne.symm hother
      rw [if_neg hother]
      by_cases hname : a.name = b.name
      · have hreplaced : latest? l b.name = some (other, b) → r.names.get? a.name = some other := by
          intro hb
          rw [h.names, hname, hb, Option.map_some]
        simp only [if_pos hname, Option.some.injEq, Prod.mk.injEq, hne, false_and, iff_false]
        split
        · simp
        · rename_i hkept
          exact fun hb => hkept (hreplaced ((h.agents other b).1 hb))
      · have hkept : latest? l b.name = some (other, b) → r.names.get? a.name ≠ some other :=
          fun hb hold => hname (h.name_eq hl hold hb).symm
        rw [if_neg hname]
        split
        · rename_i hold
          exact iff_of_false nofun fun hb => hkept hb hold
        · exact h.agents other b
  remembers := h.remembers

def enrol (l : List (Uuid × Agent)) : Registry :=
  l.foldl (fun r p => r.register p.1 p.2) empty

theorem knows_enrol (h : (l.map (·.1)).Nodup) : Knows l (enrol l) := by
  induction l using List.reverseRecOn with
  | nil => exact knows_empty
  | append_singleton l p ih =>
    rw [List.map_append, List.nodup_append] at h
    obtain ⟨hl, -, hp⟩ := h
    have hid : p.1 ∉ l.map (·.1) := fun hmem => hp _ hmem p.1 (by simp) rfl
    rw [enrol, List.foldl_append]
    exact (ih hl).register hl hid

theorem resolve?_of_forgotten (h : r.forgotten = []) (text : String) :
    r.resolve? text = r.get? text := by simp [resolve?, h]

theorem Knows.get?_of_name (h : Knows l r) (hparse : Uuid.parse? name = none)
    (hlast : latest? l name = some (id, a)) : r.get? name = some a := by
  have hid : r.names.get? name = some id := by rw [h.names, hlast, Option.map_some]
  have ha : r.agent? id = some a := (h.agents id a).2 (name_of_latest? hlast ▸ hlast)
  simp [get?, hparse, hid, ha]

theorem Knows.get?_of_id (h : Knows l r) (hparse : Uuid.parse? name = some id)
    (hlast : latest? l a.name = some (id, a)) : r.get? name = some a := by
  have ha : r.agent? id = some a := (h.agents id a).2 hlast
  simp [get?, hparse, ha]

end Registry

theorem Engine.submit_ne_unknownAgent {e : Engine} {agent : String}
    (h : (e.registry.resolve? agent).isSome) (id : Uuid) (function : String) (parameters : Json)
    (timeout : Option UInt64) (name : String) :
    (e.submit id agent function parameters timeout).1 ≠ .error (.unknownAgent name) := by
  rw [submit_fst, if_pos h]
  split
  · simp
  · split <;> simp

/-- A sequence of registrations, each under an identifier of its own. -/
structure Enrolment where
  registrations : List (Uuid × Agent)
  fresh : (registrations.map (·.1)).Nodup

namespace Enrolment

def registry (e : Enrolment) : Registry := .enrol e.registrations

def latest? (e : Enrolment) (name : String) : Option (Uuid × Agent) :=
  Registry.latest? e.registrations name

/-- A text leads to an agent, and no submission for it is refused as one for an unknown agent. -/
structure LeadsTo (e : Enrolment) (text : String) (a : Agent) : Prop where
  get : e.registry.get? text = some a
  resolve : e.registry.resolve? text = some a
  submit : ∀ engine : Engine, engine.registry = e.registry →
    ∀ id function parameters timeout name,
      (engine.submit id text function parameters timeout).1 ≠ .error (.unknownAgent name)

theorem leadsTo_of_get? {e : Enrolment} {text : String} {a : Agent}
    (h : e.registry.get? text = some a) : e.LeadsTo text a := by
  have hknows : Registry.Knows e.registrations e.registry := Registry.knows_enrol e.fresh
  have hresolve : e.registry.resolve? text = some a := by
    rw [Registry.resolve?_of_forgotten hknows.remembers, h]
  refine ⟨h, hresolve, ?_⟩
  intro engine hregistry id function parameters timeout name
  have hsome : (engine.registry.resolve? text).isSome := by
    rw [hregistry, hresolve, Option.isSome_some]
  exact Engine.submit_ne_unknownAgent hsome id function parameters timeout name

/-- What a listed name leads to. An identifier counts before a name. -/
structure Reached (e : Enrolment) (name : String) : Prop where
  registered : (e.latest? name).isSome
  named : Uuid.parse? name = none → ∀ id a, e.latest? name = some (id, a) → e.LeadsTo name a
  identified : ∀ id a, Uuid.parse? name = some id → e.latest? a.name = some (id, a) →
    e.LeadsTo name a

theorem listed_leads_to_latest (e : Enrolment) (name : String) (h : name ∈ e.registry.list) :
    e.Reached name := by
  have hknows : Registry.Knows e.registrations e.registry := Registry.knows_enrol e.fresh
  constructor
  · rw [Registry.mem_list, hknows.names, Option.isSome_map] at h
    exact h
  · intro hparse id a hlast
    exact leadsTo_of_get? (hknows.get?_of_name hparse hlast)
  · intro id a hparse hlast
    exact leadsTo_of_get? (hknows.get?_of_id hparse hlast)

def told (name description : String) : Agent :=
  { Agent.plain name fun _ _ => .value .null with description }

/-- An agent that is replaced, and one whose name is another's identifier. -/
def crossed : Enrolment where
  registrations := [(.ofNat 1, told "a" "first"), (.ofNat 2, told "b" "second"),
    (.ofNat 3, told "a" "third"), (.ofNat 4, told (Uuid.ofNat 2).text "fourth")]
  fresh := by decide

/-- The last agent of a plain name, and the agent whose identifier a name spells. -/
theorem listed_leads_to_latest_crossed :
    ("a" ∈ crossed.registry.list ∧ crossed.LeadsTo "a" (told "a" "third")) ∧
      (Uuid.ofNat 2).text ∈ crossed.registry.list ∧
        crossed.LeadsTo (Uuid.ofNat 2).text (told "b" "second") := by
  have hname : "a" ∈ crossed.registry.list := by decide +kernel
  have htext : (Uuid.ofNat 2).text ∈ crossed.registry.list := by decide +kernel
  refine ⟨⟨hname, ?_⟩, htext, ?_⟩
  · exact (listed_leads_to_latest crossed "a" hname).named (by decide +kernel) (.ofNat 3) _ rfl
  · exact (listed_leads_to_latest crossed _ htext).identified (.ofNat 2) _ (by decide +kernel) rfl

/-- One agent, whose name spells an identifier that no agent has. -/
def lone : Enrolment where
  registrations := [(.ofNat 1, told "a0eebc99-9c0b-4ef8-bb6d-6bb9bd380a11" "named like an id")]
  fresh := by decide

/-- A listed name that spells an identifier does not lead to the last agent registered under it,
neither where another agent has the identifier nor where none has. -/
theorem listed_strays_of_identifier :
    ((Uuid.ofNat 2).text ∈ crossed.registry.list ∧
      (crossed.latest? (Uuid.ofNat 2).text).map (·.2.description) = some "fourth" ∧
      (crossed.registry.get? (Uuid.ofNat 2).text).map (·.description) = some "second" ∧
      (crossed.registry.resolve? (Uuid.ofNat 2).text).map (·.description) = some "second") ∧
    "a0eebc99-9c0b-4ef8-bb6d-6bb9bd380a11" ∈ lone.registry.list ∧
      (lone.latest? "a0eebc99-9c0b-4ef8-bb6d-6bb9bd380a11").map (·.2.description) =
        some "named like an id" ∧
      (lone.registry.get? "a0eebc99-9c0b-4ef8-bb6d-6bb9bd380a11").map (·.description) = none ∧
      (lone.registry.resolve? "a0eebc99-9c0b-4ef8-bb6d-6bb9bd380a11").map (·.description) =
        none := by
  decide +kernel

end Enrolment

end RequestEngine
