import RequestEngine.CommandLine.Program
import RequestEngine.Proofs.Naming
import RequestEngine.Proofs.Undisturbed

/-! Program runs up to the engine that they start. It knows the standard agents and the function
table from the file, if one is given. -/
namespace RequestEngine

open Ledger (submitted)

namespace Registry.Knows

variable {l : List (Uuid × Agent)} {r : Registry} {id : Uuid} {text : String}

theorem isSome_get?_of_name (h : Knows l r) (hparse : Uuid.parse? text = none) :
    (r.get? text).isSome ↔ text ∈ l.map (·.2.name) := by
  constructor
  · intro hsome
    simp only [Registry.get?, hparse, h.names] at hsome
    cases hlast : latest? l text with
    | none => simp [hlast] at hsome
    | some p => exact name_of_latest? hlast ▸ List.mem_map_of_mem (mem_of_latest? hlast)
  · intro hmem
    obtain ⟨p, hp, hname⟩ := List.mem_map.1 hmem
    have hlast : (latest? l text).isSome :=
      List.find?_isSome.2 ⟨p, List.mem_reverse.2 hp, decide_eq_true hname⟩
    obtain ⟨⟨id, a⟩, hlast⟩ := Option.isSome_iff_exists.1 hlast
    rw [h.get?_of_name hparse hlast, Option.isSome_some]

theorem mem_of_isSome_get? (h : Knows l r) (hparse : Uuid.parse? text = some id)
    (hsome : (r.get? text).isSome) : id ∈ l.map (·.1) := by
  obtain ⟨a, ha⟩ := Option.isSome_iff_exists.1 hsome
  simp only [Registry.get?, hparse] at ha
  have hlast := (h.agents id a).1 ha
  exact List.mem_map.2 ⟨(id, a), mem_of_latest? hlast, rfl⟩

end Registry.Knows

namespace CommandLine

variable {s : Surroundings} {o : EngineOptions} {table : FunctionTable} {e : Engine}

def tableFor (s : Surroundings) (o : EngineOptions) : Except ConfigError FunctionTable :=
  match o.functions with
  | none => .ok .empty
  | some path => FunctionTable.ofFile path (s.read path)

/-- The engine for a run, with its function table and at work. -/
def launched (s : Surroundings) (o : EngineOptions) (table : FunctionTable) : Engine :=
  ((engineFor s o).load table).start

theorem startEngine_eq_ok (h : tableFor s o = .ok table) :
    startEngine s o = .ok (launched s o table) := by
  unfold tableFor at h
  unfold startEngine
  cases ho : o.functions with
  | none =>
    rw [ho] at h
    cases h
    rfl
  | some path =>
    rw [ho] at h
    have hfile : FunctionTable.ofFile path (s.read path) = .ok table := h
    simp only [hfile]
    rfl

theorem undisturbed_launched (s : Surroundings) (o : EngineOptions) (table : FunctionTable) :
    (launched s o table).Undisturbed [] :=
  Engine.undisturbed_start ..

def agentIds (s : Surroundings) : List Uuid := [s.ids 0, s.ids 1, s.ids 2]

def agentNames : List String := builtinAgents.map (·.name)

theorem knows_builtin (hids : (agentIds s).Nodup) :
    (builtinRegistry s.ids).Knows ((agentIds s).zip builtinAgents) := Registry.knows_enrol hids

/-- A text leads to a standard agent as its name, as long as it spells none of their
identifiers. -/
theorem isSome_resolve?_builtin (hids : (agentIds s).Nodup) {text : String}
    (htext : ∀ id ∈ agentIds s, Uuid.parse? text ≠ some id) :
    ((builtinRegistry s.ids).resolve? text).isSome ↔ text ∈ agentNames := by
  have hknows := knows_builtin hids
  rw [Registry.resolve?_of_forgotten hknows.remembers]
  cases hparse : Uuid.parse? text with
  | none =>
    rw [hknows.isSome_get?_of_name hparse]
    simp [agentIds, agentNames, builtinAgents]
  | some id =>
    have hunknown : id ∉ ((agentIds s).zip builtinAgents).map (·.1) :=
      fun hmem => htext id hmem hparse
    have hplain : ∀ name ∈ agentNames, Uuid.parse? name = none := by decide +kernel
    constructor
    · intro hsome
      exact absurd (hknows.mem_of_isSome_get? hparse hsome) hunknown
    · intro hmem
      rw [hplain text hmem] at hparse
      cases hparse

end CommandLine

end RequestEngine
