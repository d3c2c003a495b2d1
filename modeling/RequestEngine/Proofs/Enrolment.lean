import Mathlib.Data.List.Dedup
import Mathlib.Data.List.Nodup
import RequestEngine.Proofs.Entries
import RequestEngine.Proofs.Naming
import RequestEngine.Proofs.Spelling

/-! The two tables of a registry after any registrations. Names and agents belong to each other one
to one, listings follow the names, and an identifier leads to its agent in every spelling until the
name is taken by another. -/
namespace RequestEngine

namespace Registry

variable {l after : List (Uuid × Agent)} {r : Registry} {id : Uuid} {a : Agent} {name : String}

theorem nodup_without (h : (l.map (·.1)).Nodup) (id : Uuid) :
    ((without id l).map (·.1)).Nodup ∧ id ∉ (without id l).map (·.1) := by
  refine ⟨(List.filter_sublist.map _).nodup h, fun hmem => ?_⟩
  obtain ⟨p, hp, rfl⟩ := List.mem_map.1 hmem
  simpa using (List.mem_filter.1 hp).2

theorem nodup_register (h : (r.agents.map (·.1)).Nodup) (id : Uuid) (a : Agent) :
    ((r.register id a).agents.map (·.1)).Nodup := by
  rw [register, List.map_cons, List.nodup_cons, and_comm]
  cases r.names.get? a.name with
  | none => exact nodup_without h id
  | some previous => exact nodup_without (nodup_without h previous).1 id

theorem nodup_enrol (l : List (Uuid × Agent)) : ((enrol l).agents.map (·.1)).Nodup := by
  induction l using List.reverseRecOn with
  | nil => exact List.nodup_nil
  | append_singleton l p ih =>
    rw [enrol, List.foldl_append]
    exact nodup_register ih p.1 p.2

theorem latest?_append (l after : List (Uuid × Agent)) (name : String) :
    latest? (l ++ after) name = (latest? after name).or (latest? l name) := by
  rw [latest?, List.reverse_append, List.find?_append]
  rfl

theorem latest?_eq_none : latest? l name = none ↔ ∀ p ∈ l, p.2.name ≠ name := by
  simp [latest?]

theorem isSome_latest? : (latest? l name).isSome ↔ name ∈ l.map (·.2.name) := by
  simp [latest?, List.find?_isSome]

namespace Knows

variable (h : Knows l r)
include h

theorem mem_agents (hr : (r.agents.map (·.1)).Nodup) :
    (id, a) ∈ r.agents ↔ latest? l a.name = some (id, a) := by
  rw [← lookup_eq_some_iff_mem hr, h.agents]

theorem agent_of_name (hid : r.names.get? name = some id) :
    ∃ a, r.agent? id = some a ∧ a.name = name := by
  obtain ⟨a, ha⟩ := h.latest?_of_names hid
  have hname : a.name = name := name_of_latest? ha
  exact ⟨a, (h.agents id a).2 (by rwa [hname]), hname⟩

theorem names_iff (ha : r.agent? id = some a) : r.names.get? name = some id ↔ name = a.name := by
  have hlast := (h.agents id a).1 ha
  constructor
  · intro hid
    obtain ⟨b, hb, hname⟩ := h.agent_of_name hid
    rw [ha] at hb
    cases hb
    exact hname.symm
  · rintro rfl
    rw [h.names, hlast, Option.map_some]

theorem mem_list_iff : name ∈ r.list ↔ name ∈ l.map (·.2.name) := by
  rw [mem_list, h.names, Option.isSome_map, isSome_latest?]

/-- Each name has one agent, so there are as many agents as names. -/
theorem size_eq (hr : (r.agents.map (·.1)).Nodup) : r.size = (l.map (·.2.name)).dedup.length := by
  have hnodup : (r.agents.map (·.2.name)).Nodup := by
    rw [List.nodup_map_iff_inj_on hr.of_map]
    rintro ⟨i, a⟩ ha ⟨j, b⟩ hb hname
    have hi := (h.mem_agents hr).1 ha
    have hj := (h.mem_agents hr).1 hb
    rw [show a.name = b.name from hname, hj] at hi
    exact (Option.some.inj hi).symm
  have hmem : ∀ name, name ∈ r.agents.map (·.2.name) ↔ name ∈ (l.map (·.2.name)).dedup := by
    intro name
    rw [List.mem_dedup, ← isSome_latest? (l := l), Option.isSome_iff_exists, List.mem_map]
    constructor
    · rintro ⟨⟨i, a⟩, ha, rfl⟩
      exact ⟨(i, a), (h.mem_agents hr).1 ha⟩
    · rintro ⟨⟨i, a⟩, ha⟩
      have hname : a.name = name := name_of_latest? ha
      exact ⟨(i, a), (h.mem_agents hr).2 (by rwa [hname]), hname⟩
  have hperm := (List.perm_ext_iff_of_nodup hnodup (List.nodup_dedup _)).2 hmem
  rw [← hperm.length_eq, List.length_map, size]

theorem describe_eq : r.describe = r.names.entries.filterMap fun (name, id) =>
    (latest? l name).map fun (_, a) => ⟨id, name, a.description, a.functions, a.running⟩ := by
  refine List.filterMap_congr ?_
  rintro ⟨name, id⟩ hmem
  obtain ⟨a, hlast⟩ := h.latest?_of_names (Dictionary.get?_eq_some_iff.2 hmem)
  have ha : r.agent? id = some a := (h.agents id a).2 (name_of_latest? hlast ▸ hlast)
  simp [ha, hlast]

end Knows

/-- A registration is the last of its name unless another of that name follows. -/
theorem latest?_of_registered {before : List (Uuid × Agent)}
    (hl : ((before ++ (id, a) :: after).map (·.1)).Nodup) {b : Agent} :
    latest? (before ++ (id, a) :: after) b.name = some (id, b) ↔
      b = a ∧ ∀ p ∈ after, p.2.name ≠ a.name := by
  rw [show before ++ (id, a) :: after = (before ++ [(id, a)]) ++ after by simp, latest?_append,
    latest?_concat]
  constructor
  · intro hlast
    have hmem : (id, b) ∈ before ++ (id, a) :: after := by
      have hlast' := hlast
      rw [← latest?_concat, ← latest?_append] at hlast'
      simpa using mem_of_latest? hlast'
    have hsame : (id, b) = (id, a) := List.inj_on_of_nodup_map hl hmem (by simp) rfl
    cases hsame
    refine ⟨rfl, latest?_eq_none.1 ?_⟩
    cases hafter : latest? after a.name with
    | none => rfl
    | some p =>
      rw [hafter, Option.some_or, Option.some.injEq] at hlast
      have hin : id ∈ after.map (·.1) := List.mem_map.2 ⟨p, mem_of_latest? hafter, by rw [hlast]⟩
      rw [List.map_append, List.nodup_append, List.map_cons, List.nodup_cons] at hl
      exact absurd hin hl.2.1.1
  · rintro ⟨rfl, hafter⟩
    rw [latest?_eq_none.2 hafter, Option.none_or, if_pos rfl]

end Registry

namespace Enrolment

variable {e : Enrolment}

/-- Where a text leads that spells the identifier of a registration. -/
structure Handles (e : Enrolment) (text : String) (a : Agent) (after : List (Uuid × Agent)) :
    Prop where
  get : e.registry.get? text = some a ↔ ∀ p ∈ after, p.2.name ≠ a.name
  resolve : e.registry.resolve? text = some a ↔ ∀ p ∈ after, p.2.name ≠ a.name
  get_none : e.registry.get? text = none ↔ ∃ p ∈ after, p.2.name = a.name
  resolve_none : e.registry.resolve? text = none ↔ ∃ p ∈ after, p.2.name = a.name

/-- How the tables of a registry and what it tells of itself hang together after registrations. -/
structure Consistent (e : Enrolment) : Prop where
  agent : ∀ name id, e.registry.names.get? name = some id →
    ∃ a, e.registry.agent? id = some a ∧ a.name = name
  name : ∀ id a, e.registry.agent? id = some a →
    ∀ name, e.registry.names.get? name = some id ↔ name = a.name
  once : (e.registry.agents.map (·.1)).Nodup
  size : e.registry.size = (e.registrations.map (·.2.name)).dedup.length
  listed : ∀ name, name ∈ e.registry.list ↔ name ∈ e.registrations.map (·.2.name)
  ordered : e.registry.list.Pairwise fun a b => Text.bytes a < Text.bytes b
  told : e.registry.describe.map (·.name) = e.registry.list
  latest : ∀ info ∈ e.registry.describe, ∃ a, e.latest? info.name = some (info.id, a) ∧
    info.description = a.description ∧ info.functions = a.functions ∧ info.running = a.running
  handles : ∀ before id a after, e.registrations = before ++ (id, a) :: after →
    ∀ s : Uuid.Spelling, e.Handles (String.ofList (id.spell s)) a after

theorem handles_of_registered {before after : List (Uuid × Agent)} {id : Uuid} {a : Agent}
    (h : e.registrations = before ++ (id, a) :: after) (s : Uuid.Spelling) :
    e.Handles (String.ofList (id.spell s)) a after := by
  have hknows : Registry.Knows e.registrations e.registry := Registry.knows_enrol e.fresh
  have hget : e.registry.get? (String.ofList (id.spell s)) = e.registry.agent? id := by
    simp [Registry.get?, Uuid.parse?_spell]
  have hagent : ∀ b, e.registry.agent? id = some b ↔ b = a ∧ ∀ p ∈ after, p.2.name ≠ a.name := by
    intro b
    have hfresh := e.fresh
    rw [Registry.agent?, hknows.agents, h]
    exact Registry.latest?_of_registered (h ▸ hfresh)
  have hsome : e.registry.get? (String.ofList (id.spell s)) = some a ↔
      ∀ p ∈ after, p.2.name ≠ a.name := by
    rw [hget, hagent]
    simp
  have hnone : e.registry.get? (String.ofList (id.spell s)) = none ↔
      ∃ p ∈ after, p.2.name = a.name := by
    rw [hget, Option.eq_none_iff_forall_ne_some]
    simp only [Ne, hagent, not_and, forall_eq]
    push Not
    rfl
  have hresolve := Registry.resolve?_of_forgotten hknows.remembers (String.ofList (id.spell s))
  exact ⟨hsome, hresolve ▸ hsome, hnone, hresolve ▸ hnone⟩

theorem names_and_agents_one_to_one (e : Enrolment) : e.Consistent := by
  have hknows : Registry.Knows e.registrations e.registry := Registry.knows_enrol e.fresh
  have honce : (e.registry.agents.map (·.1)).Nodup := Registry.nodup_enrol e.registrations
  have hlast : ∀ name id, (name, id) ∈ e.registry.names.entries →
      ∃ a, e.latest? name = some (id, a) := fun name id hmem =>
    hknows.latest?_of_names (Dictionary.get?_eq_some_iff.2 hmem)
  refine ⟨fun name id => hknows.agent_of_name, fun id a ha name => hknows.names_iff ha, honce,
    hknows.size_eq honce, fun name => hknows.mem_list_iff, ?_, ?_, ?_, ?_⟩
  · rw [Registry.list, Dictionary.keys, List.pairwise_map]
    exact e.registry.names.sorted.imp fun hlt => Text.bytes_lt_bytes.2 hlt
  · rw [hknows.describe_eq, List.map_filterMap, Registry.list, Dictionary.keys,
      ← List.filterMap_eq_map]
    refine List.filterMap_congr ?_
    rintro ⟨name, id⟩ hmem
    obtain ⟨a, ha⟩ := hlast name id hmem
    rw [latest?] at ha
    simp [ha]
  · intro info hinfo
    rw [hknows.describe_eq, List.mem_filterMap] at hinfo
    obtain ⟨⟨name, id⟩, hmem, hinfo⟩ := hinfo
    obtain ⟨a, ha⟩ := hlast name id hmem
    rw [latest?] at ha
    simp only [ha, Option.map_some, Option.some.injEq] at hinfo
    subst hinfo
    exact ⟨a, ha, rfl, rfl, rfl⟩
  · intro before id a after h s
    exact handles_of_registered h s

end Enrolment

end RequestEngine
