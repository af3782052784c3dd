import BuildScript.Proofs.Coverage
import BuildScript.Proofs.Tables
import Mathlib.Data.List.Induction

/-!
# Visible dependencies

Making inherited dependencies visible only appends to what a configuration sees: one dependency for
each coordinate that it or an ancestor requests and that was not visible before. So a second time
there is nothing left to append.
-/

namespace BuildScript

namespace Configuration

variable {c : Configuration} {d : Dependency} {ds resolved added : List Dependency}

/-- Dependencies to append to those that are visible, which have no coordinate twice and none that
is visible already. -/
structure Fresh (resolved added : List Dependency) : Prop where
  distinct : (added.map Dependency.toCoordinate).Nodup
  unseen : ∀ d ∈ added, ∀ x ∈ resolved, x.toCoordinate ≠ d.toCoordinate

theorem Fresh.append_singleton (h : Fresh resolved added)
    (hd : ∀ x ∈ resolved ++ added, x.toCoordinate ≠ d.toCoordinate) :
    Fresh resolved (added ++ [d]) := by
  rw [List.forall_mem_append] at hd
  obtain ⟨hresolved, hadded⟩ := hd
  constructor
  · have hnew : d.toCoordinate ∉ added.map Dependency.toCoordinate := by
      intro hmem
      obtain ⟨x, hx, heq⟩ := List.mem_map.mp hmem
      exact hadded x hx heq
    rw [List.map_append, List.map_singleton, ← List.concat_eq_append]
    exact h.distinct.concat hnew
  · intro e he
    rcases List.mem_append.mp he with he | he
    · exact h.unseen e he
    · obtain rfl := List.mem_singleton.mp he
      exact hresolved

theorem resolve_of_seen (h : ∃ x ∈ c.resolved, x.toCoordinate = d.toCoordinate) :
    c.resolve d = c := by
  have hseen : (c.resolved? d.toCoordinate).isSome = true := by
    simpa [resolved?, Dependency.isOf] using h
  rw [resolve, if_pos hseen]

theorem resolve_of_unseen (h : ∀ x ∈ c.resolved, x.toCoordinate ≠ d.toCoordinate) :
    c.resolve d = { c with resolved := c.resolved ++ [d] } := by
  have hunseen : ¬ (c.resolved? d.toCoordinate).isSome = true := by
    simpa [resolved?, Dependency.isOf] using h
  rw [resolve, if_neg hunseen]

theorem foldl_resolve_fresh (ds : List Dependency) (c : Configuration) :
    ∃ added, ds.foldl resolve c = { c with resolved := c.resolved ++ added } ∧
      Fresh c.resolved added ∧ added ⊆ ds := by
  induction ds using List.reverseRecOn with
  | nil => exact ⟨[], by simp, ⟨List.nodup_nil, by simp⟩, List.nil_subset _⟩
  | append_singleton ds d ih =>
    obtain ⟨added, hfold, hfresh, hsub⟩ := ih
    rw [List.foldl_append, List.foldl_cons, List.foldl_nil, hfold]
    by_cases hseen : ∃ x ∈ c.resolved ++ added, x.toCoordinate = d.toCoordinate
    · rw [resolve_of_seen hseen]
      exact ⟨added, rfl, hfresh, List.subset_append_of_subset_left _ hsub⟩
    · push Not at hseen
      rw [resolve_of_unseen hseen]
      refine ⟨added ++ [d], by simp, hfresh.append_singleton hseen, ?_⟩
      exact List.append_subset.mpr ⟨List.subset_append_of_subset_left _ hsub,
        List.subset_append_right _ _⟩

theorem foldl_resolve_of_seen (h : ∀ d ∈ ds, ∃ x ∈ c.resolved, x.toCoordinate = d.toCoordinate) :
    ds.foldl resolve c = c := by
  induction ds with
  | nil => rfl
  | cons d ds ih =>
    obtain ⟨hd, hds⟩ := List.forall_mem_cons.mp h
    rw [List.foldl_cons, resolve_of_seen hd]
    exact ih hds

theorem foldl_resolve_foldl_resolve (ds : List Dependency) (c : Configuration) :
    ds.foldl resolve (ds.foldl resolve c) = ds.foldl resolve c := by
  apply foldl_resolve_of_seen
  intro d hd
  exact (exists_resolved_foldl ds c d.toCoordinate).mpr (Or.inr ⟨d, hd, rfl⟩)

end Configuration

namespace DependencyGraph

variable {g g' : DependencyGraph} {name : String}

theorem ancestors_congr (h : g'.parents = g.parents) (name : String) :
    g'.ancestors name = g.ancestors name := by
  apply (Names.ascending_ofList _).ext (Names.ascending_ofList _)
  intro x
  change x ∈ g'.ancestors name ↔ x ∈ g.ancestors name
  rw [mem_ancestors, mem_ancestors, Reaches, Reaches, extends_congr h]

theorem inherited_resolveInherited (g : DependencyGraph) (name : String) :
    g.resolveInherited.inherited name = g.inherited name := by
  rw [inherited, inherited, ancestors_congr (parents_resolveInherited g)]
  congr 1
  funext ancestor
  rw [configuration?_resolveInherited]
  cases g.configuration? ancestor with
  | none => rfl
  | some c => exact Configuration.foldl_resolve_requested _ c

theorem resolveInherited_resolveInherited (g : DependencyGraph) :
    g.resolveInherited.resolveInherited = g.resolveInherited := by
  have hagain : ∀ c ∈ g.resolveInherited.configurations,
      (g.resolveInherited.inherited c.name).foldl Configuration.resolve c = c := by
    intro c hc
    obtain ⟨c, -, rfl⟩ := List.mem_map.mp hc
    rw [inherited_resolveInherited, Configuration.foldl_resolve_name,
      Configuration.foldl_resolve_foldl_resolve]
  apply DependencyGraph.ext
  exact (List.map_congr_left hagain).trans (List.map_id' _)

theorem contains_of_requests {k : Coordinate} (h : g.Requests name k) : g.contains name = true := by
  obtain ⟨c, hc, -⟩ := h
  rw [contains, hc, Option.isSome_some]

/-- Afterwards a configuration sees what it saw before and what is requested by anything that it is
or inherits from. It is the same up to dependencies at the end of those that it sees, which are
requested there, and doing it again changes nothing. The graph need not be valid. -/
theorem resolveInherited_exact (g : DependencyGraph) :
    (∀ name k, g.resolveInherited.Sees name k ↔
      g.Sees name k ∨ ∃ ancestor, g.Reaches name ancestor ∧ g.Requests ancestor k) ∧
    (∀ name c, g.configuration? name = some c → ∃ added,
      g.resolveInherited.configuration? name = some { c with resolved := c.resolved ++ added } ∧
      Configuration.Fresh c.resolved added ∧
      ∀ d ∈ added, ∃ ancestor, g.Reaches name ancestor ∧ ∃ a, g.configuration? ancestor = some a ∧
        d ∈ a.requested) ∧
    g.resolveInherited.names = g.names ∧
    g.resolveInherited.resolveInherited = g.resolveInherited := by
  refine ⟨?_, ?_, names_resolveInherited g, resolveInherited_resolveInherited g⟩
  · intro name k
    rw [sees_resolveInherited]
    refine or_congr_right ⟨And.right, ?_⟩
    rintro ⟨ancestor, hreach, hrequests⟩
    refine ⟨?_, ancestor, hreach, hrequests⟩
    rcases contains_of_reaches hreach with rfl | hcontains
    · exact contains_of_requests hrequests
    · exact hcontains
  · intro name c hc
    obtain ⟨added, hfold, hfresh, hsub⟩ := Configuration.foldl_resolve_fresh (g.inherited c.name) c
    obtain rfl := (mem_of_configuration? hc).2
    refine ⟨added, ?_, hfresh, fun d hd => mem_inherited.mp (hsub hd)⟩
    rw [configuration?_resolveInherited, hc, Option.map_some, hfold]

-- The dependency that comes first by the names of the ancestors wins, here over the configuration's
-- own.
example : ((ofList [{ name := "a", requested := [⟨⟨"g", "x"⟩, some "1"⟩] },
    { name := "b", extendsFrom := ["a"], requested := [⟨⟨"g", "x"⟩,
      some "2"⟩] }]).resolveInherited.configuration? "b").map Configuration.resolved =
      some [⟨⟨"g", "x"⟩, some "1"⟩] := by
  decide +kernel

end DependencyGraph

end BuildScript
