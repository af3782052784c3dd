import BuildScript.Proofs.Acyclic
import Mathlib.Order.Defs.Unbundled

/-!
# Well-formed graphs

Graphs are made from a list of configurations or for the source sets of a Java project, and then
changed step by step. None of the steps checks everything that the others rely on, so each has its
own argument why the graph stays well-formed.
-/

namespace BuildScript

namespace DependencyGraph

open Names (Ascending)

variable {g g' : DependencyGraph} {c : Configuration} {cs : List Configuration} {name : String}

structure WellFormed (g : DependencyGraph) : Prop where
  ascending : Ascending g.names
  keyed : ∀ name c, g.configuration? name = some c → c.name = name
  found : ∀ c ∈ g.configurations, g.configuration? c.name = some c
  closed : ∀ c ∈ g.configurations, ∀ parent ∈ c.extendsFrom, g.contains parent = true
  acyclic : ∀ name, ¬ Relation.TransGen g.Extends name name

theorem extends_of_mem (hc : c ∈ g.configurations) {parent : String}
    (hparent : parent ∈ c.extendsFrom) : g.Extends c.name parent := by
  rw [Extends, parents, configuration?_of_mem hc]
  exact hparent

/-- The order of the names is given, so it is left to look at the edges. -/
theorem wellFormed_of_edges (hclosed : g.Closed)
    (hacyclic : ∀ name, ¬ Relation.TransGen g.Extends name name) : g.WellFormed where
  ascending := g.ascending
  keyed := fun _ _ h => (mem_of_configuration? h).2
  found := fun _ hc => configuration?_of_mem hc
  closed := by
    intro c hc parent hparent
    exact contains_iff.mpr (hclosed c.name parent (extends_of_mem hc hparent))
  acyclic := hacyclic

theorem Grounded.acyclic (h : g.Grounded) (name : String) :
    ¬ Relation.TransGen g.Extends name name := by
  intro hcycle
  -- A cycle would be an endless descending chain.
  have hback : Relation.TransGen (fun parent child => g.Extends child parent) name name :=
    Relation.transGen_swap.mpr hcycle
  exact h.transGen.irrefl.irrefl name hback

theorem WellFormed.edge_closed (h : g.WellFormed) : g.Closed := by
  intro child parent hedge
  rw [Extends, parents] at hedge
  cases hc : g.configuration? child with
  | none =>
    rw [hc] at hedge
    exact absurd hedge List.not_mem_nil
  | some c =>
    rw [hc] at hedge
    exact contains_iff.mp (h.closed c (mem_of_configuration? hc).1 parent hedge)

/-- What adds no edge and drops no name keeps a graph well-formed. -/
theorem WellFormed.of_parents (h : g.WellFormed) (hsub : g.names ⊆ g'.names)
    (hparents : g'.parents = g.parents) : g'.WellFormed := by
  have hextends : g'.Extends = g.Extends := extends_congr hparents
  apply wellFormed_of_edges
  · intro child parent hedge
    rw [hextends] at hedge
    exact hsub (h.edge_closed child parent hedge)
  · rw [hextends]
    exact h.acyclic

/-- Validation sees to the edges of a graph. -/
theorem wellFormed_of_validate (h : g.validate = .ok ()) : g.WellFormed := by
  obtain ⟨hclosed, hgrounded⟩ := grounded_of_validate h
  exact wellFormed_of_edges hclosed hgrounded.acyclic

theorem wellFormed_insert (hinsert : g.insert c = .ok g') : g'.WellFormed :=
  wellFormed_of_validate (eq_of_insert hinsert).2

/-- A configuration that a request makes extends nothing, so no check is needed. -/
theorem WellFormed.request (h : g.WellFormed) (name : String) (d : Dependency) :
    (g.request name d).WellFormed := by
  apply h.of_parents
  · intro x hx
    rw [DependencyGraph.request, names_updated]
    exact Names.mem_insert.mpr (.inr hx)
  · exact parents_request g name d

theorem WellFormed.resolveInherited (h : g.WellFormed) : g.resolveInherited.WellFormed := by
  apply h.of_parents
  · rw [names_resolveInherited]
    exact List.Subset.refl _
  · exact parents_resolveInherited g

section Java

variable {sourceSet : String} {sourceSets : List String}

def sourceSetEndings : List String := ["Implementation", "CompileOnly", "RuntimeOnly"]

/-- Of the source sets only `test` has configurations among the plain ones. -/
theorem eq_test_of_javaBase (hc : c ∈ javaBase) {ending : String}
    (hending : ending ∈ sourceSetEndings) (h : sourceSet ++ ending = c.name) :
    sourceSet = "test" := by
  have hbase : ∀ c ∈ javaBase, ∀ ending ∈ sourceSetEndings,
      ending.toList.isSuffixOf c.name.toList → c.name = "test" ++ ending := by
    decide +kernel
  have hsuffix : ending.toList.isSuffixOf c.name.toList := by
    rw [← h, String.toList_append, List.isSuffixOf_iff_suffix]
    exact List.suffix_append _ _
  have hname : sourceSet ++ ending = "test" ++ ending := h.trans (hbase c hc ending hending hsuffix)
  rw [String.ext_iff, String.toList_append, String.toList_append] at hname
  exact String.ext (List.append_cancel_right hname)

theorem name_ne_of_sourceSet (hc : c ∈ javaBase) {d : Configuration}
    (hd : d ∈ sourceSetConfigurations sourceSet) : d.name ≠ c.name := by
  intro heq
  unfold sourceSetConfigurations at hd
  split at hd
  · exact absurd hd List.not_mem_nil
  · rename_i hplain
    have hending : ∃ ending ∈ sourceSetEndings, d.name = sourceSet ++ ending := by
      simp only [List.mem_cons, List.not_mem_nil, or_false] at hd
      rcases hd with rfl | rfl | rfl
      · exact ⟨"Implementation", by decide, rfl⟩
      · exact ⟨"CompileOnly", by decide, rfl⟩
      · exact ⟨"RuntimeOnly", by decide, rfl⟩
    obtain ⟨ending, hmem, hname⟩ := hending
    have htest := eq_test_of_javaBase hc hmem (hname.symm.trans heq)
    exact hplain (by simp [htest])

/-- Configurations of other names do not get in the way of a name. -/
theorem configuration?_ofList_append {others : List Configuration}
    (h : ∀ d ∈ others, d.name ≠ name) :
    (ofList (cs ++ others)).configuration? name = (ofList cs).configuration? name := by
  simp only [ofList, List.foldl_append]
  generalize cs.foldl updated empty = g
  induction others generalizing g with
  | nil => rfl
  | cons first rest ih =>
    have hfirst : first.name ≠ name := h first List.mem_cons_self
    rw [List.foldl_cons, ih (fun d hd => h d (List.mem_cons_of_mem _ hd)), configuration?_updated,
      if_neg (Ne.symm hfirst)]

/-- No source set replaces one of the plain configurations. -/
theorem configuration?_java (sourceSets : List String) (hc : c ∈ javaBase) :
    (java sourceSets).configuration? c.name = some c := by
  have hbase : ∀ c ∈ javaBase, (ofList javaBase).configuration? c.name = some c := by
    decide +kernel
  have hothers : ∀ d ∈ sourceSets.flatMap sourceSetConfigurations, d.name ≠ c.name := by
    intro d hd
    obtain ⟨sourceSet, -, hd⟩ := List.mem_flatMap.mp hd
    exact name_ne_of_sourceSet hc hd
  rw [java, configuration?_ofList_append hothers, hbase c hc]

theorem wellFormed_java (sourceSets : List String) : (java sourceSets).WellFormed := by
  have hparents : ∀ c ∈ javaBase, ∀ parent ∈ c.extendsFrom, ∃ d ∈ javaBase, d.name = parent := by
    decide +kernel
  apply wellFormed_of_edges
  · intro child parent hedge
    obtain ⟨c, hc, -, hparent⟩ := java_extends hedge
    obtain ⟨d, hd, rfl⟩ := hparents c hc parent hparent
    have hfound := configuration?_java sourceSets hd
    exact List.mem_map_of_mem (mem_of_configuration? hfound).1
  · exact (java_grounded sourceSets).acyclic

end Java

inductive Change where
  | insert (c : Configuration)
  | request (name : String) (d : Dependency)
  | resolveInherited

/-- An insertion that is refused leaves the graph as it was. -/
def change (g : DependencyGraph) : Change → DependencyGraph
  | .insert c =>
    match g.insert c with
    | .ok g' => g'
    | .error _ => g
  | .request name d => g.request name d
  | .resolveInherited => g.resolveInherited

theorem WellFormed.change (h : g.WellFormed) (step : Change) : (g.change step).WellFormed := by
  cases step with
  | insert c =>
    simp only [DependencyGraph.change]
    cases hinsert : g.insert c with
    | ok g' => exact wellFormed_insert hinsert
    | error _ => exact h
  | request name d => exact h.request name d
  | resolveInherited => exact h.resolveInherited

theorem WellFormed.changes (h : g.WellFormed) (steps : List Change) :
    (steps.foldl DependencyGraph.change g).WellFormed := by
  induction steps generalizing g with
  | nil => exact h
  | cons step steps ih => exact ih (h.change step)

end DependencyGraph

end BuildScript
