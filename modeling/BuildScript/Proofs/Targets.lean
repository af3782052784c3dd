import BuildScript.Proofs.Acyclic
import BuildScript.Recipe.Plan

/-!
# Exact targets

The configurations that receive a dependency are the lowest ones among those that need it: none of
them inherits from another, and each configuration that needs the dependency inherits from one.
-/

namespace BuildScript.Recipe

/-- A configuration that the recipe may add to: the explicit one, or else one of the accumulated
ones, or else `implementation`. -/
def Candidate (r : Recipe) (accumulated : List String) (name : String) : Prop :=
  match r.options.explicitConfiguration? with
  | some explicit => name = explicit
  | none => name ∈ accumulated ∨ accumulated = [] ∧ name = "implementation"

/-- A candidate that exists, does not request the dependency and, if transitive dependencies are
accepted, does not see it either. -/
def Needs (r : Recipe) (g : DependencyGraph) (accumulated : List String) (name : String) : Prop :=
  r.Candidate accumulated name ∧ ∃ c, g.configuration? name = some c ∧
    (∀ d ∈ c.requested, d.toCoordinate ≠ r.coordinate) ∧
    (r.options.acceptTransitive = true → ∀ d ∈ c.resolved, d.toCoordinate ≠ r.coordinate)

theorem mem_candidates {r : Recipe} {accumulated : List String} {name : String} :
    name ∈ r.candidates accumulated ↔ r.Candidate accumulated name := by
  unfold candidates Candidate
  cases r.options.explicitConfiguration? with
  | some explicit => simp
  | none => cases accumulated <;> simp

theorem isSatisfied_eq_false {r : Recipe} {c : Configuration} :
    r.isSatisfied c = false ↔ (∀ d ∈ c.requested, d.toCoordinate ≠ r.coordinate) ∧
      (r.options.acceptTransitive = true → ∀ d ∈ c.resolved, d.toCoordinate ≠ r.coordinate) := by
  simp [isSatisfied, Configuration.requested?, Configuration.resolved?, Dependency.isOf]

theorem mem_openCandidates {r : Recipe} {g : DependencyGraph} {accumulated : List String}
    {name : String} :
    name ∈ r.openCandidates g accumulated ↔ r.Needs g accumulated name := by
  rw [openCandidates, List.mem_filter, mem_candidates, Needs]
  cases g.configuration? name with
  | none => simp
  | some c => simp [isSatisfied_eq_false]

/-- A configuration that needs the dependency is redundant exactly if it inherits from another one
that does. What is visible in other configurations makes no difference. -/
theorem mem_targetConfigurations {r : Recipe} {g : DependencyGraph} {accumulated : List String}
    {name : String} :
    name ∈ r.targetConfigurations g accumulated ↔
      r.Needs g accumulated name ∧
        ∀ other, r.Needs g accumulated other → other ≠ name → ¬ g.Reaches name other := by
  simp only [targetConfigurations, List.mem_filter, Bool.not_eq_true', List.contains_eq_mem,
    decide_eq_false_iff_not, mem_openCandidates]
  refine and_congr_right fun hneeds => ?_
  have hmem : name ∈ r.openCandidates g accumulated := mem_openCandidates.mpr hneeds
  obtain ⟨-, c, hc, -⟩ := hneeds
  obtain ⟨hcg, hcn⟩ := DependencyGraph.mem_of_configuration? hc
  simp only [List.mem_flatMap, List.mem_map, List.mem_filter, DependencyGraph.mem_extending]
  constructor
  · intro hnot other hother hne hreach
    refine hnot ⟨other, mem_openCandidates.mpr hother, c, ⟨⟨hcg, ?_, ?_⟩, ?_⟩, hcn⟩
    · exact fun h => hne (h.symm.trans hcn)
    · exact hcn ▸ hreach
    · simp [hcn, hmem]
  · rintro hall ⟨other, hother, child, ⟨⟨-, hne, hreach⟩, -⟩, rfl⟩
    exact hall other (mem_openCandidates.mp hother) hne.symm hreach

/-- Whatever needs the dependency inherits from one of the lowest configurations that need it. -/
theorem exists_target {r : Recipe} {g : DependencyGraph} (hg : g.Grounded)
    {accumulated : List String} {name : String} (h : r.Needs g accumulated name) :
    ∃ target ∈ r.targetConfigurations g accumulated, g.Reaches name target := by
  -- Going up to another configuration in need follows at least one edge.
  induction name using hg.transGen.induction with
  | _ name ih =>
    by_cases hlow : ∀ other, r.Needs g accumulated other → other ≠ name → ¬ g.Reaches name other
    · exact ⟨name, mem_targetConfigurations.mpr ⟨h, hlow⟩, .refl⟩
    · push Not at hlow
      obtain ⟨other, hother, hne, hreach⟩ := hlow
      obtain heq | hstep := Relation.reflTransGen_iff_eq_or_transGen.mp hreach
      · exact absurd heq hne
      · obtain ⟨target, htarget, hup⟩ := ih other (Relation.transGen_swap.mp hstep) hother
        exact ⟨target, htarget, hreach.trans hup⟩

/-- On every graph that the operations build, the targets are exactly the configurations that need
the dependency and inherit from no other such configuration. So no target inherits from another,
whatever needs the dependency inherits from a target, and there is no target only if there is no
need. -/
theorem targetConfigurations_exact (r : Recipe) (g : DependencyGraph) (hg : g.Built)
    (accumulated : List String) :
    (∀ name, name ∈ r.targetConfigurations g accumulated ↔
      r.Needs g accumulated name ∧
        ∀ other, r.Needs g accumulated other → other ≠ name → ¬ g.Reaches name other) ∧
    (∀ a ∈ r.targetConfigurations g accumulated, ∀ b ∈ r.targetConfigurations g accumulated,
      a ≠ b → ¬ g.Reaches a b) ∧
    (∀ name, r.Needs g accumulated name →
      ∃ target ∈ r.targetConfigurations g accumulated, g.Reaches name target) ∧
    (r.targetConfigurations g accumulated = [] → ∀ name, ¬ r.Needs g accumulated name) := by
  have hcover : ∀ name, r.Needs g accumulated name →
      ∃ target ∈ r.targetConfigurations g accumulated, g.Reaches name target :=
    fun name h => exists_target hg.grounded h
  refine ⟨fun name => mem_targetConfigurations, ?_, hcover, ?_⟩
  · intro a ha b hb hne
    exact (mem_targetConfigurations.mp ha).2 b (mem_targetConfigurations.mp hb).1 hne.symm
  · intro hnil name hneeds
    obtain ⟨target, htarget, -⟩ := hcover name hneeds
    rw [hnil] at htarget
    simp at htarget

def ofCoordinate (c : Coordinate) : Recipe :=
  ⟨{ group := c.group, artifact := c.artifact }, c, none, none, none, .imports,
    Metadata.resolveCached []⟩

theorem target_of_testImplementation :
    (DependencyGraph.java ["integrationTest"]).Built ∧
      ∃ target ∈ (ofCoordinate ⟨"g", "a"⟩).targetConfigurations
        (DependencyGraph.java ["integrationTest"])
          ["implementation", "integrationTestImplementation", "testImplementation"],
        (DependencyGraph.java ["integrationTest"]).Reaches "testImplementation" target := by
  refine ⟨.java _, (targetConfigurations_exact _ _ (.java _) _).2.2.1 "testImplementation" ?_⟩
  exact mem_openCandidates.mp (by decide +kernel)

end BuildScript.Recipe
