import BuildScript.Proofs.WellFormed

/-!
# What a configuration reaches

The edges of a graph may lead in circles or to names that are not in it. Still every search along
them ends, and the ancestors and heirs of a name are exactly those that the edges connect with it.
-/

namespace BuildScript.DependencyGraph

variable {g : DependencyGraph} {name child parent : String}

def Edge (g : DependencyGraph) (child parent : String) : Prop :=
  ∃ c ∈ g.configurations, c.name = child ∧ parent ∈ c.extendsFrom

theorem extends_iff_edge : g.Extends child parent ↔ g.Edge child parent := by
  constructor
  · intro hextends
    rw [Extends, parents] at hextends
    split at hextends
    · rename_i c hc
      obtain ⟨hmem, hname⟩ := mem_of_configuration? hc
      exact ⟨c, hmem, hname, hextends⟩
    · exact absurd hextends List.not_mem_nil
  · rintro ⟨c, hc, rfl, hparent⟩
    exact extends_of_mem hc hparent

theorem reaches_iff_edges :
    g.Reaches child parent ↔ Relation.ReflTransGen g.Edge child parent := by
  have heq : g.Extends = g.Edge := by
    funext child parent
    exact propext extends_iff_edge
  rw [Reaches, heq]

/-- Whatever pending name is looked at next, no search goes on forever. -/
theorem Search.step_wellFounded (g : DependencyGraph) : WellFounded fun t s => Step g s t :=
  Subrelation.wf (fun h => h.work_lt) (measure (work g)).wf

theorem ancestors_eq_of_run {found : List String} (hrun : Search.Run g ⟨[name], []⟩ ⟨[], found⟩) :
    g.ancestors name = Names.ofList found := by
  apply (Names.ascending_ofList _).ext (Names.ascending_ofList _)
  intro x
  rw [Names.mem_ofList, Names.mem_ofList, Search.mem_found hrun,
    Search.mem_found (run_ancestors g name)]

/-- Those that extend a name directly are found among all that extend it. -/
theorem extending_direct (g : DependencyGraph) (name : String) :
    g.extending name false = (g.extending name true).filter fun c =>
      c.extendsFrom.contains name := by
  rw [extending, extending, List.filter_filter]
  apply List.filter_congr
  intro c hc
  have hinherits : c.extendsFrom.contains name = true → g.inherits c.name name = true := by
    intro hparent
    apply inherits_iff.mpr
    exact .single (extends_of_mem hc (by simpa using hparent))
  grind

/-- Every search along the edges ends, in whatever order it looks at the pending names, and it finds
the ancestors of the name that it starts with. These are the names that some chain of edges leads
to. The heirs of a name are all other configurations from which a chain leads to it, with those that
extend it directly among them. -/
theorem ancestors_and_heirs_exact (g : DependencyGraph) (name : String) :
    (WellFounded fun t s => Search.Step g s t) ∧
      (∃ found, Search.Run g ⟨[name], []⟩ ⟨[], found⟩) ∧
      (∀ found, Search.Run g ⟨[name], []⟩ ⟨[], found⟩ → g.ancestors name = Names.ofList found) ∧
      (∀ x, x ∈ g.ancestors name ↔ Relation.ReflTransGen g.Edge name x) ∧
      (∀ c, c ∈ g.extending name true ↔
        c ∈ g.configurations ∧ c.name ≠ name ∧ Relation.ReflTransGen g.Edge c.name name) ∧
      (g.extending name false).Sublist (g.extending name true) := by
  refine ⟨Search.step_wellFounded g, ⟨_, run_ancestors g name⟩,
    fun _ => ancestors_eq_of_run, ?_, ?_, ?_⟩
  · intro x
    rw [mem_ancestors, reaches_iff_edges]
  · intro c
    rw [mem_extending, reaches_iff_edges]
  · rw [extending_direct]
    exact List.filter_sublist

def circle : DependencyGraph :=
  ofList [.extending "b" ["a"], .extending "a" ["b", "outside"], .extending "c" ["a"]]

theorem ancestors_and_heirs_exact_in_circle :
    Relation.ReflTransGen circle.Edge "c" "outside" ∧ ¬ Relation.ReflTransGen circle.Edge "a" "c" ∧
    (∀ c, c ∈ circle.extending "outside" true ↔
      c ∈ circle.configurations ∧ c.name ≠ "outside" ∧
        Relation.ReflTransGen circle.Edge c.name "outside") ∧
    circle.ancestors "a" = ["a", "b", "outside"] := by
  obtain ⟨-, -, -, hreached, -, -⟩ := ancestors_and_heirs_exact circle "c"
  obtain ⟨-, -, -, hreached', -, -⟩ := ancestors_and_heirs_exact circle "a"
  obtain ⟨-, -, -, -, hheirs, -⟩ := ancestors_and_heirs_exact circle "outside"
  refine ⟨(hreached _).mp (by decide +kernel), ?_, hheirs, by decide +kernel⟩
  rw [← hreached']
  decide +kernel

end BuildScript.DependencyGraph
