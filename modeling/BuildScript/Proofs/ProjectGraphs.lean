import BuildScript.Proofs.Coverage
import BuildScript.Proofs.Readers

/-!
# Project graphs

What the graph of a project takes from its build script: a configuration requests what is declared
in anything that it inherits from, and nobody gets a new parent. If a recipe's dependency is
requested where it was missing, and in all that inherits from there, then it is missing nowhere.
-/

namespace BuildScript

namespace Project

open DependencyGraph

/-- The graph holds a base graph and some declarations, and no edge that the base graph has not. -/
structure Follows (base : DependencyGraph) (declarations : List Declaration) (g : DependencyGraph) :
    Prop where
  requests : ∀ name k, g.Requests name k ↔
    base.Requests name k ∨ ∃ d ∈ declarations, d.dependency.toCoordinate = k ∧
      base.Reaches name d.configuration
  contains : ∀ name, g.contains name = true ↔
    base.contains name = true ∨ ∃ d ∈ declarations, name = d.configuration
  kept : ∀ name c, base.configuration? name = some c →
    ∃ c', g.configuration? name = some c' ∧ c'.extendsFrom = c.extendsFrom
  parentless : ∀ name c, base.contains name = false → g.configuration? name = some c →
    c.extendsFrom = []

variable {base g : DependencyGraph} {declarations order : List Declaration}

theorem parents_graphWith : (graphWith base declarations).parents = base.parents := by
  rw [graphWith, parents_resolveInherited]
  exact (gains_declareAll declarations base).parents

theorem follows_graphWith (base : DependencyGraph) (declarations : List Declaration) :
    Follows base declarations (graphWith base declarations) := by
  have hparents : ∀ name c, (graphWith base declarations).configuration? name = some c →
      c.extendsFrom = base.parents name := by
    intro name c hc
    rw [← @parents_graphWith base declarations, parents, hc]
  refine ⟨fun name k => ?_, fun name => contains_graphWith, fun name c hc => ?_,
    fun name c hnew hc => ?_⟩
  · simp only [requests_graphWith, and_comm]
  · have hexists : base.contains name = true := by
      rw [DependencyGraph.contains, hc, Option.isSome_some]
    obtain ⟨c', hc'⟩ := Option.isSome_iff_exists.mp (contains_graphWith.mpr (Or.inl hexists))
    refine ⟨c', hc', ?_⟩
    rw [hparents name c' hc', parents, hc]
  · have hnone : base.configuration? name = none := by simpa [DependencyGraph.contains] using hnew
    rw [hparents name c hc, parents, hnone]

theorem Follows.perm (h : Follows base order g) (hperm : order.Perm declarations) :
    Follows base declarations g where
  requests name k := by simp only [h.requests, hperm.mem_iff]
  contains name := by simp only [h.contains, hperm.mem_iff]
  kept := h.kept
  parentless := h.parentless

/-- If the configurations of a project can be told, then it has a graph that holds what the build
script declares at the top level and in its suites. The same is true of the graph that declaring it
in any other order gives. -/
theorem graph_follows_declarations {p : Project} {script : SourceFile} {sourceSets : List String}
    (hbase : p.baseGraph script sourceSets = .ok base) :
    ∃ g, p.graph script sourceSets = .ok g ∧ Follows base script.declarations g ∧
      ∀ order, order.Perm script.declarations →
        Follows base script.declarations (graphWith base order) := by
  have hgraph : p.graph script sourceSets = .ok (graphWith base script.declarations) := by
    rw [graph, hbase]
    rfl
  refine ⟨_, hgraph, follows_graphWith base _, ?_⟩
  intro order hperm
  exact (follows_graphWith base order).perm hperm

def ownScript : SourceFile :=
  SourceFile.parse "build.gradle" "dependencies \x7b implementation 'g:a:1'\n own 'g:b' \x7d"

/-- A test configuration takes part in what is declared for `implementation`, and the configuration
that only a declaration names is there. -/
theorem graph_follows_declarations_of_ownScript :
    ∃ base g, (⟨"p", "", none⟩ : Project).baseGraph ownScript ["main"] = .ok base ∧
      (⟨"p", "", none⟩ : Project).graph ownScript ["main"] = .ok g ∧
      g.Requests "testImplementation" ⟨"g", "a"⟩ ∧ base.contains "own" = false ∧
        g.contains "own" = true := by
  have hdeclared : ownScript.declarations =
      [⟨"implementation", ⟨⟨"g", "a"⟩, some "1"⟩⟩, ⟨"own", ⟨⟨"g", "b"⟩, none⟩⟩] := by decide +kernel
  have hnew : (java (["main"] ++ ownScript.suites false)).contains "own" = false := by
    decide +kernel
  have hinherits : (java (["main"] ++ ownScript.suites false)).inherits "testImplementation"
      "implementation" = true := by
    decide +kernel
  have hbase := @baseGraph_of_undescribed (⟨"p", "", none⟩ : Project) rfl ownScript ["main"]
  obtain ⟨g, hgraph, hfollows, -⟩ := graph_follows_declarations hbase
  refine ⟨_, g, hbase, hgraph, ?_, hnew, ?_⟩
  · rw [hfollows.requests, hdeclared]
    exact Or.inr ⟨_, List.mem_cons_self, rfl, inherits_iff.mp hinherits⟩
  · rw [hfollows.contains, hdeclared]
    exact Or.inr ⟨_, List.mem_cons_of_mem _ List.mem_cons_self, rfl⟩

end Project

namespace Recipe

open DependencyGraph Project

variable {r : Recipe} {g g' : DependencyGraph} {accumulated : List String} {name : String}

/-- Visible dependencies only make fewer configurations need one. -/
theorem needs_of_resolveInherited (h : r.Needs g.resolveInherited accumulated name) :
    r.Needs g accumulated name := by
  obtain ⟨hcandidate, hexists, hnot, hunseen⟩ := needs_iff.mp h
  rw [contains_resolveInherited] at hexists
  rw [requests_resolveInherited] at hnot
  refine needs_iff.mpr ⟨hcandidate, hexists, hnot, fun haccept hseen => ?_⟩
  exact hunseen haccept (sees_resolveInherited.mpr (Or.inl hseen))

theorem targetConfigurations_eq_nil (h : ∀ name, ¬ r.Needs g accumulated name) :
    r.targetConfigurations g accumulated = [] := by
  rw [List.eq_nil_iff_forall_not_mem]
  intro name hname
  exact h name (mem_targetConfigurations.mp hname).1

/-- Whatever inherits from a target gains the dependency, so nothing that needed it still does. Nor
does what is new, if it comes with the dependency. -/
theorem not_needs_of_gains {more : String → Prop} {requests : String → Coordinate → Prop}
    (hg : g.Grounded)
    (hgains : Gains more requests g g') (hmore : ∀ x, more x → requests x r.coordinate)
    (htargets : ∀ t ∈ r.targetConfigurations g accumulated, ∀ x, g.Reaches x t →
      requests x r.coordinate)
    (name : String) : ¬ r.Needs g' accumulated name := by
  intro hneeds
  obtain ⟨hcandidate, hexists, hnot, hunseen⟩ := needs_iff.mp hneeds
  rw [hgains.requests] at hnot
  push Not at hnot
  have hbefore : g.contains name = true := by
    obtain h | h := (hgains.contains name).mp hexists
    · exact h
    · exact absurd (hmore name h) hnot.2
  have hneeded : r.Needs g accumulated name := by
    refine needs_iff.mpr ⟨hcandidate, hbefore, hnot.1, fun haccept hseen => ?_⟩
    exact hunseen haccept ((hgains.sees name r.coordinate).mpr hseen)
  obtain ⟨target, htarget, hreach⟩ := exists_target hg hneeded
  exact hnot.2 (htargets target htarget name hreach)

/-- Nothing needs the dependency, and it would be added nowhere. -/
def SatisfiedBy (r : Recipe) (g : DependencyGraph) (accumulated : List String) : Prop :=
  (∀ name, ¬ r.Needs g accumulated name) ∧ r.targetConfigurations g accumulated = []

theorem satisfiedBy_of_not_needs (h : ∀ name, ¬ r.Needs g accumulated name) :
    r.SatisfiedBy g accumulated ∧ r.SatisfiedBy g.resolveInherited accumulated := by
  have hresolved : ∀ name, ¬ r.Needs g.resolveInherited accumulated name :=
    fun name hneeds => h name (needs_of_resolveInherited hneeds)
  exact ⟨⟨h, targetConfigurations_eq_nil h⟩, ⟨hresolved, targetConfigurations_eq_nil hresolved⟩⟩

/-- The recipe is satisfied as soon as its dependency, of whatever version, is requested in all
targets and in all that inherits from one, in any order and possibly elsewhere, too. So it is when
the targets declare the dependency, before and after inherited dependencies become visible. -/
theorem satisfiedBy_requests_of_targets (r : Recipe) (g : DependencyGraph) (hg : g.Built)
    (accumulated : List String) (version : Option String) :
    (∀ names : List String,
      (∀ t ∈ r.targetConfigurations g accumulated, ∀ x, g.Reaches x t → x ∈ names) →
      r.SatisfiedBy
        (names.foldl (fun g name => g.request name ⟨r.coordinate, version⟩) g) accumulated ∧
      r.SatisfiedBy
        (names.foldl (fun g name => g.request name ⟨r.coordinate, version⟩) g).resolveInherited
        accumulated) ∧
    (∀ declarations : List Declaration,
      (∀ d ∈ declarations, d.dependency.toCoordinate = r.coordinate) →
      (∀ t ∈ r.targetConfigurations g accumulated, ∃ d ∈ declarations, d.configuration = t) →
      r.SatisfiedBy (declarations.foldl Project.declare g) accumulated ∧
      r.SatisfiedBy (graphWith g declarations) accumulated) := by
  constructor
  · intro names hnames
    apply satisfiedBy_of_not_needs
    apply not_needs_of_gains hg.grounded (gains_requests names ⟨r.coordinate, version⟩ g)
    · exact fun x hx => ⟨hx, rfl⟩
    · exact fun t ht x hreach => ⟨hnames t ht x hreach, rfl⟩
  · intro declarations honly hdeclared
    apply satisfiedBy_of_not_needs
    apply not_needs_of_gains hg.grounded (gains_declareAll declarations g)
    · rintro x ⟨d, hd, rfl⟩
      exact ⟨d, hd, .refl, honly d hd⟩
    · intro t ht x hreach
      obtain ⟨d, hd, rfl⟩ := hdeclared t ht
      exact ⟨d, hd, hreach, honly d hd⟩

theorem satisfiedBy_requests_of_implementation :
    (DependencyGraph.java []).Built ∧
      (ofCoordinate ⟨"g", "a"⟩).targetConfigurations (DependencyGraph.java [])
        ["implementation", "testImplementation"] =
        ["implementation"] ∧
      (ofCoordinate ⟨"g", "a"⟩).SatisfiedBy
        ((((DependencyGraph.java []).extending "implementation" true).map Configuration.name ++
          ["implementation"]).foldl
          (fun g name => g.request name ⟨⟨"g", "a"⟩, some "1"⟩) (DependencyGraph.java []))
        ["implementation", "testImplementation"] ∧
      (ofCoordinate ⟨"g", "a"⟩).SatisfiedBy
        (graphWith (DependencyGraph.java []) [⟨"implementation", ⟨⟨"g", "a"⟩, some "1"⟩⟩])
        ["implementation", "testImplementation"] := by
  have htargets : (ofCoordinate ⟨"g", "a"⟩).targetConfigurations (DependencyGraph.java [])
      ["implementation", "testImplementation"] = ["implementation"] := by decide +kernel
  have hsatisfied := satisfiedBy_requests_of_targets (ofCoordinate ⟨"g", "a"⟩) _ (.java [])
    ["implementation", "testImplementation"] (some "1")
  rw [htargets] at hsatisfied
  refine ⟨.java [], htargets, (hsatisfied.1 _ ?_).1, (hsatisfied.2 _ ?_ ?_).2⟩
  · intro t ht x hreach
    obtain rfl := List.mem_singleton.mp ht
    exact (@mem_declare_names _ _ ⟨"implementation", ⟨⟨"g", "a"⟩, none⟩⟩).mpr hreach
  · simp [ofCoordinate]
  · simp

end Recipe

end BuildScript
