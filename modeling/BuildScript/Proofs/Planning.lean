import BuildScript.Proofs.ProjectGraphs
import BuildScript.Proofs.Visits

/-!
# Planning

What is decided for a build script depends on its candidates only: whether one of them exists, and
whether one of those that exist lacks the dependency. A plan looks at the targets instead, from
which candidates that inherit from others are missing. There is still a target as soon as there is a
need, because no chain of edges is endless.
-/

namespace BuildScript.Recipe

open DependencyGraph
open Names (Ascending)

variable {r : Recipe} {file : SourceFile} {s : Scanned} {g : DependencyGraph}
    {project name : String}
  {accumulated : List String}

def Has (r : Recipe) (g : DependencyGraph) (name : String) : Prop :=
  g.Requests name r.coordinate ∨ r.options.acceptTransitive = true ∧ g.Sees name r.coordinate

theorem needs_iff_not_has :
    r.Needs g accumulated name ↔
      r.Candidate accumulated name ∧ g.contains name = true ∧ ¬ r.Has g name := by
  rw [needs_iff, Has, not_or, not_and]

theorem any_candidates : (r.candidates accumulated).any g.contains = true ↔
    ∃ name, r.Candidate accumulated name ∧ g.contains name = true := by
  simp only [List.any_eq_true, mem_candidates]

theorem ascending_candidates (h : Ascending accumulated) :
    Ascending (r.candidates accumulated) := by
  unfold candidates
  split
  · exact List.pairwise_singleton _ _
  · split_ifs
    · exact List.pairwise_singleton _ _
    · exact h

theorem ascending_targetConfigurations (h : Ascending accumulated) (g : DependencyGraph) :
    Ascending (r.targetConfigurations g accumulated) :=
  ((ascending_candidates h).filter _).filter _

section Outcomes

/-- What is decided for a build script when everything about its project is known. -/
def outcome (r : Recipe) (g : DependencyGraph) (accumulated suites : List String) : Plan :=
  if r.targetConfigurations g accumulated = [] then
    if (r.candidates accumulated).any g.contains then .skip .alreadySatisfied
      else .skip .noMatchingConfiguration
  else
    .add ((r.targetConfigurations g accumulated).map fun name =>
      ⟨name, (suitePlacement? name suites).getD .topLevel⟩)

theorem plan_eq_outcome {found : NameSet} (hscript : file.isBuildScript = true)
    (hproject : file.project? = some project)
    (huses : r.options.onlyIfUsing.isSome = true → s.usingType.get? project = some true)
    (hknown : s.configurations.get? project = some found) (hgraph : file.graph? = some g) :
    r.plan file s = r.outcome g found.names ((s.suites.get? project).getD .empty).names := by
  have hused : (r.options.onlyIfUsing.isSome && !(s.usingType.get? project).getD false) =
      false := by
    cases hasked : r.options.onlyIfUsing.isSome with
    | false => rfl
    | true =>
      rw [huses hasked]
      rfl
  simp only [plan, hscript, hproject, hused, hknown, hgraph, Bool.not_true, Bool.false_eq_true,
    if_false, outcome]
  cases r.targetConfigurations g found.names with
  | nil => rfl
  | cons first rest => rfl

variable {suites : List String}

theorem outcome_of_unmatched (h : ∀ name, r.Candidate accumulated name → g.contains name = false) :
    r.outcome g accumulated suites = .skip .noMatchingConfiguration := by
  have hmissing : ∀ name, r.Candidate accumulated name → ¬ g.contains name = true := by
    intro name hcandidate
    rw [h name hcandidate]
    exact Bool.false_ne_true
  have hnil : r.targetConfigurations g accumulated = [] := by
    apply targetConfigurations_eq_nil
    intro name hneeds
    obtain ⟨hcandidate, hexists, -⟩ := needs_iff_not_has.mp hneeds
    exact hmissing name hcandidate hexists
  have hnone : ¬ (r.candidates accumulated).any g.contains = true := by
    rw [any_candidates]
    rintro ⟨name, hcandidate, hexists⟩
    exact hmissing name hcandidate hexists
  rw [outcome, if_pos hnil, if_neg hnone]

theorem outcome_of_satisfied (hsome : ∃ name, r.Candidate accumulated name ∧ g.contains name = true)
    (hall : ∀ name, r.Candidate accumulated name → g.contains name = true → r.Has g name) :
    r.outcome g accumulated suites = .skip .alreadySatisfied := by
  have hnil : r.targetConfigurations g accumulated = [] := by
    apply targetConfigurations_eq_nil
    intro name hneeds
    obtain ⟨hcandidate, hexists, hnot⟩ := needs_iff_not_has.mp hneeds
    exact hnot (hall name hcandidate hexists)
  rw [outcome, if_pos hnil, if_pos (any_candidates.mpr hsome)]

/-- The candidates that inherit from others are left out, but never all of them. -/
theorem outcome_of_lacking (hg : g.Grounded) (hset : Ascending accumulated)
    (h : ∃ name, r.Candidate accumulated name ∧ g.contains name = true ∧ ¬ r.Has g name) :
    ∃ targets, r.outcome g accumulated suites = .add targets ∧ targets ≠ [] ∧
      Ascending (targets.map Target.configuration) ∧
      targets.map Target.configuration = r.targetConfigurations g accumulated := by
  obtain ⟨name, hlacks⟩ := h
  obtain ⟨target, htarget, -⟩ := exists_target hg (needs_iff_not_has.mpr hlacks)
  have hsome : r.targetConfigurations g accumulated ≠ [] := List.ne_nil_of_mem htarget
  refine ⟨_, if_neg hsome, ?_, ?_⟩
  · simpa using hsome
  · have hnames : ∀ names : List String, (names.map fun name => (⟨name,
        (suitePlacement? name suites).getD .topLevel⟩ : Target)).map Target.configuration =
          names := by
      intro names
      simp [Function.comp_def]
    rw [hnames]
    exact ⟨ascending_targetConfigurations hset g, rfl⟩

theorem candidates_cases (r : Recipe) (g : DependencyGraph) (accumulated : List String) :
    (∀ name, r.Candidate accumulated name → g.contains name = false) ∨
      ((∃ name, r.Candidate accumulated name ∧ g.contains name = true) ∧
        ∀ name, r.Candidate accumulated name → g.contains name = true → r.Has g name) ∨
      ∃ name, r.Candidate accumulated name ∧ g.contains name = true ∧ ¬ r.Has g name := by
  by_cases hsome : ∃ name, r.Candidate accumulated name ∧ g.contains name = true
  · by_cases hall : ∀ name, r.Candidate accumulated name → g.contains name = true → r.Has g name
    · exact Or.inr (Or.inl ⟨hsome, hall⟩)
    · push Not at hall
      exact Or.inr (Or.inr hall)
  · push Not at hsome
    left
    intro name hcandidate
    exact Bool.eq_false_iff.mpr (hsome name hcandidate)

end Outcomes

/-- For a build script of a project that was scanned and uses the type, nothing matches exactly if
no candidate exists, and the dependency is there already exactly if a candidate exists and all that
exist have it. Otherwise one of them lacks it, and the plan adds it to the target configurations. -/
theorem plan_decides_exactly {accumulated : NameSet} (hscript : file.isBuildScript = true)
    (hproject : file.project? = some project)
    (huses : r.options.onlyIfUsing.isSome = true → s.usingType.get? project = some true)
    (hknown : s.configurations.get? project = some accumulated)
    (hgraph : file.graph? = some g) (hg : g.Built) :
    (r.plan file s = .skip .noMatchingConfiguration ↔
      ∀ name, r.Candidate accumulated.names name → g.contains name = false) ∧
    (r.plan file s = .skip .alreadySatisfied ↔
      (∃ name, r.Candidate accumulated.names name ∧ g.contains name = true) ∧
        ∀ name, r.Candidate accumulated.names name → g.contains name = true → r.Has g name) ∧
    ((∃ targets, r.plan file s = .add targets ∧ targets ≠ [] ∧
      Ascending (targets.map Target.configuration) ∧
        targets.map Target.configuration = r.targetConfigurations g accumulated.names) ↔
      ∃ name, r.Candidate accumulated.names name ∧ g.contains name = true ∧ ¬ r.Has g name) := by
  rw [plan_eq_outcome hscript hproject huses hknown hgraph]
  generalize ((s.suites.get? project).getD .empty).names = suites
  have hunmatched := @outcome_of_unmatched r g accumulated.names suites
  have hsatisfied := @outcome_of_satisfied r g accumulated.names suites
  have hlacking :=
    @outcome_of_lacking r g accumulated.names suites hg.grounded accumulated.ascending
  -- Each condition has an outcome that the others do not have, and one of them holds.
  refine ⟨⟨?_, hunmatched⟩, ⟨?_, fun h => hsatisfied h.1 h.2⟩, ⟨?_, hlacking⟩⟩
  · intro hskip
    rcases candidates_cases r g accumulated.names with h | h | h
    · exact h
    · rw [hsatisfied h.1 h.2] at hskip
      cases hskip
    · obtain ⟨targets, hadd, -⟩ := hlacking h
      rw [hadd] at hskip
      cases hskip
  · intro hskip
    rcases candidates_cases r g accumulated.names with h | h | h
    · rw [hunmatched h] at hskip
      cases hskip
    · exact h
    · obtain ⟨targets, hadd, -⟩ := hlacking h
      rw [hadd] at hskip
      cases hskip
  · rintro ⟨targets, hadd, -⟩
    rcases candidates_cases r g accumulated.names with h | h | h
    · rw [hunmatched h] at hadd
      cases hadd
    · rw [hsatisfied h.1 h.2] at hadd
      cases hadd
    · exact h

/-- Of the two candidates only the one that the other inherits from is a target. -/
theorem plan_decides_exactly_inherited :
    let files := [buildFile "",
      (SourceFile.verbatim "A.java" "").withMarkers [.project "p", .sourceSet "main"],
      (SourceFile.verbatim "B.java" "").withMarkers [.project "p", .sourceSet "test"]]
    let accumulated : NameSet := .ofList ["implementation", "testImplementation"]
    (sample.scan files).configurations.get? "p" = some accumulated ∧
      (∃ targets, sample.plan (buildFile "") (sample.scan files) = .add targets ∧
        targets.map Target.configuration = ["implementation"]) ∧
      ¬ sample.plan (buildFile "") (sample.scan files) = .skip .alreadySatisfied := by
  intro files accumulated
  have hknown : (sample.scan files).configurations.get? "p" = some accumulated := by decide +kernel
  have htargets : sample.targetConfigurations (java []) accumulated.names = ["implementation"] := by
    decide +kernel
  have hneeds : sample.Needs (java []) accumulated.names "implementation" :=
    mem_openCandidates.mp (by decide +kernel)
  have hlacks := needs_iff_not_has.mp hneeds
  have huses : (sample.scan files).usingType.get? "p" = some true := by decide +kernel
  have hscript : (buildFile "").isBuildScript = true := by decide +kernel
  obtain ⟨-, hsatisfied, hadds⟩ :=
    plan_decides_exactly hscript rfl (fun _ => huses) hknown rfl (.java [])
  refine ⟨hknown, ?_, fun hskip => hlacks.2.2 ((hsatisfied.mp hskip).2 _ hlacks.1 hlacks.2.1)⟩
  obtain ⟨targets, hadd, -, -, hnames⟩ := hadds.mpr ⟨_, hlacks⟩
  exact ⟨targets, hadd, hnames.trans htargets⟩

end BuildScript.Recipe
