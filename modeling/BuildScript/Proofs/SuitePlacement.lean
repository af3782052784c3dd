import BuildScript.Proofs.Cutting
import BuildScript.Recipe.Plan
import BuildScript.Script.Declaration

/-!
# Placing a configuration in its suite

A suite puts its name in front of the configurations declared in it, and a configuration is placed
by taking one of four endings off again. No ending is the end of another, so a configuration has at
most one stem, and placing is the inverse of naming also for suites whose own names have such an
ending.
-/

namespace BuildScript

variable {configuration : String} {suites : List String} {placement : Placement}
    {pair other : String × String}

/-- In front of its ending a configuration has the name of the suite. -/
theorem toList_suiteConfiguration (h : pair ∈ suiteSuffixes) (suite : String) :
    (suiteConfiguration suite pair.2).toList = suite.toList ++ pair.1.toList := by
  simp only [suiteSuffixes, List.mem_cons, List.not_mem_nil, or_false] at h
  obtain rfl | rfl | rfl | rfl := h <;> exact String.toList_append

/-- No ending is the end of another. -/
theorem eq_of_endings (h : pair ∈ suiteSuffixes) (h' : other ∈ suiteSuffixes)
    {stem stem' : List Char} (hsame : stem ++ pair.1.toList = stem' ++ other.1.toList) :
    pair = other := by
  have hends : ∀ p ∈ suiteSuffixes, ∀ q ∈ suiteSuffixes, p.1.toList <:+ q.1.toList →
      p = q := by decide
  have hleft := List.suffix_append stem pair.1.toList
  have hright := hsame ▸ List.suffix_append stem' other.1.toList
  obtain hend | hend := List.suffix_or_suffix_of_suffix hleft hright
  · exact hends pair h other h' hend
  · exact (hends other h' pair h hend).symm

/-- What one of the endings contributes to the search for a place. -/
theorem placed_by_ending :
    (do let stem ← Text.dropBack? pair.1.toList configuration.toList
        if suites.contains (String.ofList stem) then
          some (Placement.suite (String.ofList stem) pair.2) else none) =
      some placement ↔
    ∃ suite ∈ suites, configuration.toList = suite.toList ++ pair.1.toList ∧
      placement = .suite suite pair.2 := by
  simp only [Option.bind_eq_bind, Option.bind_eq_some_iff, Text.dropBack?_eq_some,
    List.contains_iff_mem, Option.ite_none_right_eq_some, Option.some.injEq]
  constructor
  · rintro ⟨stem, hstem, hsuite, rfl⟩
    exact ⟨String.ofList stem, hsuite, by rwa [String.toList_ofList], rfl⟩
  · rintro ⟨suite, hsuite, hstem, rfl⟩
    exact ⟨suite.toList, hstem, by rwa [String.ofList_toList], by rw [String.ofList_toList]⟩

/-- A configuration has the name of a suite in front of an ending if it is named for that suite. -/
theorem has_ending_iff_named :
    (∃ pair ∈ suiteSuffixes, ∃ suite ∈ suites,
      configuration.toList = suite.toList ++ pair.1.toList ∧ placement = .suite suite pair.2) ↔
    ∃ suite ∈ suites, ∃ inside ∈ suiteSuffixes.map Prod.snd,
      suiteConfiguration suite inside = configuration ∧ placement = .suite suite inside := by
  constructor
  · rintro ⟨pair, hpair, suite, hsuite, hstem, rfl⟩
    refine ⟨suite, hsuite, pair.2, List.mem_map_of_mem hpair, String.toList_inj.mp ?_, rfl⟩
    rw [toList_suiteConfiguration hpair, hstem]
  · rintro ⟨suite, hsuite, inside, hinside, rfl, rfl⟩
    obtain ⟨pair, hpair, rfl⟩ := List.mem_map.mp hinside
    exact ⟨pair, hpair, suite, hsuite, toList_suiteConfiguration hpair suite, rfl⟩

/-- A configuration is placed in the suites that it is named for. -/
theorem suitePlacement?_eq_some_iff :
    suitePlacement? configuration suites = some placement ↔
      isStandardConfiguration configuration = false ∧ ∃ suite ∈ suites,
        ∃ inside ∈ suiteSuffixes.map Prod.snd,
        suiteConfiguration suite inside = configuration ∧ placement = .suite suite inside := by
  rw [← has_ending_iff_named, suitePlacement?]
  split_ifs with hstandard
  · simp [hstandard]
  · refine Iff.trans ?_ (and_iff_right (by simpa using hstandard)).symm
    constructor
    · intro hfound
      obtain ⟨pair, hpair, hplaced⟩ := List.exists_of_findSome?_eq_some hfound
      exact ⟨pair, hpair, placed_by_ending.mp hplaced⟩
    · rintro ⟨pair, hpair, hplaced⟩
      -- The search stops at the first ending that gives a place, and no other ending gives one.
      generalize hfound : List.findSome? _ suiteSuffixes = found
      cases found with
      | none =>
        have hnone := List.findSome?_eq_none_iff.mp hfound pair hpair
        cases hnone.symm.trans (placed_by_ending.mpr hplaced)
      | some found =>
        obtain ⟨other, hother, hfirst⟩ := List.exists_of_findSome?_eq_some hfound
        obtain ⟨suite, -, hstem, rfl⟩ := hplaced
        obtain ⟨suite', -, hstem', rfl⟩ := placed_by_ending.mp hfirst
        have hsame := hstem.symm.trans hstem'
        obtain rfl := eq_of_endings hpair hother hsame
        rw [String.toList_inj.mp (List.append_cancel_right hsame)]

/-- Placing a configuration is the inverse of naming it for a suite, so no two configurations have
one place. -/
theorem placing_inverts_naming (suites : List String) :
    (∀ configuration suite inside,
      suitePlacement? configuration suites = some (.suite suite inside) →
      suite ∈ suites ∧ isStandardConfiguration configuration = false ∧
        suiteConfiguration suite inside = configuration) ∧
    (∀ suite ∈ suites, ∀ inside ∈ suiteSuffixes.map Prod.snd,
      isStandardConfiguration (suiteConfiguration suite inside) = false →
        suitePlacement? (suiteConfiguration suite inside) suites = some (.suite suite inside)) ∧
    ∀ configuration configuration' suite inside,
      suitePlacement? configuration suites = some (.suite suite inside) →
      suitePlacement? configuration' suites = some (.suite suite inside) →
        configuration = configuration' := by
  have hnamed : ∀ configuration suite inside,
      suitePlacement? configuration suites = some (.suite suite inside) →
      suite ∈ suites ∧ isStandardConfiguration configuration = false ∧
        suiteConfiguration suite inside = configuration := by
    intro configuration suite inside hplaced
    obtain ⟨hstandard, suite', hsuite, inside', -, hname, hsame⟩ :=
      suitePlacement?_eq_some_iff.mp hplaced
    obtain ⟨rfl, rfl⟩ := Placement.suite.inj hsame
    exact ⟨hsuite, hstandard, hname⟩
  refine ⟨hnamed, ?_, ?_⟩
  · intro suite hsuite inside hinside hstandard
    exact suitePlacement?_eq_some_iff.mpr ⟨hstandard, suite, hsuite, inside, hinside, rfl, rfl⟩
  · intro configuration configuration' suite inside hplaced hplaced'
    rw [← (hnamed configuration suite inside hplaced).2.2,
      (hnamed configuration' suite inside hplaced').2.2]

/-- A suite whose name has one of the endings, beside the suite that its name would be placed in. -/
theorem placing_inverts_naming_of_itRuntimeOnly :
    suiteConfiguration "itRuntimeOnly" "compileOnly" = "itRuntimeOnlyCompileOnly" ∧
      suitePlacement? "itRuntimeOnlyCompileOnly" ["it", "itRuntimeOnly"] =
        some (.suite "itRuntimeOnly" "compileOnly") ∧
      suitePlacement? "itRuntimeOnly" ["it", "itRuntimeOnly"] =
        some (.suite "it" "runtimeOnly") := by
  have hname : suiteConfiguration "itRuntimeOnly" "compileOnly" = "itRuntimeOnlyCompileOnly" := by
    decide +kernel
  have hname' : suiteConfiguration "it" "runtimeOnly" = "itRuntimeOnly" := by decide +kernel
  have hplaced := (placing_inverts_naming ["it", "itRuntimeOnly"]).2.1
  refine ⟨hname, ?_, ?_⟩
  · rw [← hname]
    exact hplaced "itRuntimeOnly" (by decide) "compileOnly" (by decide) (by decide +kernel)
  · rw [← hname']
    exact hplaced "it" (by decide) "runtimeOnly" (by decide) (by decide +kernel)

end BuildScript
