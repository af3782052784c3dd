import BuildScript.Proofs.Remembering
import BuildScript.Proofs.Rerun
import BuildScript.Proofs.ScanOrder

/-!
# Projects do not interfere

A run over the files of many projects does to each project what a run over its files alone does. The
two runs scan different files and ask for versions in different orders, but a plan looks up one
project in what was scanned, and what a resolver remembers never shows.
-/

namespace BuildScript

structure Scanned.AgreeAt (s s' : Scanned) (project : String) : Prop where
  usingType : s.usingType.get? project = s'.usingType.get? project
  configurations : s.configurations.get? project = s'.configurations.get? project
  suites : s.suites.get? project = s'.suites.get? project

namespace Recipe

variable {r : Recipe} {files : List SourceFile} {f : SourceFile} {s s' : Scanned} {project : String}
  {resolve resolve' : VersionRequest → Except Error String}

section Scans

theorem mem_projectsOf_filesOf :
    project ∈ (projectsOf (filesOf files project)).names ↔ project ∈ (projectsOf files).names := by
  simp [mem_projectsOf, filesOf]

theorem filesOf_filesOf (files : List SourceFile) (project : String) :
    filesOf (filesOf files project) project = filesOf files project := by
  simp [filesOf]

theorem filter_isBuildScript_filesOf (files : List SourceFile) (project : String) :
    (filesOf files project).filter SourceFile.isBuildScript =
      filesOf (files.filter SourceFile.isBuildScript) project := by
  rw [filesOf, filesOf, List.filter_comm]

/-- The other projects do not show in what is scanned for one. -/
theorem agreeAt_scan (r : Recipe) (files : List SourceFile) (project : String) :
    (r.scan files).AgreeAt (r.scan (filesOf files project)) project := by
  rw [scan_eq_report, scan_eq_report]
  constructor
  · simp only [report, Table.get?_tabulate, mem_projectsOf_filesOf, filesOf_filesOf]
  · simp only [report, Table.get?_tabulate, mem_projectsOf_filesOf, filesOf_filesOf]
  · simp only [report, Table.get?_tabulate, filter_isBuildScript_filesOf, mem_projectsOf_filesOf,
      filesOf_filesOf]

theorem contains_scan (r : Recipe) (hfile : f ∈ files) (hproject : f.project? = some project) :
    (r.scan files).contains project = true := by
  have hmem : project ∈ (projectsOf files).names := mem_projectsOf.mpr ⟨f, hfile, hproject⟩
  rw [scan_eq_report, Scanned.contains, report, Table.get?_tabulate, if_pos hmem]
  rfl

end Scans

section Resolvers

/-- A request that the recipe makes, whatever the family of the dependency has. -/
def Asks (r : Recipe) (q : VersionRequest) : Prop :=
  q.coordinate = r.coordinate ∧ r.selector = some q.selector

/-- The versions come from metadata. A resolver that remembers its answers may have been asked
anything by the recipe before it gets a request. -/
def Consults (r : Recipe) (m : Metadata) (remembers : Bool) : Prop :=
  ∀ q, r.Asks q →
    if remembers then
      ∃ earlier, (∀ e ∈ earlier, r.Asks e) ∧
        r.resolve q = (ResolverCache.resolve m.resolve (ResolverCache.after m.resolve earlier) q).1
    else r.resolve q = m.resolve q

/-- The requests of one recipe differ in what the family has, which is part of the key. -/
theorem decisive_asks (r : Recipe) (inner : VersionRequest → Except Error String) :
    ResolverCache.Decisive inner r.Asks := by
  rintro ⟨coordinate, selector, family⟩ ⟨coordinate', selector', family'⟩ ⟨hcoordinate, hselector⟩
    ⟨hcoordinate', hselector'⟩ hkey
  have hfamily : family = family' := congrArg ResolverKey.family hkey
  have hselectors : selector = selector' := Option.some.inj (hselector.symm.trans hselector')
  have hcoordinates : coordinate = coordinate' := hcoordinate.trans hcoordinate'.symm
  rw [hfamily, hselectors, hcoordinates]

theorem Consults.resolve_eq {m : Metadata} {remembers : Bool} (h : r.Consults m remembers)
    {q : VersionRequest} (hq : r.Asks q) :
    r.resolve q = if remembers then m.resolveCached q else m.resolve q := by
  have hreply := h q hq
  cases remembers with
  | false => exact hreply
  | true =>
    obtain ⟨earlier, hearlier, hreply⟩ := hreply
    rw [hreply]
    exact ResolverCache.resolve_after (decisive_asks r m.resolve) hearlier hq

theorem version_congr (h : ∀ q, r.Asks q → resolve q = resolve' q) (g : Option DependencyGraph) :
    (r.withResolver resolve).version g = (r.withResolver resolve').version g := by
  simp only [version, withResolver]
  cases hselector : r.selector with
  | none => rfl
  | some selector =>
    simp only
    cases selector.onlyVersion? with
    | some version => rfl
    | none => exact congrArg (Except.map some) (h _ ⟨rfl, hselector⟩)

end Resolvers

theorem plan_of_agreeAt (h : s.AgreeAt s' project) (hproject : f.project? = some project) :
    r.plan f s = r.plan f s' := by
  simp only [plan, hproject, h.usingType, h.configurations, h.suites]

theorem edit_congr (hplan : r.plan f s = r.plan f s')
    (hversion : (r.withResolver resolve).version f.graph? =
      (r.withResolver resolve').version f.graph?) :
    (r.withResolver resolve).edit s f = (r.withResolver resolve').edit s' f := by
  have hplan' : (r.withResolver resolve).plan f s = (r.withResolver resolve').plan f s' := hplan
  simp only [edit, hplan', hversion]
  rfl

theorem visitFile_congr (hagree : s.AgreeAt s' project) (hproject : f.project? = some project)
    (hresolve : ∀ q, r.Asks q → resolve q = resolve' q) :
    Run.visitFile (r.withResolver resolve) s f = Run.visitFile (r.withResolver resolve') s' f := by
  rw [visitFile_eq_edit, visitFile_eq_edit]
  exact edit_congr (plan_of_agreeAt hagree hproject) (version_congr hresolve f.graph?)

/-- A warning names the file that it is about. -/
theorem file_of_mem_warned {w : Warning} (h : w ∈ r.warned s f) : w.file = some f.path := by
  rw [warned_eq_edit, edit_eq] at h
  split at h
  · cases h
  · obtain ⟨t, -, rfl⟩ := List.mem_map.mp h
    rfl

section OneProject

variable (hresolve : ∀ q, r.Asks q → resolve q = resolve' q) (hfile : f ∈ files)
    (hproject : f.project? = some project)

include hresolve hfile hproject

/-- A file of the project is visited as it is when the project is on its own. -/
theorem visitFile_filesOf :
    Run.visitFile (r.withResolver resolve) ((r.withResolver resolve).scan files) f =
        Run.visitFile (r.withResolver resolve')
          ((r.withResolver resolve').scan (filesOf files project)) f ∧
      ((r.withResolver resolve).scan files).isEmpty = false ∧
      ((r.withResolver resolve').scan (filesOf files project)).isEmpty = false := by
  have hown : f ∈ filesOf files project := List.mem_filter.mpr ⟨hfile, decide_eq_true hproject⟩
  -- The file itself is scanned in both runs, so neither of them stops for want of facts.
  exact ⟨visitFile_congr (agreeAt_scan r files project) hproject hresolve,
    Scanned.isEmpty_of_contains (contains_scan _ hfile hproject),
    Scanned.isEmpty_of_contains (contains_scan _ hown hproject)⟩

theorem visited_filesOf :
    (r.withResolver resolve').visited ((r.withResolver resolve').scan (filesOf files project)) f =
      (r.withResolver resolve).visited ((r.withResolver resolve).scan files) f := by
  obtain ⟨hvisit, hwhole, hpart⟩ := visitFile_filesOf hresolve hfile hproject
  simp only [visited, hwhole, hpart, hvisit]

theorem warned_filesOf :
    (r.withResolver resolve').warned ((r.withResolver resolve').scan (filesOf files project)) f =
      (r.withResolver resolve).warned ((r.withResolver resolve).scan files) f := by
  obtain ⟨hvisit, hwhole, hpart⟩ := visitFile_filesOf hresolve hfile hproject
  simp only [warned, hwhole, hpart, hvisit]

end OneProject

/-- The files of a project end in a run over all projects as they do in a run over them alone, and
each of them leaves its own warnings in both, whatever the schedules of the runs. -/
theorem run_filesOf_agrees {r : Recipe} {m : Metadata} {remembers : Bool}
    {resolve resolve' : VersionRequest → Except Error String} {files : List SourceFile}
    {project : String}
    {ctx ctx' after after' : Context} {scans visits scans' visits' : Schedule}
    {whole part : RunResult}
    (hresolve : (r.withResolver resolve).Consults m remembers)
    (hresolve' : (r.withResolver resolve').Consults m remembers)
    (hwhole : (r.withResolver resolve).run files ctx scans visits = (.ok whole, after))
    (hpart : (r.withResolver resolve').run (filesOf files project) ctx' scans' visits' =
      (.ok part, after')) :
    part.results = whole.results.filter (fun result => result.before.project? = some project) ∧
      ∃ own : SourceFile → List Warning, (∀ f, ∀ w ∈ own f, w.file = some f.path) ∧
        ∃ noted noted', whole.warnings = ctx.warnings ++ noted ∧ Run.Notes own files visits noted ∧
          part.warnings = ctx'.warnings ++ noted' ∧
            Run.Notes own (filesOf files project) visits' noted' := by
  have hagree : ∀ q, r.Asks q → resolve q = resolve' q := fun q hq =>
    (hresolve.resolve_eq hq).trans (hresolve'.resolve_eq hq).symm
  have hown : ∀ f ∈ filesOf files project, f ∈ files ∧ f.project? = some project := by
    intro f hf
    simpa [filesOf] using hf
  rw [eq_of_run hwhole, eq_of_run hpart]
  constructor
  · simp only [List.filter_map]
    apply List.map_congr_left
    intro f hf
    rw [visited_filesOf hagree (hown f hf).1 (hown f hf).2]
  · have hwarned : (filesOf files project).map
        ((r.withResolver resolve').warned
          ((r.withResolver resolve').scan (filesOf files project))) =
        (filesOf files project).map
          ((r.withResolver resolve).warned ((r.withResolver resolve).scan files)) := by
      apply List.map_congr_left
      intro f hf
      exact warned_filesOf hagree (hown f hf).1 (hown f hf).2
    rw [hwarned]
    exact ⟨_, fun f w hw => file_of_mem_warned hw, _, _, rfl, Run.notes_noted _ _ _, rfl,
      Run.notes_noted _ _ _⟩

/-- The build files of two projects, of which one has a version of another member of the family. The
resolver remembers that it was asked for a version in the one project when it is asked in the
other. -/
theorem run_filesOf_agrees_two_projects :
    let selector : VersionSelector := ⟨"latest.release", .latestRelease, none⟩
    let r : Recipe :=
      { sample with selector := some selector, family := Glob.parse? "g".toList false }
    let m : Metadata := [("g:a", ["1.0"])]
    let asked : VersionRequest := ⟨⟨"g", "a"⟩, selector, ["1.0"]⟩
    let remembering : VersionRequest → Except Error String := fun q =>
      (ResolverCache.resolve m.resolve (ResolverCache.after m.resolve [asked]) q).1
    let graph := DependencyGraph.java []
    let file := fun project graph => (SourceFile.parse "build.gradle" "").withMarkers
      [.project project, .buildFile .groovy, .graph graph]
    let files := [file "q" (graph.request "api" ⟨⟨"g", "b"⟩, some "1.0"⟩), file "p" graph]
    (r.withResolver remembering).Consults m true ∧
      (r.withResolver m.resolveCached).Consults m true ∧
      ∃ whole part, ((r.withResolver remembering).run files {} [1, 0] [1]).1 = .ok whole ∧
        ((r.withResolver m.resolveCached).run (filesOf files "p") {}).1 = .ok part ∧
        whole.changedFiles.length = 2 ∧ part.changedFiles.length = 1 ∧
        part.results = whole.results.filter (fun result => result.before.project? = some "p") := by
  intro selector r m asked remembering graph file files
  have hremembering : (r.withResolver remembering).Consults m true := by
    intro q _
    exact ⟨[asked], List.forall_mem_singleton.mpr ⟨rfl, rfl⟩, rfl⟩
  have hcached : (r.withResolver m.resolveCached).Consults m true := by
    intro q _
    exact ⟨[], by simp, rfl⟩
  have hwhole := @run_eq {} rfl (r.withResolver remembering) files [1, 0] [1]
  have hpart := @run_eq {} rfl (r.withResolver m.resolveCached) (filesOf files "p") [] []
  refine ⟨hremembering, hcached, _, _, congrArg Prod.fst hwhole,
    congrArg Prod.fst hpart, ?_, ?_, ?_⟩
  · decide +kernel
  · decide +kernel
  · exact (run_filesOf_agrees hremembering hcached hwhole hpart).1

end Recipe

end BuildScript
