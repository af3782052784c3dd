import BuildScript.Proofs.BareTrees
import BuildScript.Proofs.Coverage
import BuildScript.Proofs.Reparsing
import BuildScript.Workspace.Basic

/-!
# Running a recipe on its own output

A build file that a run has edited is written, loaded again and given to a second run. Its new graph
knows the new declarations, so the second run plans for no other targets than the first, and finds
them settled.
-/

namespace BuildScript

namespace Edited

variable {coordinate : Coordinate} {targets : List Target} {f f' : SourceFile}

theorem adds (h : Edited coordinate targets f f') :
    Declaration.Adds coordinate f.declarations f'.declarations := by
  induction h with
  | nil f => exact .refl _
  | cons is writes plain step rest ih =>
    have hstep := step.adds writes
    rw [is] at hstep
    exact hstep.trans ih

end Edited

namespace Workspace

variable {p : Project} {dsl : Dsl} {base : DependencyGraph} {file : SourceFile}

/-- A build file with the markers that it is loaded with, on top of the configurations that its
project has anyway. -/
def marked (p : Project) (dsl : Dsl) (base : DependencyGraph) (file : SourceFile) : SourceFile :=
  file.withMarkers [.project p.name, .buildFile dsl,
    .graph (Project.graphWith base file.declarations)]

theorem buildScript_eq (sources : List Member) (p : Project) (file : SourceFile) (dsl : Dsl) :
    buildScript sources ⟨p, file, some dsl⟩ dsl =
      (p.baseGraph file (sourceSets sources p)).map fun base => marked p dsl base file := by
  simp only [buildScript, Project.graph]
  cases p.baseGraph file (sourceSets sources p) with
  | error e => rfl
  | ok base => rfl

theorem baseGraph_congr {file' : SourceFile} (hsuites : file'.suites false = file.suites false)
    (sourceSets : List String) : p.baseGraph file' sourceSets = p.baseGraph file sourceSets := by
  rw [Project.baseGraph, Project.baseGraph, hsuites]

theorem isBuildScript_marked : (marked p dsl base file).isBuildScript = true := rfl

theorem project?_marked : (marked p dsl base file).project? = some p.name := rfl

theorem sourceSet?_marked : (marked p dsl base file).sourceSet? = none := rfl

theorem graph?_marked :
    (marked p dsl base file).graph? = some (Project.graphWith base file.declarations) := rfl

theorem suites_marked (blocksOnly : Bool) :
    (marked p dsl base file).suites blocksOnly = file.suites blocksOnly := rfl

/-- A scan sees no more of a loaded build file than its project and its suites. -/
theorem scanFile_marked {r : Recipe} {file' : SourceFile}
    (hsuites : file'.suites true = file.suites true) (s : Scanned) :
    r.scanFile s (marked p dsl base file') = r.scanFile s (marked p dsl base file) := by
  apply Recipe.scanFile_congr
  · rw [project?_marked, project?_marked]
  · rw [sourceSet?_marked, sourceSet?_marked]
  · rw [suites_marked, suites_marked, hsuites]
  · exact isBuildScript_marked
  · exact isBuildScript_marked

theorem print_marked : (marked p dsl base file).print = file.print := rfl

end Workspace

namespace Recipe

open Workspace

variable {r : Recipe} {s : Scanned} {p : Project} {dsl : Dsl} {base : DependencyGraph}
    {path text : String}

/-- More declarations of the dependency bring no more targets. -/
theorem mem_plan_of_adds {file file' : SourceFile} {t : Target}
    (hadds : Declaration.Adds r.coordinate file.declarations file'.declarations)
    (h : t ∈ (r.plan (marked p dsl base file') s).targets) :
    t ∈ (r.plan (marked p dsl base file) s).targets := by
  obtain ⟨-, project, accumulated, g, name, hproject, hused, haccumulated, hgraph, hname, ht⟩ :=
    mem_plan.mp h
  obtain rfl : Project.graphWith base file'.declarations = g :=
    Option.some.inj (graph?_marked.symm.trans hgraph)
  rw [project?_marked] at hproject
  exact mem_plan.mpr ⟨isBuildScript_marked, project, accumulated, _, name, hproject, hused,
    haccumulated, graph?_marked,
    mem_targetConfigurations_of_adds hadds.keeps hadds.only hname, ht⟩

/-- A build file that is loaded from the text that a visit left it with is left alone by the
next. -/
theorem visited_reloaded (hmade : r.IsMade)
    (hparsed : ∀ n ∈ (SourceFile.parse path text).statements, n.isParsed = true)
    (htidy : (SourceFile.parse path text).isTidy true = true)
    (hplain : r.IsPlain (marked p dsl base (SourceFile.parse path text)).graph?)
    (hnames : ∀ t ∈ (r.plan (marked p dsl base (SourceFile.parse path text)) s).targets,
      Lexeme.isIdentifier t.configuration = true)
    {again : SourceFile}
    (hagain : again =
      SourceFile.parse path (r.visited s (marked p dsl base (SourceFile.parse path text))).print) :
    (∀ blocksOnly, again.suites blocksOnly = (SourceFile.parse path text).suites blocksOnly) ∧
      r.visited s (marked p dsl base again) = marked p dsl base again := by
  have horderly := (SourceFile.IsRead.parsed path text
    (marked p dsl base (SourceFile.parse path text)).head
      (marked p dsl base (SourceFile.parse path text)).markers).orderly htidy
  obtain hsame | ⟨-, hvisited, hedited⟩ := visited_cases hmade hplain horderly hnames
  · rw [hsame, print_marked, SourceFile.print_of_parse] at hagain
    subst hagain
    exact ⟨fun _ => rfl, hsame⟩
  · obtain ⟨row, hreadable⟩ := SourceFile.exists_readable hparsed
    have hmarked : (marked p dsl base (SourceFile.parse path text)).Readable row :=
      ⟨hreadable.scan, hreadable.lead, hreadable.spelled, hreadable.tail, hreadable.parsed⟩
    obtain ⟨row', hreadable'⟩ := readable_edit (hplain.writesPlainly hnames) horderly hmarked
    -- The text is read back as the edited tree, but for the identities of its nodes.
    have hbare := (hreadable'.reread path).1
    rw [← hvisited, ← hagain] at hbare
    have hadds : Declaration.Adds r.coordinate
        (SourceFile.parse path text).declarations again.declarations := by
      rw [SourceFile.declarations_of_bare hbare, hvisited]
      exact hedited.adds
    constructor
    · intro blocksOnly
      rw [SourceFile.suites_of_bare hbare, hvisited]
      exact hedited.suites blocksOnly
    · have hsettled : (r.edit s (marked p dsl base again)).1 = marked p dsl base again := by
        apply edit_of_settled
        intro t ht
        have hbefore := hedited.settled t (mem_plan_of_adds hadds ht)
        rw [← hvisited] at hbefore
        exact hbefore.of_bare hbare
      rw [visited_eq_edit, hsettled]

/-- Running a recipe on a project, loading the project from the text that the run gave its build
file and running the recipe again leaves the build file with that text, and as it was loaded. -/
theorem run_reloaded_keeps_text {r : Recipe} {p : Project} {path text : String} {dsl : Dsl}
    {sources : List Member}
    {f : SourceFile} {ctx ctx' again : Context} {result : RunResult} (hmade : r.IsMade)
    (hparsed : ∀ n ∈ (SourceFile.parse path text).statements, n.isParsed = true)
    (htidy : (SourceFile.parse path text).isTidy true = true)
    (hload : buildScript sources ⟨p, SourceFile.parse path text, some dsl⟩ dsl = .ok f)
    (hplain : r.IsPlain f.graph?)
    (hnames : ∀ t ∈ (r.plan f (r.scan (f :: sources.map Member.file))).targets,
      Lexeme.isIdentifier t.configuration = true)
    (hrun : r.run (f :: sources.map Member.file) ctx = (.ok result, ctx'))
    (hagain : again.cancelled = false) :
    ∃ edited others, result.results = ⟨f, edited⟩ :: others ∧
      ∃ f', buildScript sources ⟨p, SourceFile.parse path edited.print, some dsl⟩ dsl = .ok f' ∧
        f'.print = edited.print ∧
        ∃ others' warnings, r.run (f' :: sources.map Member.file) again =
          (.ok ⟨⟨f', f'⟩ :: others', warnings⟩, { again with warnings := [] }) := by
  rw [buildScript_eq] at hload
  cases hbase : p.baseGraph (SourceFile.parse path text) (sourceSets sources p) with
  | error e =>
    rw [hbase] at hload
    cases hload
  | ok base =>
    rw [hbase] at hload
    obtain rfl : marked p dsl base (SourceFile.parse path text) = f := Except.ok.inj hload
    have hresults := results_of_run hrun
    rw [List.map_cons] at hresults
    generalize hscan : r.scan (marked p dsl base (SourceFile.parse path text) ::
      sources.map Member.file) = s at hnames hresults
    generalize hagain' : SourceFile.parse path
      (r.visited s (marked p dsl base (SourceFile.parse path text))).print = file
    obtain ⟨hsuites, hfixed⟩ := visited_reloaded hmade hparsed htidy hplain hnames hagain'.symm
    -- The suites are the old ones, and so are the facts of the second scan.
    have hscan' : r.scan (marked p dsl base file :: sources.map Member.file) = s := by
      rw [← hscan, scan, scan, List.foldl_cons, List.foldl_cons, scanFile_marked (hsuites true)]
    refine ⟨_, _, hresults, marked p dsl base file, ?_, ?_, ?_⟩
    · rw [hagain', buildScript_eq, baseGraph_congr (hsuites false), hbase]
      rfl
    · rw [print_marked, ← hagain', SourceFile.print_of_parse]
    · obtain ⟨warnings, hrun'⟩ :=
        run_of_not_cancelled hagain r (marked p dsl base file :: sources.map Member.file) [] []
      rw [hscan', List.map_cons, hfixed] at hrun'
      exact ⟨_, warnings, hrun'⟩

def plainProject : Project := ⟨"p", "", none⟩

def plainSource : Member :=
  ⟨plainProject, (SourceFile.verbatim "src/main/java/A.java" "class A").withMarkers [.project "p",
    .sourceSet "main"], none⟩

def loadPlain (text : String) : Except Error SourceFile :=
  buildScript [plainSource] ⟨plainProject, SourceFile.parse "build.gradle" text,
    some .groovy⟩ .groovy

theorem loadPlain_eq (text : String) :
    loadPlain text = .ok
      (marked plainProject .groovy (DependencyGraph.java (sourceSets [plainSource] plainProject ++
      (SourceFile.parse "build.gradle" text).suites false))
        (SourceFile.parse "build.gradle" text)) := by
  rw [loadPlain, buildScript_eq, Project.baseGraph_of_undescribed rfl, Except.map]

theorem run_reloaded_keeps_grown_block :
    ∃ f, loadPlain "dependencies \x7b \x7d" = .ok f ∧
      (sample.plan f (sample.scan [f, plainSource.file])).targets =
        [⟨"implementation", .topLevel⟩] ∧
      ∃ result, (sample.run [f, plainSource.file] {}).1 = .ok result ∧
        ∃ edited others, result.results = ⟨f, edited⟩ :: others ∧
          ∃ f', loadPlain edited.print = .ok f' ∧ f'.print = edited.print ∧
            ∃ others' warnings, sample.run [f', plainSource.file] {} =
              (.ok ⟨⟨f', f'⟩ :: others', warnings⟩, {}) := by
  have htargets : (loadPlain "dependencies \x7b \x7d").toOption.any (fun f =>
      (sample.plan f (sample.scan [f, plainSource.file])).targets =
        [⟨"implementation", .topLevel⟩]) = true := by
    decide +kernel
  have hload := loadPlain_eq "dependencies \x7b \x7d"
  generalize marked plainProject .groovy _ _ = f at hload
  rw [hload] at htargets
  simp only [Except.toOption, Option.any_some, decide_eq_true_eq] at htargets
  obtain ⟨warnings, hrun⟩ := @run_of_not_cancelled {} rfl sample [f, plainSource.file] [] []
  refine ⟨f, hload, htargets, _, congrArg Prod.fst hrun, ?_⟩
  refine run_reloaded_keeps_text isMade_sample ?_ ?_ hload (isPlain_sample _) ?_ hrun rfl
  · decide +kernel
  · decide +kernel
  · exact htargets ▸ by decide

/-- The end of a comment in front of an assigned block is taken for indentation here, too. What is
written behind it is read as no declaration when the project is loaded again. -/
theorem run_reloaded_changes_assigned_block :
    (∀ n ∈ (SourceFile.parse "build.gradle" "x = /* a\n b */ dependencies \x7b \x7d").statements,
      n.isParsed = true) ∧
      (SourceFile.parse "build.gradle" "x = /* a\n b */ dependencies \x7b \x7d").isTidy false =
        true ∧
      sample.IsMade ∧ (∀ g, sample.IsPlain g) ∧
      (loadPlain "x = /* a\n b */ dependencies \x7b \x7d").toOption.any (fun f =>
        (sample.plan f (sample.scan [f, plainSource.file])).targets =
          [⟨"implementation", .topLevel⟩] &&
        (sample.run [f, plainSource.file] {}).1.toOption.any fun result =>
          result.results.head?.any fun first =>
          (loadPlain first.after.print).toOption.any fun f' =>
            (sample.run [f', plainSource.file] {}).1.toOption.any fun again =>
              again.results.head?.any fun second =>
              second.after.print ≠ first.after.print) = true :=
  ⟨by decide +kernel, by decide +kernel, isMade_sample, isPlain_sample, by decide +kernel⟩

end Recipe

end BuildScript
