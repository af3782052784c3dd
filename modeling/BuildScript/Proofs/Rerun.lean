import BuildScript.Proofs.Declaring
import BuildScript.Proofs.Lossless
import BuildScript.Proofs.Visits

/-!
# Running a recipe twice

A run settles all targets of its plan, and leaves what the scan and the plan look at as it is. A
second run on its results has the same plan, although the dependency graphs know nothing of the new
declarations, and finds every target settled.
-/

namespace BuildScript

/-- A file that was read, under any name and with any markers. -/
inductive SourceFile.IsRead : SourceFile → Prop
  | parsed (path text : String) (head : Head) (markers : List Marker) :
      IsRead { SourceFile.parse path text with head, markers }
  | verbatim (path text : String) (head : Head) (markers : List Marker) :
      IsRead { SourceFile.verbatim path text with head, markers }

/-- Behind the last line break in front of a statement there are only blanks. With `values` this is
also so in front of `dependencies` blocks that are assigned. -/
def SourceFile.isTidy (values : Bool) (f : SourceFile) : Bool :=
  f.statements.all fun s => isIndented s.lead && s.every (Node.isTidy values)

theorem SourceFile.IsRead.placed {f : SourceFile} (h : f.IsRead) :
    ∀ s ∈ f.statements, s.every Node.isPlaced = true ∧ s.isNamed = false ∧ s.isClosure = false := by
  intro s hs
  cases h with
  | parsed path text head markers =>
    have hspelled := Node.spelled_parseScript text
    exact ⟨hspelled.isPlaced s hs, hspelled.statements_isNamed_isClosure s hs⟩
  | verbatim path text head markers =>
    have hraw : s = .raw (Head.new 1 "") text := by
      simp only [SourceFile.verbatim, SourceFile.new] at hs
      split_ifs at hs
      · cases hs
      · exact List.mem_singleton.mp hs
    subst hraw
    exact ⟨rfl, rfl, rfl⟩

theorem SourceFile.IsRead.orderly {f : SourceFile} (h : f.IsRead) (htidy : f.isTidy true = true) :
    ∀ s ∈ f.statements, s.Orderly := by
  intro s hs
  simp only [isTidy, List.all_eq_true, Bool.and_eq_true] at htidy
  obtain ⟨hindented, htidy'⟩ := htidy s hs
  obtain ⟨hplaced, hnamed, -⟩ := h.placed s hs
  exact ⟨hindented, htidy', hplaced, hnamed⟩

namespace Node

theorem quote?_eq {source : String} {quote : Char} (h : quote? source = some quote) :
    quote = '"' ∨ quote = '\'' := by
  unfold quote? at h
  split at h
  · split_ifs at h with hquote
    simp only [Bool.or_eq_true, decide_eq_true_eq, Option.some.injEq] at hquote h
    exact h ▸ hquote
  · cases h

/-- A finder only keeps quotes. -/
theorem quoteFinder_reads :
    quoteFinder.Reads fun found => ∀ quote ∈ found, quote = '"' ∨ quote = '\'' where
  same := by
    intro above n found _ other hother
    cases found with
    | some quote => exact (Option.some.inj hother).symm
    | none =>
      cases n with
      | literal h value source => exact (Option.some.inj hother).symm
      | _ => cases hother
  holds := by
    intro above n found hfound
    cases found with
    | some quote => exact hfound
    | none =>
      cases n with
      | literal h value source =>
        intro quote hquote
        cases value with
        | string text => exact quote?_eq hquote
        | _ => cases hquote
      | _ => exact hfound

end Node

/-- The quotes that a new statement is written with. -/
theorem SourceFile.firstQuote?_getD (f : SourceFile) :
    f.firstQuote?.getD '"' = '"' ∨ f.firstQuote?.getD '"' = '\'' := by
  obtain ⟨hvisit, hquotes⟩ := Node.quoteFinder_reads.visit_file (s := none) f (by rintro quote ⟨⟩)
  rw [firstQuote?, hvisit]
  cases hquote : Node.quoteFinder.afterAll [] f.statements none with
  | none => exact Or.inl rfl
  | some quote => exact hquotes quote hquote

inductive Edited (coordinate : Coordinate) : List Target → SourceFile → SourceFile → Prop
  | nil (f : SourceFile) : Edited coordinate [] f f
  | cons {t : Target} {targets : List Target} {f f' f'' : SourceFile} {text : String}
      {dependency : Dependency} (is : dependency.toCoordinate = coordinate)
      (writes : Recipe.Writes t.declared dependency text) (plain : t.IsPlain)
      (step : Declared coordinate text t f f') (rest : Edited coordinate targets f' f'') :
      Edited coordinate (t :: targets) f f''

namespace Edited

variable {coordinate : Coordinate} {targets : List Target} {f f' : SourceFile}

theorem markers (h : Edited coordinate targets f f') :
    f'.path = f.path ∧ f'.markers = f.markers := by
  induction h with
  | nil f => exact ⟨rfl, rfl⟩
  | cons is writes plain step rest ih =>
    exact ⟨ih.1.trans step.markers.1, ih.2.trans step.markers.2⟩

theorem suites (h : Edited coordinate targets f f') (blocksOnly : Bool) :
    f'.suites blocksOnly = f.suites blocksOnly := by
  induction h with
  | nil f => rfl
  | cons is writes plain step rest ih => exact ih.trans (step.suites writes plain blocksOnly)

theorem keeps_settled (h : Edited coordinate targets f f') {other : Target}
    (hsettled : Settled coordinate other f.statements) :
    Settled coordinate other f'.statements := by
  induction h with
  | nil f => exact hsettled
  | cons is writes plain step rest ih => exact ih (step.keeps_settled writes hsettled)

/-- In the end every target is settled. -/
theorem settled (h : Edited coordinate targets f f') :
    ∀ t ∈ targets, Settled coordinate t f'.statements := by
  induction h with
  | nil f => simp
  | cons is writes plain step rest ih =>
    rw [List.forall_mem_cons]
    exact ⟨rest.keeps_settled (step.settled writes is), ih⟩

end Edited

namespace Recipe

variable {r : Recipe} {f f' : SourceFile} {s : Scanned} {t : Target} {targets : List Target}
    {dependency : Dependency}

def declareAll (r : Recipe) (text : Target → String) (targets : List Target) (f : SourceFile) :
    SourceFile :=
  targets.foldl (fun f t => r.declare (text t) f t) f

theorem edited_declareAll {text : Target → String}
    (hdependency : dependency.toCoordinate = r.coordinate)
    (hwrites : ∀ t ∈ targets, Writes t.declared dependency (text t))
    (hplain : ∀ t ∈ targets, t.IsPlain) (horderly : ∀ s ∈ f.statements, s.Orderly) :
    Edited r.coordinate targets f (r.declareAll text targets f) := by
  induction targets generalizing f with
  | nil => exact .nil f
  | cons t targets ih =>
    rw [List.forall_mem_cons] at hwrites hplain
    obtain ⟨written, hphrases, -⟩ := hwrites.1
    have hstep := @declared_declare r t f (text t) written horderly hphrases
    exact .cons hdependency hwrites.1 hplain.1 hstep
      (ih hwrites.2 hplain.2 (hstep.orderly hphrases horderly))

theorem declareAll_of_settled {text : Target → String}
    (h : ∀ t ∈ targets, Settled r.coordinate t f.statements) :
    r.declareAll text targets f = f := by
  induction targets with
  | nil => rfl
  | cons t targets ih =>
    rw [List.forall_mem_cons] at h
    rw [declareAll, List.foldl_cons, declare_of_settled h.1]
    exact ih h.2

def statementFor (r : Recipe) (f : SourceFile) (version : Option String) (t : Target) : String :=
  statement f.dsl (f.firstQuote?.getD '"') t.declared (r.written version)

/-- An edit writes the declarations of its plan. Without a version it warns about each of them. -/
theorem edit_eq (r : Recipe) (s : Scanned) (f : SourceFile) :
    r.edit s f =
      match r.version f.graph? with
      | .ok version => (r.declareAll (r.statementFor f version) (r.plan f s).targets f, [])
      | .error e => (f, (r.plan f s).targets.map fun t => r.unresolved f t e) := by
  unfold edit
  cases hversion : r.version f.graph? with
  | ok version =>
    suffices h : ∀ targets edited warnings, List.foldl (fun (p : SourceFile × List Warning) t =>
        (r.declare (r.statementFor f version t) p.1 t, p.2)) (edited, warnings) targets =
          (r.declareAll (r.statementFor f version) targets edited, warnings) from h _ f []
    intro targets
    induction targets with
    | nil => intro edited warnings; rfl
    | cons t targets ih => exact fun edited warnings => ih _ _
  | error e =>
    suffices h : ∀ targets edited warnings, List.foldl (fun (p : SourceFile × List Warning) t =>
        (p.1, p.2 ++ [r.unresolved f t e])) (edited, warnings) targets =
          (edited, warnings ++ targets.map fun t => r.unresolved f t e) from h _ f []
    intro targets
    induction targets with
    | nil => exact fun edited warnings => by rw [List.map_nil, List.append_nil]; rfl
    | cons t targets ih =>
      intro edited warnings
      rw [List.foldl_cons, ih, List.append_assoc, List.map_cons]
      rfl

/-- A target of a plan is a target configuration of the project's graph, in its place. -/
theorem mem_plan :
    t ∈ (r.plan f s).targets ↔
      f.isBuildScript = true ∧ ∃ project accumulated g name, f.project? = some project ∧
      (r.options.onlyIfUsing.isSome && !(s.usingType.get? project).getD false) = false ∧
      s.configurations.get? project = some accumulated ∧ f.graph? = some g ∧
      name ∈ r.targetConfigurations g accumulated.names ∧
      t = ⟨name,
          (suitePlacement? name ((s.suites.get? project).getD .empty).names).getD .topLevel⟩ := by
  constructor
  · intro h
    unfold plan at h
    split_ifs at h with hbuild
    · cases h
    · split at h
      · cases h
      · rename_i project hproject
        split_ifs at h with hused
        · cases h
        · split at h
          · cases h
          · cases h
          · rename_i accumulated g haccumulated hgraph
            split at h
            · split_ifs at h <;> cases h
            · obtain ⟨name, hname, rfl⟩ := List.mem_map.mp h
              exact ⟨by simpa using hbuild, project, accumulated, g, name, hproject,
                by simpa using hused, haccumulated,
                hgraph, hname, rfl⟩
  · rintro ⟨hbuild, project, accumulated, g, name, hproject, hused, haccumulated,
      hgraph, hname, rfl⟩
    simp only [plan, hbuild, hproject, hused, haccumulated, hgraph]
    cases htargets : r.targetConfigurations g accumulated.names with
    | nil =>
      rw [htargets] at hname
      cases hname
    | cons target targets =>
      rw [htargets] at hname
      exact List.mem_map_of_mem hname

/-- Inside a suite a configuration has one of four names. -/
theorem placement_of_mem_plan (h : t ∈ (r.plan f s).targets) :
    t.placement = .topLevel ∨ ∃ suite inside, t.placement = .suite suite inside ∧
      inside ∈ suiteSuffixes.map Prod.snd := by
  have hsuite : ∀ name suites placement, suitePlacement? name suites = some placement →
      ∃ suite inside, placement = .suite suite inside ∧ inside ∈ suiteSuffixes.map Prod.snd := by
    intro name suites placement hplacement
    unfold suitePlacement? at hplacement
    split_ifs at hplacement
    obtain ⟨pair, hpair, hfound⟩ := List.exists_of_findSome?_eq_some hplacement
    simp only [Option.bind_eq_bind, Option.bind_eq_some_iff] at hfound
    obtain ⟨stem, -, hfound⟩ := hfound
    split_ifs at hfound
    exact ⟨_, pair.2, (Option.some.inj hfound).symm, List.mem_map_of_mem hpair⟩
  obtain ⟨-, project, accumulated, g, name, -, -, -, -, -, rfl⟩ := mem_plan.mp h
  generalize ((s.suites.get? project).getD .empty).names = suites
  cases hplacement : suitePlacement? name suites with
  | none => exact Or.inl rfl
  | some placement => exact Or.inr (hsuite name suites placement hplacement)

theorem isPlain_of_mem_plan (h : t ∈ (r.plan f s).targets) : t.IsPlain := by
  have hnames : ∀ name ∈ suiteSuffixes.map Prod.snd, simpleName name ≠ "dependencies" := by decide
  obtain hplacement | ⟨suite, inside, hplacement, hinside⟩ := placement_of_mem_plan h
  · exact Or.inl (by simp [Target.scope, hplacement])
  · exact Or.inr (by simpa [Target.declared, hplacement] using hnames inside hinside)

theorem isIdentifier_declared (h : t ∈ (r.plan f s).targets)
    (hname : Lexeme.isIdentifier t.configuration = true) :
    Lexeme.isIdentifier t.declared = true := by
  have hnames : ∀ name ∈ suiteSuffixes.map Prod.snd, Lexeme.isIdentifier name = true := by decide
  obtain hplacement | ⟨suite, inside, hplacement, hinside⟩ := placement_of_mem_plan h
  · simpa [Target.declared, hplacement] using hname
  · simpa [Target.declared, hplacement] using hnames inside hinside

/-- What the statements of a plain recipe declare. -/
theorem writes_statementFor (hmade : r.IsMade) (hplain : r.IsPlain f.graph?)
    {version : Option String} (hversion : r.version f.graph? = .ok version) :
    ∃ dependency : Dependency, dependency.toCoordinate = r.coordinate ∧
      ∀ t, Lexeme.isIdentifier t.declared = true →
        Writes t.declared dependency (r.statementFor f version t) := by
  obtain ⟨found, hparse⟩ := parse_written hmade hplain.group hplain.artifact version
  exact ⟨⟨r.coordinate, found⟩, rfl, fun t hname =>
    ⟨_, .mk hname (SourceFile.firstQuote?_getD _) (hplain.written hversion), hparse⟩⟩

theorem isBuildScript_congr (hpath : f'.path = f.path) (hmarkers : f'.markers = f.markers) :
    f'.isBuildScript = f.isBuildScript := by
  simp only [SourceFile.isBuildScript, SourceFile.dsl?, hpath, hmarkers]

theorem project?_congr (hmarkers : f'.markers = f.markers) : f'.project? = f.project? := by
  rw [SourceFile.project?, SourceFile.project?, hmarkers]

theorem graph?_congr (hmarkers : f'.markers = f.markers) : f'.graph? = f.graph? := by
  rw [SourceFile.graph?, SourceFile.graph?, hmarkers]

theorem plan_congr (hpath : f'.path = f.path) (hmarkers : f'.markers = f.markers) (r : Recipe)
    (s : Scanned) :
    r.plan f' s = r.plan f s := by
  unfold plan
  rw [isBuildScript_congr hpath hmarkers, project?_congr hmarkers, graph?_congr hmarkers]

/-- An edit settles the targets of its plan or changes nothing. -/
theorem edit_cases (hmade : r.IsMade) (hplain : r.IsPlain f.graph?)
    (horderly : ∀ s ∈ f.statements, s.Orderly)
    (hnames : ∀ t ∈ (r.plan f s).targets, Lexeme.isIdentifier t.configuration = true) :
    (∃ e, r.version f.graph? = .error e ∧ (r.edit s f).1 = f) ∨
      Edited r.coordinate (r.plan f s).targets f (r.edit s f).1 := by
  rw [edit_eq]
  cases hversion : r.version f.graph? with
  | error e => exact Or.inl ⟨e, rfl, rfl⟩
  | ok version =>
    obtain ⟨dependency, hdependency, hwrites⟩ := writes_statementFor hmade hplain hversion
    refine Or.inr (edited_declareAll hdependency ?_ (fun t ht => isPlain_of_mem_plan ht) horderly)
    exact fun t ht => hwrites t (isIdentifier_declared ht (hnames t ht))

/-- A file in which the targets are settled is not edited. -/
theorem edit_of_settled (h : ∀ t ∈ (r.plan f s).targets, Settled r.coordinate t f.statements) :
    (r.edit s f).1 = f := by
  rw [edit_eq]
  split
  · exact declareAll_of_settled h
  · rfl

/-- What a run leaves as it is in a file, or the file itself. -/
theorem visitFile_cases (hmade : r.IsMade) (hplain : r.IsPlain f.graph?)
    (horderly : ∀ s ∈ f.statements, s.Orderly)
    (hnames : ∀ t ∈ (r.plan f s).targets, Lexeme.isIdentifier t.configuration = true) :
    (Run.visitFile r s f).1 = f ∨
      f.isBuildScript = true ∧ (Run.visitFile r s f).1 = (r.edit s f).1 ∧
        Edited r.coordinate (r.plan f s).targets f (r.edit s f).1 := by
  unfold Run.visitFile
  split_ifs with hgated
  · exact Or.inl rfl
  · obtain ⟨e, -, hsame⟩ | hedited := edit_cases hmade hplain horderly hnames
    · exact Or.inl hsame
    · simp only [Run.isGated, Bool.not_eq_true', Bool.not_eq_false, Bool.and_eq_true] at hgated
      exact Or.inr ⟨hgated.1, rfl, hedited⟩

theorem scanFile_congr (hproject : f'.project? = f.project?)
    (hsourceSet : f'.sourceSet? = f.sourceSet?) (hsuites : f'.suites true = f.suites true)
    (hbuild' : f'.isBuildScript = true) (hbuild : f.isBuildScript = true) (s : Scanned) :
    r.scanFile s f' = r.scanFile s f := by
  have huse : r.showsUse f' = r.showsUse f := by
    unfold showsUse
    rw [hbuild', hbuild]
    rfl
  cases h : f.project? with
  | none => rw [scanFile_of_none h, scanFile_of_none (hproject.trans h)]
  | some project =>
    rw [scanFile_of_some h, scanFile_of_some (hproject.trans h), huse]
    simp only [scanConfiguration, scanSuites, hbuild', hbuild, hsuites, hsourceSet]

section Twice

variable {files : List SourceFile}

theorem visited_cases (hmade : r.IsMade) (hplain : r.IsPlain f.graph?)
    (horderly : ∀ s ∈ f.statements, s.Orderly)
    (hnames : ∀ t ∈ (r.plan f s).targets, Lexeme.isIdentifier t.configuration = true) :
    r.visited s f = f ∨
      f.isBuildScript = true ∧ r.visited s f = (r.edit s f).1 ∧
        Edited r.coordinate (r.plan f s).targets f (r.edit s f).1 := by
  unfold visited
  split_ifs with hempty
  · exact Or.inl rfl
  · exact visitFile_cases hmade hplain horderly hnames

/-- A visit to a file that was visited changes nothing. -/
theorem visited_visited (hmade : r.IsMade) (hplain : r.IsPlain f.graph?)
    (horderly : ∀ s ∈ f.statements, s.Orderly)
    (hnames : ∀ t ∈ (r.plan f s).targets, Lexeme.isIdentifier t.configuration = true) :
    r.visited s (r.visited s f) = r.visited s f := by
  obtain hsame | ⟨-, hvisited, hedited⟩ := visited_cases hmade hplain horderly hnames
  · rw [hsame, hsame]
  · have hsettled : (r.edit s (r.edit s f).1).1 = (r.edit s f).1 := by
      apply edit_of_settled
      -- The markers are the old ones, so the second visit plans for the same targets.
      rw [plan_congr hedited.markers.1 hedited.markers.2]
      exact hedited.settled
    rw [hvisited, visited_eq_edit, hsettled]

theorem scan_visited (hmade : r.IsMade) (hplain : ∀ f ∈ files, r.IsPlain f.graph?)
    (horderly : ∀ f ∈ files, ∀ s ∈ f.statements, s.Orderly)
    (hnames : ∀ f ∈ files, ∀ t ∈ (r.plan f s).targets, Lexeme.isIdentifier t.configuration = true) :
    r.scan (files.map (r.visited s)) = r.scan files := by
  unfold scan
  rw [List.foldl_map]
  apply List.foldl_ext
  intro scanned f hf
  obtain hsame | ⟨hbuild, hvisited, hedited⟩ :=
    visited_cases hmade (hplain f hf) (horderly f hf) (hnames f hf)
  · rw [hsame]
  · obtain ⟨hpath, hmarkers⟩ := hedited.markers
    rw [hvisited]
    refine scanFile_congr (project?_congr hmarkers) ?_ (hedited.suites true) ?_ hbuild scanned
    · rw [SourceFile.sourceSet?, SourceFile.sourceSet?, hmarkers]
    · rw [isBuildScript_congr hpath hmarkers, hbuild]

end Twice

/-- Running a recipe a second time, on the files that the first run gave back, changes none of
them. -/
theorem run_again_keeps_files {r : Recipe} {files : List SourceFile} {ctx ctx' again : Context}
    {result : RunResult}
    (hmade : r.IsMade) (hread : ∀ f ∈ files, f.IsRead) (htidy : ∀ f ∈ files, f.isTidy true = true)
    (hplain : ∀ f ∈ files, r.IsPlain f.graph?)
    (hnames : ∀ f ∈ files, ∀ t ∈ (r.plan f (r.scan files)).targets,
      Lexeme.isIdentifier t.configuration = true)
    (hrun : r.run files ctx = (.ok result, ctx')) (hagain : again.cancelled = false) :
    ∃ warnings, r.run (result.results.map FileResult.after) again =
      (.ok ⟨(result.results.map FileResult.after).map fun f => ⟨f, f⟩, warnings⟩,
        { again with warnings := [] }) := by
  have horderly : ∀ f ∈ files, ∀ s ∈ f.statements, s.Orderly :=
    fun f hf => (hread f hf).orderly (htidy f hf)
  have hafter : result.results.map FileResult.after = files.map (r.visited (r.scan files)) := by
    rw [results_of_run hrun, List.map_map]
    rfl
  obtain ⟨warnings, hrun'⟩ :=
    run_of_not_cancelled hagain r (files.map (r.visited (r.scan files))) [] []
  rw [scan_visited hmade hplain horderly hnames, List.map_map] at hrun'
  refine ⟨warnings, ?_⟩
  rw [hafter, hrun', List.map_map]
  have hfixed : ∀ f ∈ files,
      r.visited (r.scan files) (r.visited (r.scan files) f) = r.visited (r.scan files) f :=
    fun f hf => visited_visited hmade (hplain f hf) (horderly f hf) (hnames f hf)
  congr 3
  apply List.map_congr_left
  intro f hf
  simp only [Function.comp_apply, hfixed f hf]

theorem isRead_buildFile (script : String) : (buildFile script).IsRead :=
  .parsed "build.gradle" script _ _

theorem isMade_sample : sample.IsMade :=
  ⟨{ group := "g", artifact := "a" }, sample, .imports, Metadata.resolveCached [], rfl, rfl⟩

theorem isPlain_sample (g : Option DependencyGraph) : sample.IsPlain g where
  group := rfl
  artifact := rfl
  version := by
    intro version h
    cases h
  classifier := by
    intro classifier h
    cases h
  extension := by
    intro extension h
    cases h

theorem run_again_keeps_new_block :
    (sample.plan (buildFile "id 'x'\n") (sample.scan [buildFile "id 'x'\n"])).targets =
        [⟨"implementation", .topLevel⟩] ∧
      ∃ result, (sample.run [buildFile "id 'x'\n"] {}).1 = .ok result ∧
        ∃ warnings, sample.run (result.results.map FileResult.after) {} =
          (.ok ⟨(result.results.map FileResult.after).map fun f => ⟨f, f⟩, warnings⟩, {}) := by
  have htargets :
      (sample.plan (buildFile "id 'x'\n") (sample.scan [buildFile "id 'x'\n"])).targets =
      [⟨"implementation", .topLevel⟩] := by
    decide +kernel
  obtain ⟨warnings, hrun⟩ := @run_of_not_cancelled {} rfl sample [buildFile "id 'x'\n"] [] []
  refine ⟨htargets, _, congrArg Prod.fst hrun, ?_⟩
  refine run_again_keeps_files isMade_sample ?_ ?_ ?_ ?_ hrun rfl
  · exact List.forall_mem_singleton.mpr (isRead_buildFile _)
  · exact List.forall_mem_singleton.mpr (by decide +kernel)
  · exact fun f _ => isPlain_sample f.graph?
  · rw [List.forall_mem_singleton, htargets]
    decide

def assignedBlock : SourceFile := buildFile "x = /* a\n b */ dependencies \x7b \x7d"

/-- The end of a comment in front of an assigned block is taken for indentation. The statement
written behind it declares nothing, so the next run writes it again. -/
theorem run_again_changes_assigned_block :
    assignedBlock.IsRead ∧ assignedBlock.isTidy false = true ∧ sample.IsMade ∧
      sample.IsPlain assignedBlock.graph? ∧
      (∀ t ∈ (sample.plan assignedBlock (sample.scan [assignedBlock])).targets,
        Lexeme.isIdentifier t.configuration = true) ∧
      (sample.run [assignedBlock] {}).1.toOption.any (fun result =>
        (sample.run (result.results.map FileResult.after) {}).1.toOption.any RunResult.hasChanges) =
          true :=
  ⟨isRead_buildFile _, by decide +kernel, isMade_sample, isPlain_sample _, by decide +kernel,
    by decide +kernel⟩

end Recipe

end BuildScript
