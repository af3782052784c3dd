import BuildScript.Proofs.Schedules
import BuildScript.Proofs.Targets

/-!
# Visits

A visit leaves all files alone if the scan found nothing, and a single file unless it is a build
script of a project that was scanned. A plan asks the same questions in another order and with other
reasons. It has no target for a file that is left out, so a visit does what editing each file would
do.
-/

namespace BuildScript

theorem Scanned.isEmpty_of_contains {s : Scanned} {project : String}
    (h : s.contains project = true) :
    s.isEmpty = false := by
  rw [Bool.eq_false_iff]
  intro hempty
  rw [isEmpty, List.isEmpty_iff] at hempty
  simp [contains, Table.get?, hempty] at h

namespace Recipe

variable {r : Recipe} {s : Scanned} {f : SourceFile} {reason : SkipReason}

section Gate

/-- Nothing is planned for a file that does not pass the gate. -/
theorem exists_skip_of_isGated (r : Recipe) (h : Run.isGated s f = true) :
    ∃ reason, r.plan f s = .skip reason := by
  cases hbuild : f.isBuildScript with
  | false =>
    refine ⟨.notABuildFile, ?_⟩
    simp [plan, hbuild]
  | true =>
    cases hproject : f.project? with
    | none =>
      refine ⟨.noProject, ?_⟩
      simp [plan, hbuild, hproject]
    | some project =>
      have hfacts : s.configurations.get? project = none := by
        simpa [Run.isGated, hbuild, hproject, Scanned.contains] using h
      -- The plan looks for the type before it looks for the project.
      cases hunused : r.options.onlyIfUsing.isSome && !(s.usingType.get? project).getD false with
      | true =>
        refine ⟨.typeNotUsed, ?_⟩
        simp only [plan, hbuild, hproject, hunused]
        rfl
      | false =>
        refine ⟨.notScanned, ?_⟩
        simp only [plan, hbuild, hproject, hunused, hfacts]
        rfl

theorem isGated_of_isEmpty (h : s.isEmpty = true) (f : SourceFile) : Run.isGated s f = true := by
  cases hproject : f.project? with
  | none => simp [Run.isGated, hproject]
  | some project =>
    have hfacts : s.contains project = false := by
      by_contra hcontains
      have hsome := Scanned.isEmpty_of_contains (by simpa using hcontains)
      rw [h] at hsome
      cases hsome
    simp [Run.isGated, hproject, hfacts]

theorem edit_of_skip (h : r.plan f s = .skip reason) : r.edit s f = (f, []) := by
  rw [edit, h]
  rfl

theorem edit_of_isGated (r : Recipe) (h : Run.isGated s f = true) : r.edit s f = (f, []) := by
  obtain ⟨reason, hplan⟩ := exists_skip_of_isGated r h
  exact edit_of_skip hplan

theorem visitFile_eq_edit (r : Recipe) (s : Scanned) (f : SourceFile) :
    Run.visitFile r s f = r.edit s f := by
  unfold Run.visitFile
  split_ifs with hgated
  · exact (edit_of_isGated r hgated).symm
  · rfl

end Gate

def visited (r : Recipe) (s : Scanned) (f : SourceFile) : SourceFile :=
  if s.isEmpty then f else (Run.visitFile r s f).1

def warned (r : Recipe) (s : Scanned) (f : SourceFile) : List Warning :=
  if s.isEmpty then [] else (Run.visitFile r s f).2

theorem visited_eq_edit (r : Recipe) (s : Scanned) (f : SourceFile) :
    r.visited s f = (r.edit s f).1 := by
  unfold visited
  split_ifs with hempty
  · rw [edit_of_isGated r (isGated_of_isEmpty hempty f)]
  · rw [visitFile_eq_edit]

theorem warned_eq_edit (r : Recipe) (s : Scanned) (f : SourceFile) :
    r.warned s f = (r.edit s f).2 := by
  unfold warned
  split_ifs with hempty
  · rw [edit_of_isGated r (isGated_of_isEmpty hempty f)]
  · rw [visitFile_eq_edit]

theorem map_visited (r : Recipe) (s : Scanned) (files : List SourceFile) :
    files.map (r.visited s) = if s.isEmpty then files
      else (files.map (Run.visitFile r s)).map Prod.fst := by
  split_ifs with hempty
  · have hvisited : r.visited s = id := by
      funext f
      simp [visited, hempty]
    rw [hvisited, List.map_id]
  · rw [List.map_map]
    apply List.map_congr_left
    intro f _
    simp [visited, hempty]

theorem map_warned (r : Recipe) {s : Scanned} (h : s.isEmpty = false) (files : List SourceFile) :
    files.map (r.warned s) = (files.map (Run.visitFile r s)).map Prod.snd := by
  rw [List.map_map]
  apply List.map_congr_left
  intro f _
  simp [warned, h]

theorem noted_warned_of_isEmpty (r : Recipe) (h : s.isEmpty = true) (schedule : Schedule)
    (files : List SourceFile) :
    Run.noted schedule (files.map (r.warned s)) = [] := by
  have hnone : (files.map (r.warned s)).flatten = [] := by simp [warned, h]
  have hperm := Run.noted_perm schedule (files.map (r.warned s))
  rw [hnone] at hperm
  exact hperm.eq_nil

/-- A visit in turn treats each file on its own, unless it is cancelled before a file is looked
at. -/
theorem visit_scanned (r : Recipe) (s : Scanned) (files : List SourceFile) (ctx : Context)
    (schedule : Schedule) :
    Run.visit r ⟨.scanned, some s⟩ files ctx schedule =
      if ctx.cancelled && !files.isEmpty && !s.isEmpty then
        (.error .cancelled, ⟨.cancelled, some s⟩, ctx)
      else (.ok (files.map (r.visited s)), ⟨.done, some s⟩,
        { ctx with warnings := ctx.warnings ++ Run.noted schedule (files.map (r.warned s)) }) := by
  cases hempty : s.isEmpty with
  | true => simp [Run.visit, hempty, map_visited, noted_warned_of_isEmpty r hempty]
  | false =>
    simp only [Run.visit, hempty, map_visited, map_warned r hempty, Bool.false_eq_true, if_false,
      Bool.not_false, Bool.and_true]
    obtain hcancelled | hgoes := Bool.eq_false_or_eq_true ctx.cancelled
    · cases files with
      | nil => simp [Run.visiting, Run.noted]
      | cons f files =>
        rw [Run.visiting_of_cancelled hcancelled _ _ _ (by simp), hcancelled]
        rfl
    · rw [Run.visiting_of_not_cancelled hgoes, Run.noted, List.map_map]
      simp [hgoes, Function.comp_def, Run.visits]

def buildFile (script : String) : SourceFile :=
  (SourceFile.parse "build.gradle" script).withMarkers
    [.project "p", .buildFile .groovy, .graph (DependencyGraph.java [])]

def sample : Recipe := ofCoordinate ⟨"g", "a"⟩

/-- A visit gives back each file as an edit with the facts of the scan leaves it, whichever files
were scanned and whatever the schedules. It leaves the warnings of these edits, those of each file
in their order, and in the order of the files if one is visited after the other. The files that it
does not look at are among those without a plan, and these come back as they are and leave no
warning. -/
theorem visit_edits_each_file (r : Recipe) (known files : List SourceFile) {before ctx : Context}
    (hscan : before.cancelled = false) (hvisit : ctx.cancelled = false) (scans visits : Schedule) :
    ∃ run noted, Run.start.scan r known before scans = (.ok (), run) ∧
      run.scanned = some (r.scan known) ∧
      run.visit r files ctx visits = (.ok (files.map fun f => (r.edit (r.scan known) f).1),
        { run with state := .done }, { ctx with warnings := ctx.warnings ++ noted }) ∧
      Run.Notes (fun f => (r.edit (r.scan known) f).2) files visits noted ∧
      (∀ f, (r.scan known).isEmpty = true ∨ Run.isGated (r.scan known) f = true →
        ∃ reason, r.plan f (r.scan known) = .skip reason) ∧
      ∀ f reason, r.plan f (r.scan known) = .skip reason → r.edit (r.scan known) f = (f, []) := by
  have hscanned := @Run.scan_of_not_cancelled Run.start before rfl hscan r known scans
  have hgoes : (ctx.cancelled && !files.isEmpty && !(r.scan known).isEmpty) = false := by
    rw [hvisit, Bool.false_and, Bool.false_and]
  have hvisited := visit_scanned r (r.scan known) files ctx visits
  rw [hgoes, if_neg Bool.false_ne_true, funext (visited_eq_edit r (r.scan known)),
    funext (warned_eq_edit r (r.scan known))] at hvisited
  refine ⟨_, _, hscanned, rfl, hvisited, Run.notes_noted _ files visits, ?_,
    fun f reason hplan => edit_of_skip hplan⟩
  rintro f (hempty | hgated)
  · exact exists_skip_of_isGated r (isGated_of_isEmpty hempty f)
  · exact exists_skip_of_isGated r hgated

/-- The file of another project has no facts, although something was found. -/
theorem visit_edits_each_file_of_other_project :
    let known := [buildFile ""]
    let other := (SourceFile.parse "build.gradle" "").withMarkers
      [.project "q", .buildFile .groovy, .graph (DependencyGraph.java [])]
    (sample.scan known).isEmpty = false ∧ Run.isGated (sample.scan known) other = true ∧
      Run.isGated (sample.scan known) (buildFile "") = false ∧
      ∃ run, Run.start.scan sample known {} = (.ok (), run) ∧
        run.scanned = some (sample.scan known) ∧
        (run.visit sample [other, buildFile ""] {} [1]).1 =
          .ok [other, (sample.edit (sample.scan known) (buildFile "")).1] := by
  intro known other
  refine ⟨by decide +kernel, by decide +kernel, by decide +kernel, ?_⟩
  obtain ⟨run, noted, hscan, hscanned, hvisit, -, hgated, hskip⟩ :=
    @visit_edits_each_file sample known [other, buildFile ""] {} {} rfl rfl [] [1]
  obtain ⟨reason, hplan⟩ := hgated other (.inr (by decide +kernel))
  refine ⟨run, hscan, hscanned, ?_⟩
  rw [hvisit, List.map_cons, hskip other reason hplan, List.map_singleton]

section Runs

theorem run_of_cancelled {ctx : Context} (h : ctx.cancelled = true) (r : Recipe)
    (files : List SourceFile) (scans visits : Schedule) :
    r.run files ctx scans visits = (.error .cancelled, ctx) := by
  rw [run, Run.scan_of_cancelled rfl h]

theorem zip_visited (files : List SourceFile) (g : SourceFile → SourceFile) :
    ((files.zip (files.map g)).map fun (before, after) => (⟨before, after⟩ : FileResult)) =
      files.map fun f => ⟨f, g f⟩ := by
  induction files with
  | nil => rfl
  | cons f files ih => rw [List.map_cons, List.zip_cons_cons, List.map_cons, ih, List.map_cons]

/-- A run that is not cancelled succeeds. -/
theorem run_eq {ctx : Context} (h : ctx.cancelled = false) (r : Recipe) (files : List SourceFile)
    (scans visits : Schedule) :
    r.run files ctx scans visits =
      (.ok ⟨files.map fun f => ⟨f, r.visited (r.scan files) f⟩,
        ctx.warnings ++ Run.noted visits (files.map (r.warned (r.scan files)))⟩,
          { ctx with warnings := [] }) := by
  have hscan := @Run.scan_of_not_cancelled Run.start ctx rfl h r files scans
  have hvisit := visit_scanned r (r.scan files) files ctx visits
  rw [h, Bool.false_and, Bool.false_and, if_neg Bool.false_ne_true] at hvisit
  simp only [run, hscan, hvisit, Context.takeWarnings, zip_visited, h]

theorem run_of_not_cancelled {ctx : Context} (h : ctx.cancelled = false) (r : Recipe)
    (files : List SourceFile) (scans visits : Schedule) :
    ∃ warnings, r.run files ctx scans visits =
      (.ok ⟨files.map fun f => ⟨f, r.visited (r.scan files) f⟩, warnings⟩,
        { ctx with warnings := [] }) :=
  ⟨_, run_eq h r files scans visits⟩

theorem eq_of_run {files : List SourceFile} {ctx ctx' : Context} {scans visits : Schedule}
    {result : RunResult} (h : r.run files ctx scans visits = (.ok result, ctx')) :
    result = ⟨files.map fun f => ⟨f, r.visited (r.scan files) f⟩,
      ctx.warnings ++ Run.noted visits (files.map (r.warned (r.scan files)))⟩ := by
  cases hcancelled : ctx.cancelled with
  | true =>
    rw [run_of_cancelled hcancelled] at h
    cases h
  | false =>
    rw [run_eq hcancelled] at h
    cases h
    rfl

theorem results_of_run {files : List SourceFile} {ctx ctx' : Context} {scans visits : Schedule}
    {result : RunResult} (h : r.run files ctx scans visits = (.ok result, ctx')) :
    result.results = files.map fun f => ⟨f, r.visited (r.scan files) f⟩ :=
  congrArg RunResult.results (eq_of_run h)

end Runs

end Recipe

end BuildScript
