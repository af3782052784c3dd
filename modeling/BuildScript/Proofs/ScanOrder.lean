import BuildScript.Proofs.Tables
import BuildScript.Recipe.Scan

/-!
# What a scan finds

The scan goes through the files one after another. What it ends with is said here for the files as a
whole, project by project, so it does not depend on the order in which they come.
-/

namespace BuildScript

open Table (tabulate)

namespace Recipe

variable {r : Recipe} {files : List SourceFile} {file : SourceFile} {project : String}

def projectsOf (files : List SourceFile) : NameSet := .ofList (files.filterMap SourceFile.project?)

def filesOf (files : List SourceFile) (project : String) : List SourceFile :=
  files.filter fun file => file.project? = some project

def usesType (r : Recipe) (file : SourceFile) : Bool := r.typePattern.any (r.usage.uses file)

def usingTypeIn (r : Recipe) (files : List SourceFile) : Bool :=
  r.options.onlyIfUsing.isNone || files.any fun file => !file.isBuildScript && r.usesType file

def configurationsIn (files : List SourceFile) : NameSet :=
  .ofList ((files.filterMap SourceFile.sourceSet?).map implementationConfiguration)

def suitesIn (scripts : List SourceFile) : NameSet :=
  .ofList (scripts.flatMap fun script => script.suites true)

def report (r : Recipe) (files : List SourceFile) : Scanned :=
  let scripts := files.filter SourceFile.isBuildScript
  { usingType := tabulate (projectsOf files) fun project => r.usingTypeIn (filesOf files project)
    configurations :=
      tabulate (projectsOf files) fun project => configurationsIn (filesOf files project)
    suites := tabulate (projectsOf scripts) fun project => suitesIn (filesOf scripts project) }

theorem mem_projectsOf :
    project ∈ (projectsOf files).names ↔ ∃ file ∈ files, file.project? = some project := by
  rw [projectsOf, NameSet.mem_ofList, List.mem_filterMap]

theorem filesOf_eq_nil (h : project ∉ (projectsOf files).names) : filesOf files project = [] := by
  apply List.filter_eq_nil_iff.mpr
  intro file hfile hproject
  exact h (mem_projectsOf.mpr ⟨file, hfile, of_decide_eq_true hproject⟩)

theorem projectsOf_append (h : file.project? = some project) :
    projectsOf (files ++ [file]) = (projectsOf files).insertAll [project] := by
  have hlast : [file].filterMap SourceFile.project? = [project] := by simp [h]
  rw [projectsOf, List.filterMap_append, hlast, NameSet.ofList_append]
  rfl

theorem filesOf_append (h : file.project? = some project) :
    filesOf (files ++ [file]) project = filesOf files project ++ [file] := by
  simp [filesOf, h]

theorem filesOf_append_of_ne {other : String} (h : file.project? ≠ some other) :
    filesOf (files ++ [file]) other = filesOf files other := by
  simp [filesOf, h]

/-- The file shows that its project uses the type; build scripts do not count. -/
def showsUse (r : Recipe) (file : SourceFile) : Bool :=
  r.options.onlyIfUsing.isNone || (!file.isBuildScript && r.usesType file)

/-- Whichever branch is taken, the project uses the type afterwards if it did or the file shows
it. -/
theorem scanTypeUse_eq (r : Recipe) (file : SourceFile) (project : String)
    (usingType : Table Bool) :
    r.scanTypeUse file project usingType =
      usingType.update project fun known => known.getD false || r.showsUse file := by
  apply Table.ext_get?
  intro key
  unfold scanTypeUse
  split_ifs with hnone hknown
  · simp [showsUse, hnone]
  · have hsame : ((usingType.get? project).getD false || r.showsUse file) =
        (usingType.get? project).getD false := by
      obtain hused | hscript := (Bool.or_eq_true _ _).mp hknown
      · rw [hused, Bool.true_or]
      · simp [showsUse, hnone, hscript]
    rw [Table.get?_putNew, Table.get?_update, hsame]
  · have hscript : file.isBuildScript = false := by simp_all
    simp only [showsUse, usesType, hnone, hscript, Table.get?_update, Table.get?_putNew]
    split_ifs <;> rfl

theorem scanFile_of_none (h : file.project? = none) (r : Recipe) (s : Scanned) :
    r.scanFile s file = s := by
  simp [scanFile, scanStep, h]

theorem scanFile_of_some (h : file.project? = some project) (r : Recipe) (s : Scanned) :
    r.scanFile s file =
      { usingType := s.usingType.update project fun known => known.getD false || r.showsUse file
        configurations := scanConfiguration file project s.configurations
        suites := scanSuites file project s.suites } := by
  simp [scanFile, scanStep, h, scanTypeUse_eq]

theorem usingTypeIn_append (r : Recipe) (files : List SourceFile) (file : SourceFile) :
    r.usingTypeIn (files ++ [file]) = (r.usingTypeIn files || r.showsUse file) := by
  rw [showsUse, usingTypeIn, usingTypeIn, List.any_append, List.any_cons, List.any_nil,
    Bool.or_false]
  cases r.options.onlyIfUsing.isNone with
  | true => rfl
  | false => simp

theorem usingTypeIn_singleton (r : Recipe) (file : SourceFile) :
    r.usingTypeIn [file] = r.showsUse file := by
  rw [showsUse, usingTypeIn, List.any_cons, List.any_nil, Bool.or_false]

theorem configurationsIn_append (files : List SourceFile) (file : SourceFile) :
    configurationsIn (files ++ [file]) =
      (configurationsIn files).insertAll
        (file.sourceSet?.map implementationConfiguration).toList := by
  have hlast : ([file].filterMap SourceFile.sourceSet?).map implementationConfiguration =
      (file.sourceSet?.map implementationConfiguration).toList := by
    cases h : file.sourceSet? with
    | none => simp [h]
    | some _ => simp [h]
  rw [configurationsIn, List.filterMap_append, List.map_append, NameSet.ofList_append, hlast]
  rfl

theorem suitesIn_append (scripts : List SourceFile) (script : SourceFile) :
    suitesIn (scripts ++ [script]) = (suitesIn scripts).insertAll (script.suites true) := by
  rw [suitesIn, List.flatMap_append, NameSet.ofList_append, List.flatMap_singleton]
  rfl

/-- A table with a value for each project follows one more file by an update at its project. -/
theorem update_tabulate_projectsOf {α : Type} {value : List SourceFile → α} {f : Option α → α}
    (hproject : file.project? = some project)
    (hsome : ∀ known, value (known ++ [file]) = f (some (value known)))
    (hnone : value [file] = f none) :
    (tabulate (projectsOf files) fun name => value (filesOf files name)).update project f =
      tabulate (projectsOf (files ++ [file])) fun name =>
        value (filesOf (files ++ [file]) name) := by
  apply Table.ext_get?
  intro name
  simp only [Table.get?_update, Table.get?_tabulate, projectsOf_append hproject,
    NameSet.mem_insertAll, List.mem_singleton]
  by_cases hname : project = name
  · subst hname
    rw [if_pos rfl, if_pos (Or.inl rfl), filesOf_append hproject]
    split_ifs with hmem
    · rw [hsome]
    · rw [filesOf_eq_nil hmem, List.nil_append, hnone]
  · have hne : file.project? ≠ some name := by
      rw [hproject]
      exact fun h => hname (Option.some.inj h)
    simp only [if_neg hname, Ne.symm hname, false_or, filesOf_append_of_ne hne]

theorem projectsOf_append_of_none (h : file.project? = none) :
    projectsOf (files ++ [file]) = projectsOf files := by
  simp [projectsOf, h]

theorem filesOf_append_of_none (h : file.project? = none) :
    filesOf (files ++ [file]) = filesOf files := by
  funext project
  apply filesOf_append_of_ne
  rw [h]
  exact Option.some_ne_none project |>.symm

theorem filter_isBuildScript_append (files : List SourceFile) (file : SourceFile) :
    (files ++ [file]).filter SourceFile.isBuildScript =
      files.filter SourceFile.isBuildScript ++ if file.isBuildScript then [file] else [] := by
  rw [List.filter_append]
  cases h : file.isBuildScript with
  | false => simp [h]
  | true => simp [h]

/-- A file without a project adds nothing to the report. -/
theorem report_append_of_none (h : file.project? = none) :
    r.report (files ++ [file]) = r.report files := by
  simp only [report, filter_isBuildScript_append, projectsOf_append_of_none h,
    filesOf_append_of_none h]
  cases file.isBuildScript with
  | false => simp only [Bool.false_eq_true, if_false, List.append_nil]
  | true => simp only [if_true, projectsOf_append_of_none h, filesOf_append_of_none h]

/-- One more file does to the report what scanning it does. -/
theorem scanFile_report (r : Recipe) (files : List SourceFile) (file : SourceFile) :
    r.scanFile (r.report files) file = r.report (files ++ [file]) := by
  cases hproject : file.project? with
  | none =>
    rw [report_append_of_none hproject, scanFile_of_none hproject]
  | some project =>
    have husing := @update_tabulate_projectsOf files file project Bool r.usingTypeIn
      (fun known => known.getD false || r.showsUse file) hproject
      (usingTypeIn_append r · file) (usingTypeIn_singleton r file)
    have hconfigurations := @update_tabulate_projectsOf files file project _ configurationsIn
      (fun names =>
        (names.getD .empty).insertAll (file.sourceSet?.map implementationConfiguration).toList)
      hproject (configurationsIn_append · file) (configurationsIn_append [] file)
    have hsuites :=
      @update_tabulate_projectsOf (files.filter SourceFile.isBuildScript) file project _ suitesIn
      (fun names => (names.getD .empty).insertAll (file.suites true)) hproject
      (suitesIn_append · file) (suitesIn_append [] file)
    simp only [scanFile_of_some hproject, report, husing, scanConfiguration,
      hconfigurations, scanSuites, filter_isBuildScript_append]
    cases file.isBuildScript with
    | false => simp
    | true => simp [hsuites]

theorem foldl_scanFile_report (r : Recipe) (known files : List SourceFile) :
    files.foldl r.scanFile (r.report known) = r.report (known ++ files) := by
  induction files generalizing known with
  | nil => rw [List.append_nil]; rfl
  | cons file files ih => rw [List.foldl_cons, scanFile_report, ih, List.append_assoc]; rfl

theorem scan_eq_report (r : Recipe) (files : List SourceFile) : r.scan files = r.report files :=
  foldl_scanFile_report r [] files

section Order

variable {files' : List SourceFile}

theorem projectsOf_perm (h : files'.Perm files) : projectsOf files' = projectsOf files :=
  NameSet.ofList_perm (h.filterMap _)

theorem filesOf_perm (h : files'.Perm files) (project : String) :
    (filesOf files' project).Perm (filesOf files project) :=
  h.filter _

theorem usingTypeIn_perm (h : files'.Perm files) : r.usingTypeIn files' = r.usingTypeIn files := by
  rw [usingTypeIn, usingTypeIn, Bool.eq_iff_iff]
  simp only [Bool.or_eq_true, List.any_eq_true, h.mem_iff]

theorem configurationsIn_perm (h : files'.Perm files) :
    configurationsIn files' = configurationsIn files :=
  NameSet.ofList_perm ((h.filterMap _).map _)

theorem suitesIn_perm (h : files'.Perm files) : suitesIn files' = suitesIn files :=
  NameSet.ofList_perm (h.flatMap_right _)

theorem report_perm (h : files'.Perm files) : r.report files' = r.report files := by
  have hscripts := h.filter SourceFile.isBuildScript
  simp only [report, projectsOf_perm h, projectsOf_perm hscripts,
    usingTypeIn_perm (filesOf_perm h _),
    configurationsIn_perm (filesOf_perm h _), suitesIn_perm (filesOf_perm hscripts _)]

end Order

/-- Files can be scanned in any order: the scan ends with the report on them. -/
theorem scan_perm (r : Recipe) {files files' : List SourceFile} (h : files'.Perm files) :
    r.scan files' = r.scan files ∧ r.scan files' = r.report files := by
  have hreport : r.scan files' = r.report files := by rw [scan_eq_report, report_perm h]
  exact ⟨hreport.trans (scan_eq_report r files).symm, hreport⟩

/-- A class that uses the type, and the build script of its project, from either side. -/
theorem scan_perm_swap :
    let source :=
      (SourceFile.verbatim "src/A.java" "import a.B;").withMarkers [.project "p", .sourceSet "main"]
    let script := (SourceFile.parse "build.gradle" "").withMarkers [.project "p"]
    let options : Options := { group := "g", artifact := "a", onlyIfUsing := some "a.B" }
    let r : Recipe :=
      ⟨options, ⟨"g", "a"⟩, none, none, (TypePattern.parse "a.B").toOption, .imports,
      Metadata.resolveCached []⟩
    let found : Scanned :=
      ⟨Table.empty.put "p" true, Table.empty.put "p" (.ofList ["implementation"]),
      Table.empty.put "p" .empty⟩
    r.scan [source, script] = found ∧ r.scan [script, source] = found := by
  intro source script options r found
  have hfound : r.scan [source, script] = found := by decide +kernel
  have hswap := scan_perm r (List.Perm.swap source script [])
  exact ⟨hfound, hswap.1.trans hfound⟩

end Recipe

end BuildScript
