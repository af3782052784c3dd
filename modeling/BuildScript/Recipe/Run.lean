import BuildScript.Recipe.Edit

/-!
# Runs

A run scans all files once and then edits them once. A call out of turn is refused and changes
nothing. A run that was cancelled stays so. Both phases treat files side by side, each on a thread
of its own, and a schedule says in which order the threads take their steps.
-/

namespace BuildScript

inductive RunState where
  | initialized
  /-- While files are being scanned. -/
  | scanning
  | scanned
  /-- While files are being edited. -/
  | visiting
  | done
  | cancelled
  deriving DecidableEq, Repr

def RunState.name : RunState → String
  | initialized => "initialized"
  | scanning => "scanning"
  | scanned => "scanned"
  | visiting => "visiting"
  | done => "done"
  | cancelled => "cancelled"

/-- The order in which the threads of a run take their steps: the numbers of the threads that are
next. When it is at its end, the threads take the steps that they have left one after the other. -/
abbrev Schedule := List Nat

/-- The steps of all threads in the order of a schedule. -/
def Schedule.arrange {α : Type} : Schedule → List (List α) → List α
  | [], threads => threads.flatten
  | i :: rest, threads =>
    match threads[i]? with
    | some (step :: left) => step :: arrange rest (threads.set i left)
    | _ => arrange rest threads

structure Run where
  state : RunState
  scanned : Option Scanned
  deriving DecidableEq, Repr

namespace Run

def start : Run := ⟨.initialized, none⟩

/-- A step that needs another state. -/
def outOfTurn (run : Run) (expected : RunState) : Error :=
  .invalidRunState expected.name run.state.name

/-- What a thread does with a file in a scan: it looks whether the run is cancelled, and scans. -/
inductive Scans where
  | look
  | note (file : SourceFile) (step : ScanStep)

def scans (file : SourceFile) : List Scans :=
  [.look, .note file .typeUse, .note file .configuration, .note file .suites]

/-- Takes the steps of a scan that are left, after those with which something was found. -/
def scanning (recipe : Recipe) (ctx : Context) (run : Run) (found : Scanned) :
    List Scans → Except Error Unit × Run
  | [] =>
    -- The run may have been cancelled while the last files were scanned.
    if ctx.cancelled then (.error .cancelled, { run with state := .cancelled })
    else (.ok (), { run with state := .scanned, scanned := some found })
  | .look :: left =>
    if ctx.cancelled then (.error .cancelled, { run with state := .cancelled })
    else scanning recipe ctx run found left
  | .note file step :: left => scanning recipe ctx run (recipe.scanStep found file step) left

/-- Scans the files; a cancelled scan keeps nothing. -/
def scan (recipe : Recipe) (run : Run) (files : List SourceFile) (ctx : Context)
    (schedule : Schedule := []) : Except Error Unit × Run :=
  if run.state ≠ .initialized then (.error (run.outOfTurn .initialized), run)
  else scanning recipe ctx { run with state := .scanning } .empty
    (schedule.arrange (files.map scans))

/-- A file for which nothing was found is not looked at. -/
def isGated (s : Scanned) (file : SourceFile) : Bool :=
  !(file.isBuildScript && file.project?.any s.contains)

/-- Edits one file behind the gate. -/
def visitFile (recipe : Recipe) (s : Scanned) (file : SourceFile) : SourceFile × List Warning :=
  if isGated s file then (file, []) else recipe.edit s file

/-- What a thread does with a file in a visit: it looks whether the run is cancelled, and warns. -/
inductive Visits where
  | look
  | warn (warning : Warning)

def visits (visited : SourceFile × List Warning) : List Visits := .look :: visited.2.map .warn

/-- Takes the steps of a visit that are left. -/
def visiting (edited : List SourceFile) (run : Run) (ctx : Context) :
    List Visits → Except Error (List SourceFile) × Run × Context
  | [] => (.ok edited, { run with state := .done }, ctx)
  | .look :: left =>
    if ctx.cancelled then (.error .cancelled, { run with state := .cancelled }, ctx)
    else visiting edited run ctx left
  | .warn w :: left => visiting edited run (ctx.warn w.file w.message) left

/-- Edits the files and gives them back in their order. If the scan found nothing, all files stay as
they are. -/
def visit (recipe : Recipe) (run : Run) (files : List SourceFile) (ctx : Context)
    (schedule : Schedule := []) : Except Error (List SourceFile) × Run × Context :=
  match run.state, run.scanned with
  | .scanned, some s =>
    if s.isEmpty then (.ok files, { run with state := .done }, ctx)
    else
      let visited := files.map (visitFile recipe s)
      visiting (visited.map Prod.fst) { run with state := .visiting } ctx
        (schedule.arrange (visited.map visits))
  | _, _ => (.error (run.outOfTurn .scanned), run, ctx)

end Run

/-- A file before and after a run. -/
structure FileResult where
  before : SourceFile
  after : SourceFile

namespace FileResult

/-- The run made a new revision of the file; its text may still be the same. -/
def isChanged (r : FileResult) : Bool := !r.before.same r.after

/-- The run changed the text of the file. -/
def hasNewText (r : FileResult) : Bool := r.isChanged && r.before.print ≠ r.after.print

end FileResult

structure RunResult where
  results : List FileResult
  warnings : List Warning

namespace RunResult

def changedFiles (r : RunResult) : List FileResult := r.results.filter FileResult.hasNewText

def hasChanges (r : RunResult) : Bool := !r.changedFiles.isEmpty

end RunResult

/-- Scans and edits files in one go. The context is left without warnings unless the run fails. -/
def Recipe.run (recipe : Recipe) (files : List SourceFile) (ctx : Context)
    (scans visits : Schedule := []) : Except Error RunResult × Context :=
  match Run.start.scan recipe files ctx scans with
  | (.error e, _) => (.error e, ctx)
  | (.ok (), run) =>
    match run.visit recipe files ctx visits with
    | (.error e, _, ctx) => (.error e, ctx)
    | (.ok after, _, ctx) =>
      let (warnings, ctx) := ctx.takeWarnings
      (.ok ⟨(files.zip after).map fun (before, after) => ⟨before, after⟩, warnings⟩, ctx)

end BuildScript
