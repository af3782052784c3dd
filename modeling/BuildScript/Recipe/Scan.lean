import BuildScript.Ordered
import BuildScript.Recipe.Options
import BuildScript.Script.Suites
import BuildScript.SourceFile.Condition

/-!
# Scanning

Before files are edited, all of them are looked at. The scan collects for each project whether it
uses the type that the recipe asks for, the configurations that its source sets imply, and the test
suites of its build scripts. Each of these is noted in a step of its own, so that files can be
looked at side by side.
-/

namespace BuildScript

structure Scanned where
  usingType : Table Bool
  configurations : Table NameSet
  suites : Table NameSet
  deriving DecidableEq, Repr

namespace Scanned

def empty : Scanned := ⟨.empty, .empty, .empty⟩

/-- Something was found for the project. -/
def contains (s : Scanned) (project : String) : Bool := (s.configurations.get? project).isSome

/-- Nothing was found at all. -/
def isEmpty (s : Scanned) : Bool := s.configurations.entries.isEmpty

end Scanned

/-- What is noted about a file. -/
inductive ScanStep where
  | typeUse
  | configuration
  | suites
  deriving DecidableEq, Repr

namespace Recipe

/-- Notes whether the project of a file uses the type. The file is not searched if that is known. -/
def scanTypeUse (r : Recipe) (file : SourceFile) (project : String) (usingType : Table Bool) :
    Table Bool :=
  if r.options.onlyIfUsing.isNone then usingType.put project true
  else if (usingType.get? project).getD false || file.isBuildScript then
    usingType.putNew project false
  else
    let uses := r.typePattern.any fun pattern => r.usage.uses file pattern
    (usingType.putNew project false).update project fun used => used.getD false || uses

def scanConfiguration (file : SourceFile) (project : String) (configurations : Table NameSet) :
    Table NameSet :=
  configurations.update project fun names =>
    (names.getD .empty).insertAll (file.sourceSet?.map implementationConfiguration).toList

def scanSuites (file : SourceFile) (project : String) (suites : Table NameSet) : Table NameSet :=
  if file.isBuildScript then
    suites.update project fun names => (names.getD .empty).insertAll (file.suites true)
  else suites

/-- A file without a project is passed over. -/
def scanStep (r : Recipe) (s : Scanned) (file : SourceFile) (step : ScanStep) : Scanned :=
  match file.project? with
  | none => s
  | some project =>
    match step with
    | .typeUse => { s with usingType := r.scanTypeUse file project s.usingType }
    | .configuration => { s with configurations := scanConfiguration file project s.configurations }
    | .suites => { s with suites := scanSuites file project s.suites }

def scanFile (r : Recipe) (s : Scanned) (file : SourceFile) : Scanned :=
  [ScanStep.typeUse, .configuration, .suites].foldl (fun s => r.scanStep s file) s

/-- What is known after all files have been looked at. -/
def scan (r : Recipe) (files : List SourceFile) : Scanned := files.foldl r.scanFile .empty

end Recipe

end BuildScript
