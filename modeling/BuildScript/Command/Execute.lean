import BuildScript.Command.Arguments
import BuildScript.Command.Report
import BuildScript.Workspace.Basic

/-!
# Commands

Carries out a command line on a file tree. A command answers with a status and with text for the
standard output and the standard error.
-/

namespace BuildScript

structure Answer where
  status : Nat
  output : String := ""
  diagnostics : String := ""
  deriving DecidableEq, Repr

inductive Outcome where
  | answered (answer : Answer)
  /-- The command line is not understood. -/
  | misused
  /-- Something is refused; `output` was printed before. -/
  | refused (output : String) (error : Error)
  deriving DecidableEq, Repr

/-- What the program ends with. -/
def Outcome.answer : Outcome → Answer
  | answered answer => answer
  | misused =>
    ⟨2, "", "error: the command line is not understood. Run `regraft --help` for usage.\n"⟩
  | refused output error =>
    let help := match error.help? with
      | some help => "  help: " ++ help ++ "\n"
      | none => ""
    ⟨2, output, error.code ++ "\n\n  error: " ++ error.message ++ "\n" ++ help⟩

/-- The name and the version of the program. -/
def versionLine : String := "regraft_cli 0.3.0\n"

def helpText : String :=
  "Add a dependency to the Gradle projects that need it.\n\n" ++
  "Usage: regraft [OPTIONS] [COMMAND]\n\n" ++
  "Commands:\n" ++
  "  run    Add the dependency and write the changed build files\n" ++
  "  check  Check that no build file needs the dependency\n" ++
  "  plan   Print the configurations each build file would receive the dependency in\n" ++
  "  help   Print this message\n\n" ++
  "Options:\n" ++
  "  -p, --path <PATH>  Path to the build root directory\n" ++
  "  -v, --verbose      Enable verbose output\n" ++
  "      --no-color     Disable colored output\n" ++
  "  -h, --help         Print help\n" ++
  "  -V, --version      Print version\n"

namespace Invocation

/-- What a command works on. -/
structure Session where
  root : Root
  recipe : Recipe
  workspace : Workspace

/-- Loads the configuration, then the recipe, then the files. -/
def Session.load (tree : FileTree) (root : Root) : Except Error Session := do
  let config := (← Config.load tree root).getD .empty
  let recipe ← config.recipe
  let workspace ← Workspace.load tree root config
  .ok ⟨root, recipe, workspace⟩

def Session.loaded (s : Session) : String :=
  let scripts := s.workspace.buildScripts.length
  Report.loaded s.recipe.coordinate scripts (s.workspace.files.length - scripts)

/-- A command's answer, with the tree that it leaves. -/
abbrev Effect := Except Error (Answer × FileTree)

def Session.result (s : Session) : Except Error RunResult := (s.recipe.run s.workspace.files {}).1

/-- Adds the dependency; a dry run writes nothing. -/
def Session.run (s : Session) (tree : FileTree) (dryRun diff : Bool) : Effect := do
  let result ← s.result
  let changed := Report.sortedChanges result
  let warnings := Report.warnings result.warnings
  if changed.isEmpty then .ok (⟨0, Report.noChanges s.recipe.coordinate, warnings⟩, tree)
  else
    let (tree, headline) ←
      if dryRun then .ok (tree, Report.wouldChange changed.length)
      else do
        let (tree, written) ← Workspace.write tree s.root result
        .ok (tree, Report.added s.recipe.coordinate written.length)
    let differences := if diff then String.join (changed.map Report.difference) else ""
    .ok (⟨0, headline ++ Report.paths changed, warnings ++ differences⟩, tree)

/-- Tells whether files would change. -/
def Session.check (s : Session) (tree : FileTree) (diff : Bool) (format : OutputFormat) :
    Effect := do
  let result ← s.result
  let changed := Report.sortedChanges result
  let warnings := Report.warnings result.warnings
  let coordinate := s.recipe.coordinate
  let status := if changed.isEmpty then 0 else 1
  match format with
  | .json =>
    let report := Report.checkJson coordinate changed result.warnings
    .ok (⟨status, Report.line report.render, warnings⟩, tree)
  | .text =>
    if changed.isEmpty then .ok (⟨status, Report.checkPassed coordinate, warnings⟩, tree)
    else .ok (⟨status, "", warnings ++ Report.checkFailed coordinate changed diff⟩, tree)

/-- Tells what would be added where. -/
def Session.plan (s : Session) (tree : FileTree) (format : OutputFormat) : Effect :=
  let scanned := s.recipe.scan s.workspace.files
  let entries := s.workspace.buildScripts.map fun file =>
    (⟨file.path, file.project?, s.recipe.plan file scanned⟩ : Report.PlanEntry)
  let output := match format with
    | .json => Report.line (Report.planJson s.recipe.coordinate entries).render
    | .text => Report.planText s.recipe.coordinate entries
  .ok (⟨0, output, ""⟩, tree)

def Session.command (s : Session) (tree : FileTree) : Command → Effect
  | .run dryRun diff => s.run tree dryRun diff
  | .check diff format => s.check tree diff format
  | .plan format => s.plan tree format

/-- Carries out an invocation on a root. -/
def execute (tree : FileTree) (root : Root) (i : Invocation) : Outcome × FileTree :=
  match i.command with
  | none =>
    (.answered ⟨1, "", "No subcommand specified. Run `regraft --help` for usage.\n"⟩, tree)
  | some command =>
    match Session.load tree root with
    | .error e => (.refused "" e, tree)
    | .ok session =>
      let loaded := if i.verbose then session.loaded else ""
      match session.command tree command with
      | .ok (answer, tree) => (.answered { answer with output := loaded ++ answer.output }, tree)
      | .error e => (.refused loaded e, tree)

end Invocation

namespace Request

/-- The root that is asked for. -/
def path? : Request → Option String
  | invoke invocation => invocation.path
  | _ => none

/-- Only a command looks at files. -/
def needsFiles : Request → Bool
  | invoke invocation => invocation.command.isSome
  | _ => false

def execute (tree : FileTree) (root : Root) : Request → Outcome × FileTree
  | invoke invocation => invocation.execute tree root
  | help => (.answered ⟨0, helpText, ""⟩, tree)
  | version => (.answered ⟨0, versionLine, ""⟩, tree)
  | misuse => (.misused, tree)

end Request

/-- Carries out a command line in a working directory, which is the root unless another one is
asked for. -/
def execute (tree : FileTree) (base : FileTree.Location) (arguments : List String) :
    Outcome × FileTree :=
  let request := Request.parse arguments
  request.execute tree (Root.find tree base (request.path?.getD ("/" ++ Path.ofNames base)))

end BuildScript
