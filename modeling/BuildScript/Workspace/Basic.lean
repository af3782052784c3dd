import BuildScript.FileTree.Walk
import BuildScript.Recipe.Run
import BuildScript.Workspace.Project

/-!
# Workspaces

Loads the projects below a directory with their build scripts and sources, and writes changed build
scripts back.
-/

namespace BuildScript

/-- The directory that is worked on: the path it is known by, and where that leads. -/
structure Root where
  path : String
  location : Option FileTree.Location
  deriving DecidableEq, Repr

/-- The root with a path that is seen from a directory. -/
def Root.find (tree : FileTree) (base : FileTree.Location) (path : String) : Root :=
  ⟨path, (tree.locatePath? base path).filter tree.isDirectoryAt⟩

/-- The configuration file of a root, from the places where it may be. -/
def Config.place? (tree : FileTree) (root : Root) : Option String := do
  let location ← root.location
  Config.places.find? fun place => (tree.read? location (FileTree.steps place)).isSome

/-- The configuration of a root, if it has one. -/
def Config.load (tree : FileTree) (root : Root) : Except Error (Option Config) :=
  match root.location, Config.place? tree root with
  | some location, some place => do
    return some (← Config.parse (← tree.readText location (FileTree.steps place)))
  | _, _ => .ok none

structure Workspace where
  /-- Build scripts first, then sources, each in the order of their paths. -/
  files : List SourceFile

namespace Workspace

/-- A file that belongs to a project. -/
structure Member where
  project : Project
  file : SourceFile
  /-- The language of a build script; other files are sources. -/
  dsl : Option Dsl

/-- Reads a file if it is the build script or a source of a project. -/
def member? (tree : FileTree) (root : FileTree.Location) (projects : List Project)
    (names : List String) : Except Error (Option Member) :=
  match Project.owner? projects names with
  | none => .ok none
  | some project =>
    let path := Path.ofNames names
    let inside := (project.inside? names).getD []
    match Project.buildScript? inside, Project.sourceSet? inside with
    | some dsl, _ => do
      let text ← tree.readText root names
      return some ⟨project, SourceFile.parse path text, some dsl⟩
    | none, some sourceSet => do
      let text ← tree.readText root names
      let markers := [.project project.name, .sourceSet sourceSet]
      return some ⟨project, (SourceFile.verbatim path text).withMarkers markers, none⟩
    | none, none => .ok none

/-- The source sets that the sources of a project belong to. -/
def sourceSets (sources : List Member) (project : Project) : List String :=
  Names.ofList ((sources.filter fun m => m.project.name = project.name).filterMap fun m =>
    m.file.sourceSet?)

/-- The build script of a member with its markers. -/
def buildScript (sources : List Member) (m : Member) (dsl : Dsl) : Except Error SourceFile := do
  let graph ← m.project.graph m.file (sourceSets sources m.project)
  return m.file.withMarkers [.project m.project.name, .buildFile dsl, .graph graph]

/-- The members among the files below a directory, in the order of their paths. -/
def members (tree : FileTree) (location : FileTree.Location) (projects : List Project) :
    Except Error (List Member) := do
  return (← (tree.filesBelow location).mapM (member? tree location projects)).filterMap id

/-- Loads the projects of a root. -/
def load (tree : FileTree) (root : Root) (config : Config) : Except Error Workspace := do
  match root.location with
  | none => .error .io
  | some location =>
    let members ← members tree location (Project.ofConfig root.path config)
    let sources := members.filter fun m => m.dsl.isNone
    let scripts ← members.filterMapM fun m =>
      match m.dsl with
      | some dsl => (buildScript sources m dsl).map some
      | none => .ok none
    .ok ⟨scripts ++ sources.map Member.file⟩

def buildScripts (w : Workspace) : List SourceFile := w.files.filter SourceFile.isBuildScript

/-- Writes the files that a run changed, and lists their paths. -/
def write (tree : FileTree) (root : Root) (result : RunResult) :
    Except Error (FileTree × List String) :=
  result.changedFiles.foldlM (fun (tree, written) r =>
    match root.location with
    | none => .error .io
    | some location => do
      let tree ← tree.writeText location (FileTree.steps r.before.path) r.after.print
      .ok (tree, written ++ [r.before.path])) (tree, [])

end Workspace

end BuildScript
