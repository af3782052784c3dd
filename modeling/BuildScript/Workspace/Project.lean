import BuildScript.Config
import BuildScript.Graph.Reach
import BuildScript.Path
import BuildScript.Script.Declaration

/-!
# Projects

The projects of a build and what belongs to them. A file belongs to the project with the deepest
directory that contains it.
-/

namespace BuildScript

structure Project where
  name : String
  /-- The directory of the project, from the root. -/
  directory : String
  config : Option ProjectConfig

namespace Project

/-- The projects of a configuration, or the root as the only one, which is then named after its
directory. -/
def ofConfig (root : String) (config : Config) : List Project :=
  if config.projects.isEmpty then [⟨(Path.fileName? root).getD "root", "", none⟩]
  else config.projects.map fun project => ⟨project.name, project.path, some project⟩

/-- What is left of a path behind the parts of a directory. -/
def stripParts? : List Path.Part → List String → Option (List String)
  | [], names => some names
  | part :: rest, name :: names => if part = .name name then stripParts? rest names else none
  | _ :: _, [] => none

/-- The names that lead from the directory of the project to a file. -/
def inside? (p : Project) (file : List String) : Option (List String) :=
  stripParts? (Path.parts p.directory) file

def depth (p : Project) : Nat := (Path.parts p.directory).length

/-- The last of the deepest projects that contain a file. -/
def owner? (projects : List Project) (file : List String) : Option Project :=
  (projects.filter fun p => (p.inside? file).isSome).foldl (fun best p =>
    match best with
    | none => some p
    | some b => if p.depth < b.depth then some b else some p) none

/-- A file directly in a project that is its build script, with the language. -/
def buildScript? : List String → Option Dsl
  | ["build.gradle.kts"] => some .kotlin
  | ["build.gradle"] => some .groovy
  | _ => none

/-- The endings of files that are searched for types. -/
def sourceExtensions : List String := ["java", "kt", "groovy", "scala"]

/-- The source set of a file `src/<source set>/…` in a project. -/
def sourceSet? (names : List String) : Option String := do
  let extension ← Path.extension? (← names.getLast?)
  if sourceExtensions.contains extension then
    match names with
    | "src" :: sourceSet :: _ :: _ => some sourceSet
    | _ => none
  else none

/-- Requests what a build script declares, in the configuration and in all that extend it. -/
def declare (g : DependencyGraph) (d : Declaration) : DependencyGraph :=
  let inheriting := (g.extending d.configuration true).map Configuration.name
  (inheriting ++ [d.configuration]).foldl (fun g name => g.request name d.dependency) g

/-- The configurations of the project before its build script is read: those that are described, or
those that its source sets and test suites have. -/
def baseGraph (p : Project) (script : SourceFile) (sourceSets : List String) :
    Except Error DependencyGraph := do
  let described ← match p.config with
    | some config => config.graph
    | none => .ok none
  return described.getD (DependencyGraph.java (sourceSets ++ script.suites false))

/-- The dependency graph of the project with what its build script declares. -/
def graph (p : Project) (script : SourceFile) (sourceSets : List String) :
    Except Error DependencyGraph := do
  let base ← p.baseGraph script sourceSets
  let declarations := script.topLevelDeclarations ++ script.suiteDeclarations
  return (declarations.foldl declare base).resolveInherited

end Project

end BuildScript
