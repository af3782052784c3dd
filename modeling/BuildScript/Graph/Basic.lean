import BuildScript.Graph.Configuration

/-!
# Dependency graphs

The configurations of one project with the edges to those that they extend. A graph is valid if
every configuration that is extended exists and no configuration extends itself, directly or
through others.
-/

namespace BuildScript

/-- Configurations in ascending order of their names, one for each name. -/
@[ext]
structure DependencyGraph where
  configurations : List Configuration
  ascending : Names.Ascending (configurations.map Configuration.name)
  deriving DecidableEq, Repr

namespace DependencyGraph

def empty : DependencyGraph := ⟨[], Names.ascending_nil⟩

/-- The graph with a configuration added or replaced, whether or not that leaves it valid. -/
def updated (g : DependencyGraph) (c : Configuration) : DependencyGraph :=
  ⟨place Configuration.name c.name (fun _ => c) g.configurations,
    ascending_place (by simp) g.ascending⟩

def without (g : DependencyGraph) (name : String) : DependencyGraph :=
  ⟨g.configurations.filter fun c => c.name ≠ name,
    g.ascending.sublist (List.filter_sublist.map _)⟩

def names (g : DependencyGraph) : List String := g.configurations.map Configuration.name

def configuration? (g : DependencyGraph) (name : String) : Option Configuration :=
  g.configurations.find? fun c => c.name = name

def contains (g : DependencyGraph) (name : String) : Bool := (g.configuration? name).isSome

/-- What a name extends directly; nothing if it is unknown. -/
def parents (g : DependencyGraph) (name : String) : List String :=
  match g.configuration? name with
  | some c => c.extendsFrom
  | none => []

/-- The configurations of a list; of two with one name the later counts. -/
def ofList (cs : List Configuration) : DependencyGraph := cs.foldl updated empty

/-- The first edge that leads to no configuration. -/
def danglingEdge? (g : DependencyGraph) : Option (String × String) :=
  g.configurations.findSome? fun c =>
    (c.extendsFrom.find? fun parent => !g.contains parent).map fun parent => (c.name, parent)

/-- Follows the edges from `name` and returns the names whose edges are done, with those of `done`.
`path` holds the names that led here; the error is a name that leads back to itself. -/
def follow (g : DependencyGraph) : Nat → List String → List String → String →
    Except String (List String)
  | 0, _, done, _ => .ok done
  | fuel + 1, path, done, name =>
    if done.contains name then .ok done
    else if path.contains name then .error name
    else do
      let done ← (g.parents name).foldlM
        (fun done parent => follow g fuel (name :: path) done parent) done
      .ok (name :: done)

/-- A name that extends itself, if there is one. -/
def cycle? (g : DependencyGraph) : Option String :=
  match g.names.foldlM (fun done name => g.follow (g.names.length + 1) [] done name) [] with
  | .ok _ => none
  | .error name => some name

def validate (g : DependencyGraph) : Except Error Unit :=
  match g.danglingEdge? with
  | some (name, parent) => .error (.unknownConfiguration name parent)
  | none =>
    match g.cycle? with
    | some name => .error (.configurationCycle name)
    | none => .ok ()

/-- The graph of a list of configurations, if it is valid. -/
def new (cs : List Configuration) : Except Error DependencyGraph := do
  (ofList cs).validate
  .ok (ofList cs)

def javaBase : List Configuration :=
  [.extending "api" [],
    .extending "compileOnlyApi" [],
    .extending "implementation" ["api"],
    .extending "compileOnly" ["compileOnlyApi"],
    .extending "runtimeOnly" [],
    .extending "annotationProcessor" [],
    .extending "compileClasspath" ["compileOnly", "implementation"],
    .extending "runtimeClasspath" ["runtimeOnly", "implementation"],
    .extending "testImplementation" ["implementation"],
    .extending "testCompileOnly" [],
    .extending "testRuntimeOnly" ["runtimeOnly"],
    .extending "testCompileClasspath" ["testCompileOnly", "testImplementation"],
    .extending "testRuntimeClasspath" ["testRuntimeOnly", "testImplementation"]]

/-- The configurations that a source set brings along. -/
def sourceSetConfigurations (sourceSet : String) : List Configuration :=
  if sourceSet = "main" || sourceSet = "test" then []
  else
    [.extending (sourceSet ++ "Implementation") [], .extending (sourceSet ++ "CompileOnly") [],
      .extending (sourceSet ++ "RuntimeOnly") []]

/-- The graph of a Java project with further source sets. -/
def java (sourceSets : List String) : DependencyGraph :=
  ofList (javaBase ++ sourceSets.flatMap sourceSetConfigurations)

/-- Adds or replaces a configuration, if the graph stays valid. -/
def insert (g : DependencyGraph) (c : Configuration) : Except Error DependencyGraph := do
  (g.updated c).validate
  .ok (g.updated c)

/-- Inserts in place: the configuration is written first, and only then the graph is checked. If it
is refused, then what was there before is written back, or the configuration is removed if there was
none. Returns the graph in either case. -/
def insertInPlace (g : DependencyGraph) (c : Configuration) : Except Error Unit × DependencyGraph :=
  match (g.updated c).validate with
  | .ok () => (.ok (), g.updated c)
  | .error e =>
    match g.configuration? c.name with
    | some previous => (.error e, (g.updated c).updated previous)
    | none => (.error e, (g.updated c).without c.name)

/-- Declares a dependency in the named configuration, which is made if it is missing. -/
def request (g : DependencyGraph) (name : String) (d : Dependency) : DependencyGraph :=
  let c := (g.configuration? name).getD { name }
  g.updated (c.request d)

end DependencyGraph

end BuildScript
