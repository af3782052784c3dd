import BuildScript.Graph.Reach
import BuildScript.Recipe.Scan

/-!
# Plans

A plan says for a build file which configurations of its project receive the dependency and where
the declarations go, or why the file is left alone.
-/

namespace BuildScript

/-- Why a file is left alone. -/
inductive SkipReason where
  | notABuildFile
  | noProject
  | notScanned
  | typeNotUsed
  | noDependencyGraph
  | noMatchingConfiguration
  | alreadySatisfied
  deriving DecidableEq, Repr

namespace SkipReason

def message : SkipReason → String
  | notABuildFile => "not a build file"
  | noProject => "the file belongs to no project"
  | notScanned => "nothing was scanned for the project"
  | typeNotUsed => "the project does not use the type"
  | noDependencyGraph => "the project has no dependency graph"
  | noMatchingConfiguration => "none of the candidate configurations exist in the project"
  | alreadySatisfied => "every candidate configuration already has the dependency"

def label : SkipReason → String
  | notABuildFile => "not_a_build_file"
  | noProject => "no_project"
  | notScanned => "not_scanned"
  | typeNotUsed => "type_not_used"
  | noDependencyGraph => "no_dependency_graph"
  | noMatchingConfiguration => "no_matching_configuration"
  | alreadySatisfied => "already_satisfied"

end SkipReason

/-- Where a declaration goes. -/
inductive Placement where
  /-- The `dependencies` block at the top level, under the configuration's own name. -/
  | topLevel
  /-- The block of a test suite, under the name that the configuration has there. -/
  | suite (suite configuration : String)
  deriving DecidableEq, Repr

structure Target where
  configuration : String
  placement : Placement
  deriving DecidableEq, Repr

/-- The configuration as it is written in the build file. -/
def Target.declared (t : Target) : String :=
  match t.placement with
  | .topLevel => t.configuration
  | .suite _ configuration => configuration

inductive Plan where
  | skip (reason : SkipReason)
  | add (targets : List Target)
  deriving DecidableEq, Repr

def Plan.targets : Plan → List Target
  | skip _ => []
  | add targets => targets

/-- The endings of configurations that belong to a suite, with the names that they have inside. -/
def suiteSuffixes : List (String × String) :=
  [("Implementation", "implementation"), ("CompileOnly", "compileOnly"),
    ("RuntimeOnly", "runtimeOnly"), ("AnnotationProcessor", "annotationProcessor")]

/-- The place in one of the suites that a configuration belongs to. -/
def suitePlacement? (configuration : String) (suites : List String) : Option Placement :=
  if isStandardConfiguration configuration then none
  else
    suiteSuffixes.findSome? fun (ending, inside) => do
      let stem ← Text.dropBack? ending.toList configuration.toList
      if suites.contains (String.ofList stem) then
        some (.suite (String.ofList stem) inside) else none

namespace Recipe

/-- The configuration has the dependency already. -/
def isSatisfied (r : Recipe) (c : Configuration) : Bool :=
  (c.requested? r.coordinate).isSome ||
    (r.options.acceptTransitive && (c.resolved? r.coordinate).isSome)

/-- The candidates that exist and lack the dependency. -/
def openCandidates (r : Recipe) (g : DependencyGraph) (accumulated : List String) : List String :=
  (r.candidates accumulated).filter fun name =>
    match g.configuration? name with
    | some c => !r.isSatisfied c
    | none => false

/-- The configurations that receive the dependency: the open candidates that inherit from no other
open candidate. -/
def targetConfigurations (r : Recipe) (g : DependencyGraph) (accumulated : List String) :
    List String :=
  let candidates := r.openCandidates g accumulated
  let redundant := candidates.flatMap fun name =>
    ((g.extending name true).filter fun child =>
      candidates.contains child.name ||
        (r.options.acceptTransitive && (child.resolved? r.coordinate).isSome)).map
          Configuration.name
  candidates.filter fun name => !redundant.contains name

def plan (r : Recipe) (file : SourceFile) (s : Scanned) : Plan :=
  if !file.isBuildScript then .skip .notABuildFile
  else
    match file.project? with
    | none => .skip .noProject
    | some project =>
      if r.options.onlyIfUsing.isSome && !(s.usingType.get? project).getD false then
        .skip .typeNotUsed
      else
        match s.configurations.get? project, file.graph? with
        | none, _ => .skip .notScanned
        | some _, none => .skip .noDependencyGraph
        | some accumulated, some g =>
          match r.targetConfigurations g accumulated.names with
          | [] =>
            if (r.candidates accumulated.names).any g.contains then .skip .alreadySatisfied
            else .skip .noMatchingConfiguration
          | targets =>
            let suites := (s.suites.get? project).getD .empty
            .add (targets.map fun name =>
              ⟨name, (suitePlacement? name suites.names).getD .topLevel⟩)

end Recipe

end BuildScript
