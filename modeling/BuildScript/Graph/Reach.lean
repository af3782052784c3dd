import BuildScript.Graph.Basic

/-!
# Inheritance

What a configuration reaches along the edges, and what is visible in it because of that.
-/

namespace BuildScript.DependencyGraph

/-- Collects names along the edges, with `pending` still to be looked at. -/
def gather (g : DependencyGraph) : Nat → List String → List String → List String
  | 0, _, found => found
  | _, [], found => found
  | fuel + 1, name :: pending, found =>
    if found.contains name then gather g fuel pending found
    else gather g fuel (g.parents name ++ pending) (name :: found)

def edgeCount (g : DependencyGraph) : Nat :=
  (g.configurations.flatMap Configuration.extendsFrom).length

/-- The set of `name` and all that it extends, directly or through others. -/
def ancestors (g : DependencyGraph) (name : String) : List String :=
  Names.ofList (g.gather (g.edgeCount + 1) [name] [])

/-- `child` is `ancestor` or inherits from it. -/
def inherits (g : DependencyGraph) (child ancestor : String) : Bool :=
  (g.ancestors child).contains ancestor

/-- The other configurations that extend `name`, directly or (if `transitive`) at all. -/
def extending (g : DependencyGraph) (name : String) (transitive : Bool) : List Configuration :=
  g.configurations.filter fun c =>
    c.name ≠ name && if transitive then g.inherits c.name name else c.extendsFrom.contains name

/-- What a configuration and its ancestors declare. -/
def inherited (g : DependencyGraph) (name : String) : List Dependency :=
  (g.ancestors name).flatMap fun ancestor =>
    match g.configuration? ancestor with
    | some c => c.requested
    | none => []

/-- Makes everything visible that is declared in a configuration or its ancestors. -/
def resolveInherited (g : DependencyGraph) : DependencyGraph :=
  ⟨g.configurations.map fun c => (g.inherited c.name).foldl Configuration.resolve c,
    by simpa [Function.comp_def, Configuration.foldl_resolve_name] using g.ascending⟩

end BuildScript.DependencyGraph
