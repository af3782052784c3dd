import BuildScript.Coordinate
import BuildScript.Ordered

/-!
# Configurations

A configuration is a named bucket of dependencies. It inherits what the configurations that it
extends hold.
-/

namespace BuildScript

structure Configuration where
  name : String
  /-- The names of the configurations that this one extends directly. -/
  extendsFrom : List String := []
  /-- The dependencies declared here. -/
  requested : List Dependency := []
  /-- The dependencies visible here after resolution. -/
  resolved : List Dependency := []
  deriving DecidableEq, Repr

namespace Configuration

/-- An empty configuration that extends the given ones. -/
def extending (name : String) (parents : List String) : Configuration :=
  { name, extendsFrom := Names.ofList parents }

def requested? (c : Configuration) (coordinate : Coordinate) : Option Dependency :=
  c.requested.find? (·.isOf coordinate)

def resolved? (c : Configuration) (coordinate : Coordinate) : Option Dependency :=
  c.resolved.find? (·.isOf coordinate)

/-- Declares a dependency, unless one of the same coordinate is declared already. -/
def request (c : Configuration) (d : Dependency) : Configuration :=
  if (c.requested? d.toCoordinate).isSome then c else { c with requested := c.requested ++ [d] }

/-- Makes a dependency visible, unless one of the same coordinate is visible already. -/
def resolve (c : Configuration) (d : Dependency) : Configuration :=
  if (c.resolved? d.toCoordinate).isSome then c else { c with resolved := c.resolved ++ [d] }

@[simp] theorem foldl_resolve_name (ds : List Dependency) (c : Configuration) :
    (ds.foldl resolve c).name = c.name := by
  induction ds generalizing c with
  | nil => rfl
  | cons d ds ih =>
    rw [List.foldl_cons, ih, resolve]
    split <;> rfl

end Configuration

/-- The configurations that every project of the plain kind has. -/
def standardConfigurations : List String :=
  ["api", "implementation", "compileOnly", "compileOnlyApi", "runtimeOnly", "testImplementation",
    "testCompileOnly", "testRuntimeOnly"]

def isStandardConfiguration (name : String) : Bool :=
  name = "default" || standardConfigurations.contains name

end BuildScript
