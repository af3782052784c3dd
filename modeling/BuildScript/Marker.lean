import BuildScript.Graph.Basic

/-!
# Markers

What is known about a file beyond its text: the project it belongs to, its source set, the language
of a build file and the project's graph. A file may carry several markers of one kind; the first
counts.
-/

namespace BuildScript

/-- The language a build file is written in. -/
inductive Dsl where
  | groovy
  | kotlin
  deriving DecidableEq, Repr

inductive Marker where
  | project (name : String)
  | sourceSet (name : String)
  | buildFile (dsl : Dsl)
  | graph (graph : DependencyGraph)
  deriving DecidableEq, Repr

namespace Marker

def project? : Marker → Option String
  | project name => some name
  | _ => none

def sourceSet? : Marker → Option String
  | sourceSet name => some name
  | _ => none

def dsl? : Marker → Option Dsl
  | buildFile dsl => some dsl
  | _ => none

def graph? : Marker → Option DependencyGraph
  | graph g => some g
  | _ => none

end Marker

/-- The configuration that a dependency used from this source set belongs in. -/
def implementationConfiguration (sourceSet : String) : String :=
  if sourceSet = "main" then "implementation" else sourceSet ++ "Implementation"

end BuildScript
