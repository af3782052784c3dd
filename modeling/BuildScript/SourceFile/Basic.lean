import BuildScript.Marker
import BuildScript.Node.Parse
import BuildScript.Node.Print

/-!
# Source files

A file with its statements, the trivia behind the last and the markers. Build scripts are parsed;
other sources, which are searched and never edited, are kept as one verbatim statement.
-/

namespace BuildScript

structure SourceFile where
  head : Head
  path : String
  statements : List Node
  /-- The trivia behind the last statement. -/
  tail : String
  markers : List Marker

namespace SourceFile

/-- A file that was just read, without markers. -/
def new (path : String) (statements : List Node) (tail : String) : SourceFile :=
  ⟨Head.new 0 "", path, statements, tail, []⟩

def parse (path script : String) : SourceFile :=
  let (statements, tail) := Node.parseScript script
  new path statements tail

/-- The file as one statement; an empty file has none. -/
def verbatim (path text : String) : SourceFile :=
  new path (if text.isEmpty then [] else [.raw (Head.new 1 "") text]) ""

def print (f : SourceFile) : String := f.head.lead ++ Node.printAll f.statements ++ f.tail

/-- Both are the same revision of one file. -/
def same (a b : SourceFile) : Bool := a.head.id = b.head.id && a.head.revision = b.head.revision

def withMarkers (f : SourceFile) (markers : List Marker) : SourceFile :=
  { f with head := f.head.revised, markers }

def withMarker (f : SourceFile) (marker : Marker) : SourceFile :=
  f.withMarkers (f.markers ++ [marker])

def withLead (f : SourceFile) (lead : String) : SourceFile :=
  { f with head := { f.head.revised with lead } }

def withStatements (f : SourceFile) (statements : List Node) : SourceFile :=
  { f with head := f.head.revised, statements }

def project? (f : SourceFile) : Option String := f.markers.findSome? Marker.project?

def sourceSet? (f : SourceFile) : Option String := f.markers.findSome? Marker.sourceSet?

def dsl? (f : SourceFile) : Option Dsl := f.markers.findSome? Marker.dsl?

def graph? (f : SourceFile) : Option DependencyGraph := f.markers.findSome? Marker.graph?

end SourceFile

end BuildScript
