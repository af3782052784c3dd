import BuildScript.Error
import BuildScript.Text.Cut

/-!
# Coordinates and dependencies

A dependency is written `group:artifact[:version[:classifier]][@extension]`; classifier and
extension are accepted and dropped.
-/

namespace BuildScript

/-- The pair that dependencies are looked up by. -/
structure Coordinate where
  group : String
  artifact : String
  deriving DecidableEq, Repr

def Coordinate.display (c : Coordinate) : String := c.group ++ ":" ++ c.artifact

/-- A dependency as it is declared or resolved. -/
structure Dependency extends Coordinate where
  version : Option String
  deriving DecidableEq, Repr

namespace Dependency

def display (d : Dependency) : String :=
  match d.version with
  | some version => d.toCoordinate.display ++ ":" ++ version
  | none => d.toCoordinate.display

/-- The fields of a written dependency, without the blanks around them. -/
def writtenFields (text : String) : List String :=
  let body := match Text.cutFirst? '@' text.toList with
    | some (before, _) => before
    | none => text.toList
  (Text.fields ':' body).map fun field => String.ofList (Text.trimChars field)

def parse (text : String) : Except Error Dependency :=
  match writtenFields text with
  | group :: artifact :: rest =>
    if group.isEmpty || artifact.isEmpty then .error (.invalidCoordinate text)
    else .ok ⟨⟨group, artifact⟩, rest.head?.filter fun version => !version.isEmpty⟩
  | _ => .error (.invalidCoordinate text)

def isOf (c : Coordinate) (d : Dependency) : Bool := d.toCoordinate = c

end Dependency

/-- The coordinate of a written dependency. -/
def Coordinate.parse (text : String) : Except Error Coordinate :=
  (Dependency.parse text).map Dependency.toCoordinate

end BuildScript
