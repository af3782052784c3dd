import BuildScript.Text.Cut

/-!
# Paths

A path is a text of names separated by slashes. Repeated and trailing slashes and inner `.` parts do
not count; a leading `.` does.
-/

namespace BuildScript.Path

inductive Part where
  | root
  | here
  | up
  | name (text : String)
  deriving DecidableEq, Repr

namespace Part

/-- The place of a part in the order of paths: its kind, then its text. -/
def rank : Part → Nat × String
  | root => (0, "")
  | here => (1, "")
  | up => (2, "")
  | name text => (3, text)

def lt (a b : Part) : Bool :=
  a.rank.1 < b.rank.1 || (a.rank.1 = b.rank.1 && a.rank.2 < b.rank.2)

def text : Part → String
  | root => "/"
  | here => "."
  | up => ".."
  | name text => text

end Part

/-- The part that a name between slashes stands for. -/
def partOf? (text : List Char) : Option Part :=
  match text with
  | [] | ['.'] => none
  | ['.', '.'] => some .up
  | _ => some (.name (String.ofList text))

def parts (path : String) : List Part :=
  match Text.fields '/' path.toList with
  | [] => []
  | first :: rest =>
    let front :=
      if first.isEmpty then (if rest.isEmpty then [] else [Part.root])
      else if first = ['.'] then [Part.here]
      else (partOf? first).toList
    front ++ rest.filterMap partOf?

/-- The last part, if it is a name. -/
def fileName? (path : String) : Option String :=
  match (parts path).getLast? with
  | some (.name text) => some text
  | _ => none

def fileName (path : String) : String := (fileName? path).getD ""

/-- What a name has behind its last dot, unless the dot is its first character. -/
def extension? (fileName : String) : Option String :=
  match Text.cutLast? '.' fileName.toList with
  | some (before, after) => if before.isEmpty then none else some (String.ofList after)
  | none => none

/-- The order of paths by their parts. -/
def partsLt : List Part → List Part → Bool
  | _, [] => false
  | [], _ :: _ => true
  | a :: as, b :: bs => a.lt b || (a = b && partsLt as bs)

def lt (a b : String) : Bool := partsLt (parts a) (parts b)

/-- Names joined by slashes. -/
def ofNames (names : List String) : String := Text.joinWith "/" names

end BuildScript.Path
