import BuildScript.SourceFile.Basic
import BuildScript.TypeUse.Pattern

/-!
# Uses of a type

A file uses a type if it imports the type or its package, or if it mentions the type by a dotted
name.
-/

namespace BuildScript.TypePattern

/-- The package of an import with a wildcard. -/
def wildcardImport? (line : List Char) : Option (List Char) := do
  let named ← Text.dropFront? "import ".toList (Text.trimChars line)
  let named := ((Text.trimChars named).reverse.dropWhile (· = ';')).reverse
  let named := Text.trimChars named
  let named := (Text.dropFront? "static ".toList named).getD named
  Text.dropBack? ".*".toList (Text.trimChars named)

def isQualifiedChar (c : Char) : Bool := Text.isAlphanumeric c || c = '_' || c = '$' || c = '.'

/-- The stretches of a text that dotted names are made of. -/
def words : List Char → List (List Char)
  | [] => [[]]
  | c :: rest =>
    if isQualifiedChar c then
      match words rest with
      | [] => [[c]]
      | word :: more => (c :: word) :: more
    else [] :: words rest

def trimDots (word : List Char) : List Char :=
  ((word.dropWhile (· = '.')).reverse.dropWhile (· = '.')).reverse

/-- The dotted names of a text. -/
def qualifiedNames (text : List Char) : List (List Char) :=
  ((words text).map trimDots).filter fun word =>
    word.contains '.' && !Text.occurs "..".toList word && !(word.head?.any Char.isDigit)

/-- A name and what is left of it when segments are taken from its end. -/
def heads : Nat → List Char → List (List Char)
  | 0, _ => []
  | fuel + 1, name =>
    name :: match Text.cutLast? '.' name with
      | some (head, _) => heads fuel head
      | none => []

/-- A text refers to a type that the pattern covers. A member or nested type of such a type counts
as well. -/
def isUsedIn (p : TypePattern) (text : List Char) : Bool :=
  ((Text.fields '\n' text).any fun line => (wildcardImport? line).any p.coversPackage) ||
    (qualifiedNames text).any fun name => (heads (name.length + 1) name).any p.covers

/-- How to find out whether a file uses a type. -/
structure Usage where
  uses : SourceFile → TypePattern → Bool

namespace Usage

def imports : Usage := ⟨fun file p => p.isUsedIn file.print.toList⟩

/-- The answer is known beforehand. -/
def known (answer : Bool) : Usage := ⟨fun _ _ => answer⟩

end Usage

end BuildScript.TypePattern
