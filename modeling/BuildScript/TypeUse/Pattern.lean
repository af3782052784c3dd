import BuildScript.Error
import BuildScript.Text.Alphabetic
import BuildScript.Text.Cut

/-!
# Type patterns

A pattern for fully qualified type names. `a.b.C` is just that type, `a.b.*` every type of the
package `a.b`, and `a..*` every type in `a` and the packages below it. A pattern also tells for a
package whether some type of it could match.
-/

namespace BuildScript

/-- A piece of a pattern. -/
inductive PatternPart where
  | char (c : Char)
  /-- Any number of name characters. -/
  | run
  /-- A dot, and then any number of further segments, each with its dot. -/
  | descent
  /-- Any number of further segments, each behind a dot. -/
  | below
  deriving DecidableEq, Repr

namespace PatternPart

/-- A character inside a segment of a name. -/
def isNameChar (c : Char) : Bool := Text.isWordChar c || c = '$'

/-- What can be left of a text behind a run of name characters. -/
def afterRun : List Char → List (List Char)
  | [] => [[]]
  | c :: rest => (c :: rest) :: if isNameChar c then afterRun rest else []

/-- What can be left behind segments that end with a dot; `inside` in the middle of one. -/
def afterSegments (inside : Bool) : List Char → List (List Char)
  | [] => if inside then [] else [[]]
  | c :: rest =>
    if inside then
      if c = '.' then afterSegments false rest
      else if isNameChar c then afterSegments true rest
      else []
    else (c :: rest) :: if isNameChar c then afterSegments true rest else []

/-- Where a row of segments that start with a dot may be cut. -/
inductive Place where
  | outside
  | behindDot
  | inside

/-- What can be left behind segments that start with a dot. -/
def afterBelow : Place → List Char → List (List Char)
  | .behindDot, [] => []
  | _, [] => [[]]
  | .outside, c :: rest => (c :: rest) :: if c = '.' then afterBelow .behindDot rest else []
  | .behindDot, c :: rest => if isNameChar c then afterBelow .inside rest else []
  | .inside, c :: rest =>
    (c :: rest) ::
      if c = '.' then afterBelow .behindDot rest
      else if isNameChar c then afterBelow .inside rest
      else []

/-- What can be left of a text behind a piece of a pattern. -/
def after : PatternPart → List Char → List (List Char)
  | char c, d :: rest => if c = d then [rest] else []
  | char _, [] => []
  | run, text => afterRun text
  | descent, '.' :: rest => afterSegments false rest
  | descent, _ => []
  | below, text => afterBelow .outside text

/-- The pieces that a text describes. -/
def ofText : List Char → List PatternPart
  | '.' :: '.' :: rest => descent :: ofText rest
  | '*' :: rest => run :: ofText rest
  | c :: rest => char c :: ofText rest
  | [] => []

/-- The character has a meaning of its own in a regular expression. -/
def isMeta (c : Char) : Bool :=
  ['\\', '.', '+', '*', '?', '(', ')', '|', '[', ']', '\x7b', '\x7d', '^', '$', '#', '&', '-',
    '~'].contains c

/-- The text of a regular expression for a piece. -/
def expression : PatternPart → List Char
  | char c => if isMeta c then ['\\', c] else [c]
  | run => "[\\w$]*".toList
  | descent => "\\.(?:[\\w$]+\\.)*".toList
  | below => "(?:\\.[\\w$]+)*".toList

/-- The regular expression for the texts that consist of the pieces. -/
def expressionOf (parts : List PatternPart) : String :=
  String.ofList ('^' :: parts.flatMap expression ++ ['$'])

/-- What can be left of some texts behind all pieces. -/
def afterAll : List PatternPart → List (List Char) → List (List Char)
  | [], texts => texts
  | part :: parts, texts => afterAll parts (texts.flatMap part.after).eraseDups

/-- The pieces cover the whole text. -/
def covers (parts : List PatternPart) (text : List Char) : Bool :=
  (afterAll parts [text]).contains []

end PatternPart

structure TypePattern where
  text : String
  types : List PatternPart
  packages : List PatternPart
  deriving DecidableEq, Repr

namespace TypePattern

/-- The pieces for packages that can hold a matching type. -/
def packageParts (text : List Char) : List PatternPart :=
  match Text.dropBack? "..*".toList text with
  | some base => PatternPart.ofText base ++ [.below]
  | none =>
    match Text.cutLast? '.' text with
    | some (package, _) =>
      if package.getLast? = some '.' then
        PatternPart.ofText (package.reverse.dropWhile (· = '.')).reverse ++ [.below]
      else PatternPart.ofText package
    | none => []

def isValid (text : List Char) : Bool :=
  !text.isEmpty && text.head? != some '.' && !Text.occurs "...".toList text &&
    text.all fun c => Text.isAlphanumeric c || c = '_' || c = '$' || c = '.' || c = '*'

def parse (text : String) : Except Error TypePattern :=
  let chars := Text.trimChars text.toList
  if isValid chars then
    .ok ⟨String.ofList chars, PatternPart.ofText chars, packageParts chars⟩
  else .error (.invalidTypePattern (String.ofList chars))

/-- The fully qualified name matches. -/
def covers (p : TypePattern) (name : List Char) : Bool := PatternPart.covers p.types name

/-- Some type of the package could match. -/
def coversPackage (p : TypePattern) (package : List Char) : Bool :=
  PatternPart.covers p.packages package

end TypePattern

end BuildScript
