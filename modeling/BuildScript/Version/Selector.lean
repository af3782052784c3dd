import BuildScript.Error
import BuildScript.Regex.Parse
import BuildScript.Version.Basic

/-!
# Version selectors

A selector names one version, the latest of some kind, or a range of versions. A pattern may
restrict the qualifier.
-/

namespace BuildScript

/-- The end of a range. -/
structure Bound where
  parts : List Nat
  inclusive : Bool
  deriving DecidableEq, Repr

inductive Selection where
  | exact (version : String)
  | latestRelease
  | latestIntegration
  | latestPatch
  | latestMinor
  | range (lower upper : Option Bound)
  deriving DecidableEq, Repr

namespace Selection

/-- A number with an optional plus sign, below the bound for version numbers. -/
def number? (text : List Char) : Option Nat :=
  let digits := match text with
    | '+' :: rest => rest
    | _ => text
  if digits.isEmpty || !digits.all Char.isDigit || Version.numberOf digits ≥ Version.partBound then
    none
  else some (Version.numberOf digits)

/-- Numbers separated by dots. -/
def numbers? (text : List Char) : Option (List Nat) := (Text.fields '.' text).mapM number?

/-- The numbers with the last increased by one. -/
def bumpLast? : List Nat → Option (List Nat)
  | [] => some []
  | [n] => if n + 1 < Version.partBound then some [n + 1] else none
  | n :: rest => (bumpLast? rest).map (n :: ·)

/-- From `lower` on, up to but without the version after the numbers `upper`. -/
def rangeUpTo (lower upper : List Nat) : Except SelectorFault Selection :=
  match bumpLast? upper with
  | some bumped => .ok (range (some ⟨lower, true⟩) (some ⟨bumped, false⟩))
  | none => .error .partOutOfRange

/-- The numbers up to the first that is not zero, or all of them. -/
def significant : List Nat → List Nat
  | [] => []
  | n :: rest => if n = 0 then n :: significant rest else [n]

/-- One side of a bracket range; blank if that side is open. -/
def bound? (inclusive : Bool) (text : List Char) : Except SelectorFault (Option Bound) :=
  let text := Text.trimChars text
  if text.isEmpty then .ok none
  else
    match numbers? text with
    | some parts => .ok (some ⟨parts, inclusive⟩)
    | none => .error (.boundNotNumeric (String.ofList text))

/-- A range in brackets, with the text between them. -/
def bracketRange (lowerInclusive upperInclusive : Bool) (inner : List Char) :
    Except SelectorFault Selection :=
  match Text.cutFirst? ',' inner with
  | none => .error .rangeWithoutComma
  | some (low, high) => do
    let lower ← bound? lowerInclusive low
    let upper ← bound? upperInclusive high
    if lower.isNone && upper.isNone then .error .rangeWithoutBounds else .ok (range lower upper)

/-- A text that can be a version as it is. -/
def isExact : List Char → Bool
  | [] => false
  | c :: rest =>
    c.isAlphanum && rest.all fun d => d.isAlphanum || d = '.' || d = '_' || d = '+' || d = '-'

/-- What is in front of a wildcard at the end. -/
def wildcardStem? (text : List Char) : Option (List Char) :=
  match text.reverse with
  | c :: '.' :: stem => if c = 'X' || c = 'x' || c = '*' then some stem.reverse else none
  | _ => none

/-- Two rows of numbers with a hyphen between them. -/
def hyphenRange? (text : List Char) : Option (List Nat × List Nat) := do
  let (low, high) ← Text.cutFirst? '-' text
  some (← numbers? (Text.trimChars low), ← numbers? (Text.trimChars high))

/-- The selection that a text without blanks around it describes. -/
def parse (text : List Char) : Except SelectorFault Selection :=
  if text.isEmpty then .error .empty
  else if text = "latest.release".toList then .ok latestRelease
  else if text = "latest.integration".toList then .ok latestIntegration
  else if text = "latest.patch".toList then .ok latestPatch
  else if text = "latest.minor".toList then .ok latestMinor
  else if text = ['X'] || text = ['x'] || text = ['*'] then .ok (range none none)
  else if "latest.".toList.isPrefixOf text then .error .unknownLatest
  else if text.head? = some '[' || text.head? = some '(' then
    let inner := (text.drop 1).dropLast
    match text.getLast? with
    | some ']' => bracketRange (text.head? = some '[') true inner
    | some ')' => bracketRange (text.head? = some '[') false inner
    | _ => .error .unclosedRange
  else if text.head? = some '~' then
    match numbers? (text.drop 1) with
    | some parts => rangeUpTo parts (parts.take 2)
    | none => .error .tildeNotNumeric
  else if text.head? = some '^' then
    match numbers? (text.drop 1) with
    | some parts => rangeUpTo parts (significant parts)
    | none => .error .caretNotNumeric
  else
    match wildcardStem? text with
    | some stem =>
      match numbers? stem with
      | some parts => rangeUpTo parts parts
      | none => .error .wildcardNotNumeric
    | none =>
      match hyphenRange? text with
      | some (low, high) => rangeUpTo low high
      | none => if isExact text then .ok (exact (String.ofList text)) else .error .unrecognised

/-- A row of numbers lies on the inner side of a lower end. -/
def above (parts : List Nat) : Option Bound → Bool
  | none => true
  | some b => match Version.compareParts parts b.parts with
    | .gt => true
    | .eq => b.inclusive
    | .lt => false

/-- A row of numbers lies on the inner side of an upper end. -/
def below (parts : List Nat) : Option Bound → Bool
  | none => true
  | some b => match Version.compareParts parts b.parts with
    | .lt => true
    | .eq => b.inclusive
    | .gt => false

end Selection

/-- An expression for qualifiers, with the text that it was written as. -/
structure QualifierPattern where
  source : String
  regex : Regex

structure VersionSelector where
  text : String
  selection : Selection
  pattern : Option QualifierPattern

namespace VersionSelector

/-- The pattern that a text describes; it has to match the whole qualifier. -/
def patternOf (source : String) : Except Error QualifierPattern :=
  match Regex.parse? ("^(?:" ++ source ++ ")$") with
  | some regex => .ok ⟨source, regex⟩
  | none => .error (.invalidVersionPattern source)

/-- An empty pattern is none. -/
def parse (text : String) (pattern : Option String) : Except Error VersionSelector := do
  let text := Text.trimChars text.toList
  let selection ← match Selection.parse text with
    | .ok selection => .ok selection
    | .error fault => .error (.invalidVersionSelector (String.ofList text) fault)
  let pattern ← match pattern.filter fun p => !p.isEmpty with
    | some source => (patternOf source).map some
    | none => .ok none
  .ok ⟨String.ofList text, selection, pattern⟩

/-- The version, if the selector names just one. -/
def onlyVersion? (s : VersionSelector) : Option String :=
  match s.selection with
  | .exact version => some version
  | _ => none

/-- The qualifier has the form that the pattern asks for; without a pattern the answer is
`default`. -/
def qualifierMatches (s : VersionSelector) (v : Version) (default : Bool) : Bool :=
  match s.pattern with
  | some pattern => pattern.regex.isMatch v.qualifier
  | none => default

/-- The version is one that the selector allows. Without a current version to start from, the
latest patch and minor versions are chosen like the latest release. A range without a pattern
allows no qualifier. -/
def allows (s : VersionSelector) (v : Version) : Bool :=
  match s.selection with
  | .exact version => v.text = version
  | .latestIntegration => s.qualifierMatches v true
  | .latestRelease | .latestPatch | .latestMinor => !v.isPreRelease && s.qualifierMatches v true
  | .range lower upper =>
    !v.parts.isEmpty && s.qualifierMatches v v.qualifier.isEmpty &&
      Selection.above v.parts lower && Selection.below v.parts upper

/-- The greatest version that the selector allows. -/
def select? (s : VersionSelector) (versions : List Version) : Option Version :=
  Version.greatest? (versions.filter s.allows)

end VersionSelector

end BuildScript
