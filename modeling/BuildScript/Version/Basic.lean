import BuildScript.Text.Cut

/-!
# Versions

A version is a row of numbers separated by dots, followed by a qualifier. Versions are ordered by
their numbers, then releases after pre-releases, then by qualifier and text.
-/

namespace BuildScript

structure Version where
  text : String
  parts : List Nat
  qualifier : String
  deriving DecidableEq, Repr

namespace Version

/-- Numbers in versions stay below this bound. -/
def partBound : Nat := 18446744073709551616

/-- The number that a row of decimal digits stands for. -/
def numberOf (digits : List Char) : Nat :=
  digits.foldl (fun n c => n * 10 + (c.toNat - '0'.toNat)) 0

/-- The numbers at the front of a text, and what is left behind them. -/
def splitParts : Nat → List Char → List Nat × List Char
  | 0, text => ([], text)
  | fuel + 1, text =>
    let digits := text.takeWhile Char.isDigit
    if digits.isEmpty || numberOf digits ≥ partBound then ([], text)
    else
      match text.drop digits.length with
      | '.' :: c :: rest =>
        if c.isDigit then
          let (parts, qualifier) := splitParts fuel (c :: rest)
          (numberOf digits :: parts, qualifier)
        else ([numberOf digits], '.' :: c :: rest)
      | rest => ([numberOf digits], rest)

def parse (text : String) : Version :=
  let chars := text.toList
  let (parts, qualifier) := splitParts (chars.length + 1) chars
  ⟨text, parts, String.ofList qualifier⟩

/-- How the qualifiers of versions start that are not releases. -/
def preReleaseMarks : List String :=
  ["alpha", "beta", "milestone", "rc", "cr", "snapshot", "preview", "ea", "dev"]

/-- A short mark is one of three letters and a digit. -/
def isShortMark : List Char → Bool
  | c :: d :: _ => (c = 'm' || c = 'a' || c = 'b') && d.isDigit
  | _ => false

def isPreReleaseQualifier (qualifier : List Char) : Bool :=
  let lower := qualifier.map Char.toLower
  let stem := lower.dropWhile fun c => c = '.' || c = '-' || c = '_' || c = '+'
  Text.occurs "snapshot".toList lower ||
    preReleaseMarks.any (fun mark => mark.toList.isPrefixOf stem) || isShortMark stem

def isPreRelease (v : Version) : Bool :=
  !v.qualifier.isEmpty && isPreReleaseQualifier v.qualifier.toList

/-- Compares rows of numbers, with zeros for those that are missing. -/
def compareParts : List Nat → List Nat → Ordering
  | [], [] => .eq
  | [], b :: bs => (compare 0 b).then (compareParts [] bs)
  | a :: as, [] => (compare a 0).then (compareParts as [])
  | a :: as, b :: bs => (compare a b).then (compareParts as bs)

/-- Pre-releases come before releases. -/
def compareRelease : Bool → Bool → Ordering
  | true, false => .lt
  | false, true => .gt
  | _, _ => .eq

def compareText (a b : String) : Ordering := compareOfLessAndEq a b

def cmp (a b : Version) : Ordering :=
  (compareParts a.parts b.parts).then <|
    (compareRelease a.isPreRelease b.isPreRelease).then <|
      (compareText a.qualifier b.qualifier).then (compareText a.text b.text)

/-- The greatest of some versions; of equal ones the last. -/
def greatest? : List Version → Option Version
  | [] => none
  | v :: rest => some (rest.foldl (fun best w => if (cmp w best).isGE then w else best) v)

end Version

end BuildScript
