import BuildScript.Text.Alphabetic
import BuildScript.Text.Cut
import BuildScript.Text.CaseFold

/-!
# Regular expressions

Expressions are matched by sets of positions: an expression takes the positions where a match may
start to those where it may end.
-/

namespace BuildScript

/-- A row of characters: the first, how many follow it, and the step from each to the next. -/
structure CharRow where
  first : Nat
  more : Nat
  step : Nat

def CharRow.mem (row : CharRow) (c : Char) : Bool :=
  row.first ≤ c.toNat && (c.toNat - row.first) % row.step = 0 &&
    (c.toNat - row.first) / row.step ≤ row.more

/-- A set of characters. -/
inductive CharSet where
  | empty
  | range (first last : Char)
  | rows (list : List CharRow)
  | categories (list : List Text.Category)
  | alphabetic
  | word
  | digit
  | blank
  | union (a b : CharSet)
  | inter (a b : CharSet)
  | diff (a b : CharSet)
  | compl (a : CharSet)
  /-- The set with all characters that differ from a member only in case. -/
  | caseless (a : CharSet)

namespace CharSet

def single (c : Char) : CharSet := range c c

def any : CharSet := compl empty

def unionAll : List CharSet → CharSet
  | [] => empty
  | [a] => a
  | a :: rest => union a (unionAll rest)

def mem : CharSet → Char → Bool
  | empty, _ => false
  | range first last, c => first ≤ c && c ≤ last
  | rows list, c => list.any (·.mem c)
  | categories list, c => list.contains (Text.Category.of c)
  | alphabetic, c => Text.isAlphabetic c
  | word, c => Text.isWordChar c
  | digit, c => Text.isDecimalDigit c
  | blank, c => Text.isBlank c
  | union a b, c => a.mem c || b.mem c
  | inter a b, c => a.mem c && b.mem c
  | diff a b, c => a.mem c && !b.mem c
  | compl a, c => !a.mem c
  | caseless a, c => a.mem c || (Text.caseVariants c).any a.mem

end CharSet

/-- A condition on a position. -/
inductive Anchor where
  | startText
  | endText
  | startLine
  | endLine
  | wordBoundary
  | noWordBoundary
  | wordStart
  | wordEnd
  | wordStartHalf
  | wordEndHalf
  deriving DecidableEq, Repr

inductive Regex where
  | empty
  | one (set : CharSet)
  | anchor (anchor : Anchor) (words : CharSet)
  | seq (a b : Regex)
  | alt (a b : Regex)
  /-- From `least` to `most` times, or any number from `least` on. -/
  | loop (r : Regex) (least : Nat) (most : Option Nat)

namespace Anchor

/-- The anchor holds between the characters `before` and `after`; there are none at the ends. -/
def holds (words : CharSet) (before after : Option Char) : Anchor → Bool
  | startText => before.isNone
  | endText => after.isNone
  | startLine => before.isNone || before = some '\n'
  | endLine => after.isNone || after = some '\n'
  | wordBoundary => isWord before != isWord after
  | noWordBoundary => isWord before == isWord after
  | wordStart => !isWord before && isWord after
  | wordEnd => isWord before && !isWord after
  | wordStartHalf => !isWord before
  | wordEndHalf => !isWord after
where
  isWord : Option Char → Bool
    | some c => words.mem c
    | none => false

end Anchor

namespace Regex

/-- The positions of both lists, each once. -/
def merge (a b : List Nat) : List Nat := a ++ b.filter fun p => !a.contains p

/-- The positions reached by exactly `n` steps. -/
def times (step : List Nat → List Nat) : Nat → List Nat → List Nat
  | 0, positions => positions
  | n + 1, positions => times step n (step positions)

/-- The positions reached by at most `n` steps. -/
def upTo (step : List Nat → List Nat) : Nat → List Nat → List Nat
  | 0, positions => positions
  | n + 1, positions => upTo step n (merge positions (step positions))

/-- Where matches that start at one of the positions end. More steps than there are characters
never reach a new position. -/
def ends (text : Array Char) : Regex → List Nat → List Nat
  | empty, positions => positions
  | one set, positions => positions.filterMap fun p =>
    match text[p]? with
    | some c => if set.mem c then some (p + 1) else none
    | none => none
  | anchor a words, positions => positions.filter fun p =>
    a.holds words (if p = 0 then none else text[p - 1]?) text[p]?
  | seq a b, positions => ends text b (ends text a positions)
  | alt a b, positions => merge (ends text a positions) (ends text b positions)
  | loop r least most, positions =>
    let start := times (fun ps => ends text r ps) least positions
    let more := match most with
      | some n => min (n - least) (text.size + 1)
      | none => text.size + 1
    upTo (fun ps => ends text r ps) more start

/-- The expression matches somewhere in the text. -/
def isMatch (r : Regex) (text : String) : Bool :=
  let chars := text.toList.toArray
  !(r.ends chars (List.range (chars.size + 1))).isEmpty

end Regex

end BuildScript
