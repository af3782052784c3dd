import BuildScript.Regex.Property

/-!
# Escapes and classes

The parts of an expression that stand for one character: escapes, named sets and classes in brackets
with their nested classes and set operations.
-/

namespace BuildScript.Regex

/-- What a letter in an option group switches. -/
structure Flags where
  caseless : Bool := false
  multiLine : Bool := false
  dotAll : Bool := false
  verbose : Bool := false
  unicode : Bool := true
  carriageReturn : Bool := false
  deriving DecidableEq, Repr

/-- What is behind blanks and comments, where these do not count. -/
def skipVerbose (flags : Flags) : Nat → List Char → List Char
  | 0, cs => cs
  | fuel + 1, cs =>
    if flags.verbose then
      match cs with
      | '#' :: rest => skipVerbose flags fuel (rest.dropWhile fun c => c ≠ '\n')
      | c :: rest => if Text.isBlank c then skipVerbose flags fuel rest else cs
      | [] => []
    else cs

def skip (flags : Flags) (cs : List Char) : List Char := skipVerbose flags (cs.length + 1) cs

/-- The meaning of a backslash and what follows it. -/
inductive Escape where
  | literal (c : Char)
  | oneOf (set : CharSet)
  | anchor (a : Anchor)

def asciiWord : CharSet :=
  .unionAll [.range 'a' 'z', .range 'A' 'Z', .range '0' '9', .single '_']

def asciiDigit : CharSet := .range '0' '9'

def asciiBlank : CharSet := .unionAll [.range '\t' '\r', .single ' ']

def wordSet (flags : Flags) : CharSet := if flags.unicode then .word else asciiWord

/-- What stands in braces, behind the opening one. -/
def braced? (flags : Flags) : Nat → List Char → Option (List Char × List Char)
  | 0, _ => none
  | fuel + 1, cs =>
    match skip flags cs with
    | [] => none
    | '\x7d' :: rest => some ([], rest)
    | c :: rest => (braced? flags fuel rest).map fun (text, rest) => (c :: text, rest)

/-- The rest of `\p`, a one-letter name or a name in braces; `negated` for `\P`. -/
def propertyEscape? (flags : Flags) (negated : Bool) (cs : List Char) :
    Option (Escape × List Char) := do
  let ((set, excluded), rest) ← match skip flags cs with
    | '\x7b' :: rest => do
      let (text, rest) ← braced? flags (rest.length + 1) rest
      some (← query? text, rest)
    | c :: rest => some ((← property? [c], false), rest)
    | [] => none
  let set := if flags.caseless then .caseless set else set
  if flags.unicode then some (.oneOf (if negated != excluded then .compl set else set), rest)
  else none

/-- A class of the short kind, such as `\d`. Without Unicode a negated class would match parts of
characters and is refused. -/
def shortClass? (flags : Flags) (unicode ascii : CharSet) (negated : Bool) : Option Escape :=
  if flags.unicode then some (.oneOf (if negated then .compl unicode else unicode))
  else if negated then none
  else some (.oneOf ascii)

/-- A character given by `count` hexadecimal digits or by digits in braces. -/
def hexEscape? (flags : Flags) (count : Nat) (cs : List Char) : Option (Escape × List Char) :=
  match skip flags cs with
  | '\x7b' :: rest => do
    let (digits, rest) ← braced? flags (rest.length + 1) rest
    if digits.isEmpty then none
    else
      let value ← Text.hexNumber? 0 digits
      if value.isValidChar then some (.literal (Char.ofNat value), rest) else none
  | cs => do
    let digits := cs.take count
    if digits.length = count then
      let value ← Text.hexNumber? 0 digits
      if value.isValidChar then some (.literal (Char.ofNat value), cs.drop count) else none
    else none

/-- Punctuation may be escaped, angle brackets have a meaning of their own. -/
def isEscapable (c : Char) : Bool :=
  c.toNat < 128 && !c.isAlphanum && c ≠ '<' && c ≠ '>'

def wordBoundary (cs : List Char) : Escape × List Char :=
  let named (name : String) (a : Anchor) : Option (Escape × List Char) :=
    (Text.dropFront? name.toList cs).map fun rest => (.anchor a, rest)
  (named "\x7bstart\x7d" .wordStart <|> named "\x7bend\x7d" .wordEnd <|>
    named "\x7bstart-half\x7d" .wordStartHalf <|> named "\x7bend-half\x7d" .wordEndHalf).getD
    (.anchor .wordBoundary, cs)

/-- What follows a backslash. -/
def escape? (flags : Flags) : List Char → Option (Escape × List Char)
  | [] => none
  | c :: rest =>
    match c with
    | 'x' => hexEscape? flags 2 rest
    | 'u' => hexEscape? flags 4 rest
    | 'U' => hexEscape? flags 8 rest
    | 'p' => propertyEscape? flags false rest
    | 'P' => propertyEscape? flags true rest
    | 'd' => (shortClass? flags .digit asciiDigit false).map (·, rest)
    | 'D' => (shortClass? flags .digit asciiDigit true).map (·, rest)
    | 's' => (shortClass? flags .blank asciiBlank false).map (·, rest)
    | 'S' => (shortClass? flags .blank asciiBlank true).map (·, rest)
    | 'w' => (shortClass? flags .word asciiWord false).map (·, rest)
    | 'W' => (shortClass? flags .word asciiWord true).map (·, rest)
    | 'a' => some (.literal '\x07', rest)
    | 'f' => some (.literal '\x0c', rest)
    | 't' => some (.literal '\t', rest)
    | 'n' => some (.literal '\n', rest)
    | 'r' => some (.literal '\r', rest)
    | 'v' => some (.literal '\x0b', rest)
    | 'A' => some (.anchor .startText, rest)
    | 'z' => some (.anchor .endText, rest)
    | 'b' => some (wordBoundary rest)
    | 'B' => some (.anchor .noWordBoundary, rest)
    | '<' => some (.anchor .wordStart, rest)
    | '>' => some (.anchor .wordEnd, rest)
    | _ => if isEscapable c then some (.literal c, rest) else none

/-- The characters of a named class such as `[:alpha:]`. -/
def asciiClass? (name : String) : Option CharSet :=
  match name with
  | "alnum" => some (.unionAll [.range '0' '9', .range 'A' 'Z', .range 'a' 'z'])
  | "alpha" => some (.unionAll [.range 'A' 'Z', .range 'a' 'z'])
  | "ascii" => some (.range '\x00' '\x7f')
  | "blank" => some (.unionAll [.single '\t', .single ' '])
  | "cntrl" => some (.unionAll [.range '\x00' '\x1f', .single '\x7f'])
  | "digit" => some asciiDigit
  | "graph" => some (.range '!' '~')
  | "lower" => some (.range 'a' 'z')
  | "print" => some (.range ' ' '~')
  | "punct" =>
    some (.unionAll [.range '!' '/', .range ':' '@', .range '[' '\x60', .range '\x7b' '~'])
  | "space" => some asciiBlank
  | "upper" => some (.range 'A' 'Z')
  | "word" => some asciiWord
  | "xdigit" => some (.unionAll [.range '0' '9', .range 'A' 'F', .range 'a' 'f'])
  | _ => none

/-- A named class behind its opening bracket. -/
def namedClass? (cs : List Char) : Option (CharSet × List Char) :=
  match cs with
  | ':' :: rest => do
    let (negated, rest) := match rest with
      | '^' :: rest => (true, rest)
      | _ => (false, rest)
    let (name, rest) ← Text.cutFirst? ':' rest
    let set ← asciiClass? (String.ofList name)
    match rest with
    | ']' :: rest => some (if negated then .compl set else set, rest)
    | _ => none
  | _ => none

/-- The operations between the parts of a class. -/
inductive SetOperation where
  | intersection
  | difference
  | symmetricDifference

def SetOperation.apply (a b : CharSet) : SetOperation → CharSet
  | intersection => .inter a b
  | difference => .diff a b
  | symmetricDifference => .union (.diff a b) (.diff b a)

/-- What was read, with how deep its parts are nested in one another. -/
structure Nested (α : Type) where
  value : α
  depth : Nat := 0

/-- The depth of parts that stand side by side. A single part stands for itself. -/
def depthOf : List Nat → Nat
  | [] => 0
  | [depth] => depth
  | depths => depths.foldr max 0 + 1

/-- A class that is open: what it holds so far, and the operation that waits for its right side. -/
structure OpenClass where
  negated : Bool
  items : List (Nested CharSet)
  pending : Option (SetOperation × Nested CharSet)

namespace OpenClass

/-- The set so far. -/
def value (flags : Flags) (c : OpenClass) : Nested CharSet :=
  let fold (set : CharSet) : CharSet := if flags.caseless then .caseless set else set
  let items := CharSet.unionAll (c.items.reverse.map Nested.value)
  let depth := depthOf (c.items.map Nested.depth)
  match c.pending with
  | none => ⟨items, depth⟩
  | some (operation, left) =>
    ⟨operation.apply (fold left.value) (fold items), max left.depth depth + 1⟩

/-- The set of the whole class. -/
def close (flags : Flags) (c : OpenClass) : Nested CharSet :=
  let inner := c.value flags
  let set := if flags.caseless then .caseless inner.value else inner.value
  ⟨if c.negated then .compl set else set, inner.depth + 1⟩

def push (item : Nested CharSet) (c : OpenClass) : OpenClass :=
  { c with items := item :: c.items }

def operate (flags : Flags) (operation : SetOperation) (c : OpenClass) : OpenClass :=
  { c with items := [], pending := some (operation, c.value flags) }

end OpenClass

/-- Leading hyphens of a class stand for themselves. -/
def leadingHyphens (flags : Flags) : Nat → OpenClass → List Char → OpenClass × List Char
  | 0, c, cs => (c, cs)
  | fuel + 1, c, cs =>
    match cs with
    | '-' :: rest => leadingHyphens flags fuel (c.push ⟨.single '-', 0⟩) (skip flags rest)
    | _ => (c, cs)

/-- The start of a class behind its opening bracket: the negation, hyphens, and a closing bracket
that stands for itself. -/
def openClass (flags : Flags) (cs : List Char) : OpenClass × List Char :=
  let cs := skip flags cs
  let (negated, cs) := match cs with
    | '^' :: rest => (true, skip flags rest)
    | _ => (false, cs)
  let (c, cs) := leadingHyphens flags (cs.length + 1) ⟨negated, [], none⟩ cs
  match c.items, cs with
  | [], ']' :: rest => (c.push ⟨.single ']', 0⟩, skip flags rest)
  | _, _ => (c, cs)

/-- One item of a class. -/
def classItem? (flags : Flags) : List Char → Option (Escape × List Char)
  | '\\' :: rest => escape? flags rest
  | c :: rest => some (.literal c, rest)
  | [] => none

def Escape.toSet? : Escape → Option CharSet
  | .literal c => some (.single c)
  | .oneOf set => some set
  | .anchor _ => none

/-- A character, a range or a class inside a class. -/
def classRange? (flags : Flags) (cs : List Char) : Option (CharSet × List Char) := do
  let (first, rest) ← classItem? flags cs
  let rest := skip flags rest
  match rest with
  | [] => none
  | '-' :: behind =>
    match skip flags behind with
    | [] => none
    | ']' :: _ | '-' :: _ => some (← first.toSet?, rest)
    | behind => do
      let (last, rest) ← classItem? flags behind
      match first, last with
      | .literal a, .literal b => if a ≤ b then some (.range a b, rest) else none
      | _, _ => none
  | _ => some (← first.toSet?, rest)

/-- The rest of a class. `outer` holds the classes around the innermost open one. -/
def classRest? (flags : Flags) : Nat → OpenClass → List OpenClass → List Char →
    Option (Nested CharSet × List Char)
  | 0, _, _, _ => none
  | fuel + 1, c, outer, cs =>
    match skip flags cs with
    | [] => none
    | '[' :: rest =>
      match namedClass? rest with
      | some (set, rest) => classRest? flags fuel (c.push ⟨set, 0⟩) outer rest
      | none =>
        let (inner, rest) := openClass flags rest
        classRest? flags fuel inner (c :: outer) rest
    | ']' :: rest =>
      match outer with
      | [] => some (c.close flags, rest)
      | parent :: outer => classRest? flags fuel (parent.push (c.close flags)) outer rest
    | '&' :: '&' :: rest => classRest? flags fuel (c.operate flags .intersection) outer rest
    | '-' :: '-' :: rest => classRest? flags fuel (c.operate flags .difference) outer rest
    | '~' :: '~' :: rest => classRest? flags fuel (c.operate flags .symmetricDifference) outer rest
    | cs => do
      let (set, rest) ← classRange? flags cs
      classRest? flags fuel (c.push ⟨set, 0⟩) outer rest

/-- A class behind its opening bracket. -/
def charClass? (flags : Flags) (cs : List Char) : Option (Nested CharSet × List Char) :=
  let (c, rest) := openClass flags cs
  match classRest? flags (cs.length + 1) c [] rest with
  | some (set, rest) => if flags.unicode || !c.negated then some (set, rest) else none
  | none => none

end BuildScript.Regex
