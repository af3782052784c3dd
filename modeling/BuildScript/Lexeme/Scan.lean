import BuildScript.Lexeme.Basic
import BuildScript.Text.Cut

/-!
# Scanning

A script is cut into stretches from left to right, each the longest that one of the lexical rules
allows. A stretch is trivia (blanks, a comment) or a lexeme. Where no rule applies, the stretch
runs as far as some rule could still have gone on: an unclosed literal or block comment reaches to
the end of the script. Neighbouring stretches without a rule make up one lexeme.
-/

namespace BuildScript.Lexeme

def isSpace (c : Char) : Bool :=
  c = ' ' || c = '\t' || c = '\r' || c = '\n' || c = '\x0c'

def isWordStart (c : Char) : Bool := c.isAlpha || c = '_' || c = '$'

def isWordPart (c : Char) : Bool := c.isAlphanum || c = '_' || c = '$'

def punctuation? (c : Char) : Option LexemeKind :=
  if c = '\x7b' then some .braceOpen
  else if c = '\x7d' then some .braceClose
  else if c = '(' then some .parenOpen
  else if c = ')' then some .parenClose
  else if c = '[' then some .bracketOpen
  else if c = ']' then some .bracketClose
  else if c = ',' then some .comma
  else if c = '.' then some .dot
  else if c = ':' then some .colon
  else if c = ';' then some .semicolon
  else if c = '=' then some .equals
  else none

/-- How far a literal goes behind its opening quote, and whether it is closed there. A backslash
takes the next character along, but never a line break. -/
def quotedRest (quote : Char) : List Char → Nat × Bool
  | [] => (0, false)
  | '\\' :: '\n' :: _ => (1, false)
  | '\\' :: _ :: rest => let (n, closed) := quotedRest quote rest; (n + 2, closed)
  | c :: rest =>
    if c = quote then (1, true)
    else let (n, closed) := quotedRest quote rest; (n + 1, closed)

/-- How far a block comment goes behind its opening, and whether it is closed there. -/
def commentRest : List Char → Nat × Bool
  | [] => (0, false)
  | '*' :: '/' :: _ => (2, true)
  | _ :: rest => let (n, closed) := commentRest rest; (n + 1, closed)

/-- The length of a decimal point with its digits. -/
def fractionLength : List Char → Nat
  | '.' :: rest =>
    let digits := (rest.takeWhile Char.isDigit).length
    if digits = 0 then 0 else digits + 1
  | _ => 0

/-- The length of an exponent: the letter, an optional sign and at least one digit. -/
def exponentLength : List Char → Nat
  | c :: rest =>
    if c = 'e' || c = 'E' then
      let sign := match rest with
        | '+' :: _ | '-' :: _ => 1
        | _ => 0
      let digits := ((rest.drop sign).takeWhile Char.isDigit).length
      if digits = 0 then 0 else 1 + sign + digits
    else 0
  | [] => 0

/-- The length of the one letter that may end a number. -/
def unitLength : List Char → Nat
  | c :: _ => if c.isAlpha then 1 else 0
  | [] => 0

/-- How far a number goes behind its first digit. -/
def numberRest (rest : List Char) : Nat :=
  let whole := (rest.takeWhile fun c => c.isDigit || c = '_').length
  let fraction := fractionLength (rest.drop whole)
  let exponent := exponentLength (rest.drop (whole + fraction))
  let letter := unitLength (rest.drop (whole + fraction + exponent))
  whole + fraction + exponent + letter

/-- What the stretch that starts with `c` is (`none` for trivia), and how much of `rest` it
takes. -/
def munch (c : Char) (rest : List Char) : Option LexemeKind × Nat :=
  if isSpace c then (none, (rest.takeWhile isSpace).length)
  else if c = '/' then
    match rest with
    | '/' :: line => (none, 1 + (line.takeWhile fun d => d ≠ '\n').length)
    | '*' :: body =>
      match commentRest body with
      | (n, true) => (none, 1 + n)
      | (n, false) => (some .other, 1 + n)
    | _ => (some .other, 0)
  else if isWordStart c then (some .word, (rest.takeWhile isWordPart).length)
  else if c = '"' || c = '\'' then
    match quotedRest c rest with
    | (n, true) => (some .quoted, n)
    | (n, false) => (some .other, n)
  else if c.isDigit then (some .number, numberRest rest)
  else (some ((punctuation? c).getD .other), 0)

/-- A piece of a script: trivia (`none`) or text of one kind of lexeme. -/
structure Stretch where
  kind : Option LexemeKind
  chars : List Char
  deriving DecidableEq, Repr

/-- Cuts off at most `fuel` stretches. -/
def stretches : Nat → List Char → List Stretch
  | 0, _ | _, [] => []
  | fuel + 1, c :: rest =>
    let (kind, n) := munch c rest
    ⟨kind, c :: rest.take n⟩ :: stretches fuel (rest.drop n)

/-- The lexemes that were read so far, the last first, and the position behind the last. What
follows from there on, up to the next lexeme, is trivia. -/
structure Scanner where
  lexemes : List Lexeme
  triviaStart : Nat
  deriving DecidableEq, Repr

namespace Scanner

/-- Adds a lexeme between two positions, with the trivia in front of it. -/
def push (script : String) (s : Scanner) (kind : LexemeKind) (start stop : Nat) : Scanner :=
  let lead := Text.slice script s.triviaStart start
  ⟨⟨kind, lead, Text.slice script start stop, start, stop⟩ :: s.lexemes, stop⟩

/-- Takes the stretch between two positions. If neither it nor the lexeme directly in front of it
has a rule, it makes that lexeme longer. -/
def take (script : String) (s : Scanner) (kind : Option LexemeKind) (start stop : Nat) : Scanner :=
  match kind, s.lexemes with
  | none, _ => s
  | some kind, [] => s.push script kind start stop
  | some kind, last :: before =>
    if kind = .other && s.triviaStart = start && last.kind = .other then
      ⟨{ last with text := Text.slice script last.start stop, stop } :: before, stop⟩
    else s.push script kind start stop

/-- Takes a row of stretches, the first of which starts at the given position. -/
def takeAll (script : String) (s : Scanner) (start : Nat) : List Stretch → Scanner
  | [] => s
  | ⟨kind, chars⟩ :: row =>
    takeAll script (s.take script kind start (start + chars.length)) (start + chars.length) row

/-- The lexemes in their order, and the trivia that is left. -/
def finish (script : String) (s : Scanner) : List Lexeme × String :=
  (s.lexemes.reverse, Text.slice script s.triviaStart script.length)

end Scanner

/-- The lexemes of a script and the trivia behind the last. -/
def scan (script : String) : List Lexeme × String :=
  (Scanner.takeAll script ⟨[], 0⟩ 0 (stretches script.length script.toList)).finish script

end BuildScript.Lexeme
