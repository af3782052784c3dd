/-!
# Lexemes

A build script is read as a row of lexemes. Blanks and comments are not lexemes: each lexeme
carries the text that stands in front of it, so that nothing of the script is lost.
-/

namespace BuildScript

/-- The kinds of lexemes that the grammar tells apart. -/
inductive LexemeKind where
  | word
  | quoted
  | number
  | braceOpen
  | braceClose
  | parenOpen
  | parenClose
  | bracketOpen
  | bracketClose
  | comma
  | dot
  | colon
  | semicolon
  | equals
  /-- Whatever has no kind of its own, such as operators and unclosed literals. -/
  | other
  deriving DecidableEq, Repr

/-- How many brackets are open after a lexeme of this kind; a stray closing bracket counts for
nothing. -/
def LexemeKind.depthAfter (depth : Nat) : LexemeKind → Nat
  | .braceOpen | .parenOpen | .bracketOpen => depth + 1
  | .braceClose | .parenClose | .bracketClose => depth - 1
  | _ => depth

structure Lexeme where
  kind : LexemeKind
  /-- The blanks and comments between the lexeme before and this one. -/
  lead : String
  text : String
  /-- The position of the first character of `text` in the script. -/
  start : Nat
  /-- The position just behind the last. -/
  stop : Nat
  deriving DecidableEq, Repr

namespace Lexeme

/-- A line break separates the lexeme from the one before. -/
def startsLine (l : Lexeme) : Bool := l.lead.toList.contains '\n'

/-- The lexeme follows the one before without a blank or a comment. -/
def adjoins (l : Lexeme) : Bool := l.lead.isEmpty

/-- The lexeme as it stands in the script, with what is in front of it. -/
def written (l : Lexeme) : String := l.lead ++ l.text

/-- A row of lexemes as it stands in the script. -/
def writtenAll : List Lexeme → String
  | [] => ""
  | l :: rest => l.written ++ writtenAll rest

end Lexeme

end BuildScript
