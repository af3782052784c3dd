/-!
# Escaped text

The value of a literal that holds a backslash. Single quotes protect everything up to the next
single quote. Between double quotes a backslash introduces an escape; `\u` takes a scalar value in
hexadecimal digits between braces.
-/

namespace BuildScript.Text

def hexDigit? (c : Char) : Option Nat :=
  if c.isDigit then some (c.toNat - '0'.toNat)
  else if 'a' ≤ c ∧ c ≤ 'f' then some (c.toNat - 'a'.toNat + 10)
  else if 'A' ≤ c ∧ c ≤ 'F' then some (c.toNat - 'A'.toNat + 10)
  else none

/-- The number that a row of digits continues. -/
def hexNumber? (value : Nat) : List Char → Option Nat
  | [] => some value
  | c :: rest => do hexNumber? (value * 16 + (← hexDigit? c)) rest

/-- The scalar value written in hexadecimal digits, with an optional plus sign. -/
def scalar? (digits : List Char) : Option Char :=
  let digits := match digits with
    | '+' :: rest => rest
    | _ => digits
  if digits.isEmpty then none
  else do
    let value ← hexNumber? 0 digits
    if value.isValidChar then some (Char.ofNat value) else none

/-- What a backslash and a letter stand for. -/
def escape? : Char → Option Char
  | 'a' => some '\x07'
  | 'b' => some '\x08'
  | 'v' => some '\x0b'
  | 'f' => some '\x0c'
  | 'n' => some '\n'
  | 'r' => some '\r'
  | 't' => some '\t'
  | 'e' | 'E' => some '\x1b'
  | '\\' => some '\\'
  | '\'' => some '\''
  | '"' => some '"'
  | '$' => some '$'
  | '\x60' => some '\x60'
  | ' ' => some ' '
  | _ => none

/-- Where a reader of escaped text stands. -/
inductive Quoting where
  | outside
  | single
  | double
  /-- Behind the brace that opens a scalar value, with its digits so far. -/
  | scalar (digits : List Char)

/-- The text that remains when quotes and escapes are resolved; nothing if an escape has no meaning.
A quote may stay open. -/
def unescapeFrom : Quoting → List Char → Option (List Char)
  | .outside, [] | .single, [] | .double, [] => some []
  | .scalar digits, [] => (scalar? digits).map ([·])
  | .outside, c :: rest =>
    if c = '\'' then unescapeFrom .single rest
    else if c = '"' then unescapeFrom .double rest
    else (unescapeFrom .outside rest).map (c :: ·)
  | .single, c :: rest =>
    if c = '\'' then unescapeFrom .outside rest
    else (unescapeFrom .single rest).map (c :: ·)
  | .double, '\\' :: 'u' :: '\x7b' :: rest => unescapeFrom (.scalar []) rest
  | .double, '\\' :: c :: rest => do
    let d ← escape? c
    (unescapeFrom .double rest).map (d :: ·)
  | .double, c :: rest =>
    if c = '"' then unescapeFrom .outside rest
    else if c = '\\' then none
    else (unescapeFrom .double rest).map (c :: ·)
  | .scalar digits, c :: rest =>
    if c = '\x7d' then do
      let d ← scalar? digits
      (unescapeFrom .double rest).map (d :: ·)
    else unescapeFrom (.scalar (digits ++ [c])) rest

def unescape? (text : List Char) : Option (List Char) := unescapeFrom .outside text

/-- The value of a quoted literal: the text between its quotes, with escapes resolved where all of
them have a meaning. -/
def quotedValue (source : String) : String :=
  let inner := (source.toList.drop 1).dropLast
  if inner.contains '\\' then String.ofList ((unescape? source.toList).getD inner)
  else String.ofList inner

end BuildScript.Text
