import BuildScript.Text.Escape

/-!
# Quoted TOML text

Basic strings with escapes and literal strings without, each on one line or, between three quotes,
on several. Control characters other than tabs have to be escaped.
-/

namespace BuildScript.Toml

/-- May not stand in a document except as part of a line break. -/
def isControl (c : Char) : Bool := (c.toNat < 0x20 && c ≠ '\t') || c.toNat = 0x7F

def isSpace (c : Char) : Bool := c = ' ' || c = '\t'

/-- A character given by the next `count` hexadecimal digits. -/
def hexChar? (count : Nat) (cs : List Char) : Option (Char × List Char) := do
  let digits := cs.take count
  if digits.length = count then
    let value ← Text.hexNumber? 0 digits
    if h : value.isValidChar then some (Char.ofNatAux value h, cs.drop count) else none
  else none

/-- The character that an escape stands for, behind its backslash. -/
def escape? : List Char → Option (Char × List Char)
  | 'b' :: rest => some ('\x08', rest)
  | 't' :: rest => some ('\t', rest)
  | 'n' :: rest => some ('\n', rest)
  | 'f' :: rest => some ('\x0c', rest)
  | 'r' :: rest => some ('\r', rest)
  | 'e' :: rest => some ('\x1b', rest)
  | '"' :: rest => some ('"', rest)
  | '\\' :: rest => some ('\\', rest)
  | 'x' :: rest => hexChar? 2 rest
  | 'u' :: rest => hexChar? 4 rest
  | 'U' :: rest => hexChar? 8 rest
  | _ => none

/-- The rest of a basic string behind its opening quote. -/
def basicRest? : Nat → List Char → Option (List Char × List Char)
  | 0, _ => none
  | _, [] => none
  | fuel + 1, c :: rest =>
    if c = '"' then some ([], rest)
    else if c = '\\' then do
      let (char, rest) ← escape? rest
      let (text, rest) ← basicRest? fuel rest
      some (char :: text, rest)
    else if isControl c then none
    else do
      let (text, rest) ← basicRest? fuel rest
      some (c :: text, rest)

/-- The rest of a literal string behind its opening quote. -/
def literalRest? : List Char → Option (List Char × List Char)
  | [] => none
  | c :: rest =>
    if c = '\'' then some ([], rest)
    else if isControl c then none
    else (literalRest? rest).map fun (text, rest) => (c :: text, rest)

/-- A line break at the front is taken away. -/
def newline? : List Char → Option (List Char)
  | '\n' :: rest => some rest
  | '\r' :: '\n' :: rest => some rest
  | _ => none

/-- The end of a text between three quotes: up to two more of them belong to the text. -/
def closing? (quote : Char) (cs : List Char) : Option (List Char × List Char) :=
  let quotes := (cs.takeWhile (· = quote)).length
  if quotes < 3 then none
  else
    let count := min quotes 5
    some (List.replicate (count - 3) quote, cs.drop count)

/-- Behind a backslash at the end of a line: the text goes on at the next character that is not
blank. -/
def continued? (cs : List Char) : Option (List Char) := do
  let rest ← newline? (cs.dropWhile isSpace)
  some (rest.dropWhile fun c => isSpace c || c = '\n' || c = '\r')

/-- The rest of a text on several lines, behind the opening quotes and a line break after them. -/
def linesRest? (quote : Char) : Nat → List Char → Option (List Char × List Char)
  | 0, _ => none
  | _, [] => none
  | fuel + 1, c :: rest =>
    match closing? quote (c :: rest) with
    | some found => some found
    | none =>
      if c = '\\' && quote = '"' then
        match continued? rest with
        | some rest => linesRest? quote fuel rest
        | none => do
          let (char, rest) ← escape? rest
          let (text, rest) ← linesRest? quote fuel rest
          some (char :: text, rest)
      else if isControl c && (newline? (c :: rest)).isNone then none
      else do
        let (text, rest) ← linesRest? quote fuel rest
        some (c :: text, rest)

/-- A quoted text on one line. -/
def quoted? : List Char → Option (List Char × List Char)
  | '"' :: rest => basicRest? (rest.length + 1) rest
  | '\'' :: rest => literalRest? rest
  | _ => none

/-- A quoted text on one line or several. -/
def string? (cs : List Char) : Option (List Char × List Char) :=
  let lines (quote : Char) (rest : List Char) :=
    linesRest? quote (rest.length + 1) ((newline? rest).getD rest)
  match cs with
  | '"' :: '"' :: '"' :: rest => lines '"' rest
  | '\'' :: '\'' :: '\'' :: rest => lines '\'' rest
  | _ => quoted? cs

end BuildScript.Toml
