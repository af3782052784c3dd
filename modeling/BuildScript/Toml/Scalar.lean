import BuildScript.Text.Cut
import BuildScript.Toml.Basic

/-!
# Plain TOML values

Numbers, truth values, dates and times: everything that is written without quotes or brackets.
-/

namespace BuildScript.Toml

/-- Digits in groups that underscores separate, without the underscores. -/
def digits? (isDigit : Char → Bool) (text : List Char) : Option (List Char) :=
  let groups := Text.fields '_' text
  if groups.all fun group => !group.isEmpty && group.all isDigit then some groups.flatten else none

def decimal? (text : List Char) : Option (List Char) := digits? Char.isDigit text

/-- Decimal digits without a superfluous zero in front. -/
def canonicalDecimal? (text : List Char) : Option (List Char) :=
  (decimal? text).filter fun digits => digits.length = 1 || digits.head? ≠ some '0'

def digitValue (c : Char) : Nat :=
  if c.isDigit then c.toNat - '0'.toNat else c.toLower.toNat - 'a'.toNat + 10

def number (base : Nat) (digits : List Char) : Nat :=
  digits.foldl (fun value c => base * value + digitValue c) 0

/-- Takes a sign from the front; the flag says whether it is a minus. -/
def signed : List Char → Bool × List Char
  | '+' :: rest => (false, rest)
  | '-' :: rest => (true, rest)
  | text => (false, text)

/-- An integer in decimal, hexadecimal, octal or binary digits. -/
def integer? : List Char → Option Int
  | '0' :: 'x' :: rest =>
    (digits? (fun c => c.isDigit || ('a' ≤ c.toLower && c.toLower ≤ 'f')) rest).map fun d =>
      number 16 d
  | '0' :: 'o' :: rest => (digits? (fun c => '0' ≤ c && c ≤ '7') rest).map fun d => number 8 d
  | '0' :: 'b' :: rest => (digits? (fun c => c = '0' || c = '1') rest).map fun d => number 2 d
  | text =>
    let (negative, digits) := signed text
    (canonicalDecimal? digits).map fun d => if negative then -number 10 d else number 10 d

/-- Integers have at most 128 bits. -/
def isIntegerInRange (value : Int) : Bool := -170141183460469231731687303715884105728 ≤ value &&
    value < 340282366920938463463374607431768211456

/-- The text before and behind the first character that `p` holds of. -/
def cutWhere (p : Char → Bool) (text : List Char) : List Char × Option (List Char) :=
  match text.dropWhile fun c => !p c with
  | [] => (text, none)
  | _ :: rest => (text.takeWhile fun c => !p c, some rest)

/-- `digits · 10 ^ exponent` is too large for a number of 64 bits: it rounds to at least 2 ^
1024. -/
def isFloatOverflow (digits : List Char) (exponent : Int) : Bool :=
  let digits := digits.dropWhile (· = '0')
  let magnitude := digits.length + exponent
  if digits.isEmpty || magnitude < 300 then false
  else if 320 < magnitude then true
  else
    let bound := Nat.pow 2 1024 - Nat.pow 2 970
    if exponent < 0 then bound * Nat.pow 10 exponent.natAbs ≤ number 10 digits
    else bound ≤ number 10 digits * Nat.pow 10 exponent.natAbs

/-- A number with a fraction, an exponent or both that is not too large, or one of the special
numbers. -/
def isFloat (text : List Char) : Bool :=
  let (_, body) := signed text
  if body = "inf".toList || body = "nan".toList then true
  else
    let (mantissa, exponent) := cutWhere (fun c => c = 'e' || c = 'E') body
    let (whole, fraction) := cutWhere (· = '.') mantissa
    let exponent? : Option Int := match exponent with
      | none => some 0
      | some e =>
        let (negative, digits) := signed e
        (decimal? digits).map fun d => if negative then -number 10 d else number 10 d
    let fraction? : Option (List Char) := match fraction with
      | none => some []
      | some f => decimal? f
    if exponent.isNone && fraction.isNone then false
    else
      match canonicalDecimal? whole, fraction?, exponent? with
      | some w, some f, some e => !isFloatOverflow (w ++ f) (e - f.length)
      | _, _, _ => false

/-- The number that the next `count` digits make. -/
def fixedDigits? (count : Nat) (cs : List Char) : Option (Nat × List Char) :=
  let digits := cs.take count
  if digits.length = count && digits.all Char.isDigit then some (number 10 digits, cs.drop count)
  else none

def isLeapYear (year : Nat) : Bool := (year % 4 = 0 && year % 100 ≠ 0) || year % 400 = 0

def daysIn (year month : Nat) : Nat :=
  if month = 2 then (if isLeapYear year then 29 else 28)
  else if month = 4 || month = 6 || month = 9 || month = 11 then 30
  else 31

/-- What stands behind a calendar date. -/
def afterDate? (cs : List Char) : Option (List Char) := do
  let (year, cs) ← fixedDigits? 4 cs
  let cs ← Text.dropFront? ['-'] cs
  let (month, cs) ← fixedDigits? 2 cs
  let cs ← Text.dropFront? ['-'] cs
  let (day, cs) ← fixedDigits? 2 cs
  if 1 ≤ month && month ≤ 12 && 1 ≤ day && day ≤ daysIn year month then some cs else none

/-- Behind hours and minutes. -/
def afterMinutes? (cs : List Char) : Option (List Char) := do
  let (hour, cs) ← fixedDigits? 2 cs
  let cs ← Text.dropFront? [':'] cs
  let (minute, cs) ← fixedDigits? 2 cs
  if hour ≤ 23 && minute ≤ 59 then some cs else none

/-- Behind a time of day; seconds may be left out. -/
def afterTime? (cs : List Char) : Option (List Char) := do
  match ← afterMinutes? cs with
  | ':' :: rest =>
    let (second, rest) ← fixedDigits? 2 rest
    if second ≤ 60 then
      match rest with
      | '.' :: fraction =>
        if fraction.head?.any Char.isDigit then some (fraction.dropWhile Char.isDigit) else none
      | _ => some rest
    else none
  | rest => some rest

/-- The whole text is an offset from universal time. -/
def isOffset : List Char → Bool
  | [] | ['Z'] | ['z'] => true
  | '+' :: rest | '-' :: rest => afterMinutes? rest = some []
  | _ => false

/-- A date, a time, or a date with a time and maybe an offset. -/
def isDate (text : List Char) : Bool :=
  match afterDate? text with
  | some [] => true
  | some (c :: rest) => (c = 'T' || c = 't' || c = ' ') && (afterTime? rest).any isOffset
  | none => afterTime? text = some []

/-- The value that is written as `text`. -/
def scalarOf? (text : List Char) : Option Toml :=
  if text = "true".toList then some (.boolean true)
  else if text = "false".toList then some (.boolean false)
  else if isDate text then some (.date (String.ofList text))
  else if isFloat text then some (.float (String.ofList text))
  else ((integer? text).filter isIntegerInRange).map .integer

def isScalarChar (c : Char) : Bool :=
  c.isAlphanum || c = '_' || c = '+' || c = '-' || c = '.' || c = ':'

/-- A plain value at the front. A blank may stand between a date and a time. -/
def scalar? (cs : List Char) : Option (Toml × List Char) := do
  let text := cs.takeWhile isScalarChar
  let rest := cs.dropWhile isScalarChar
  match rest with
  | ' ' :: more =>
    if afterDate? text = some [] && more.head?.any Char.isDigit then
      some (← scalarOf? (text ++ ' ' :: more.takeWhile isScalarChar), more.dropWhile isScalarChar)
    else some (← scalarOf? text, rest)
  | _ => some (← scalarOf? text, rest)

end BuildScript.Toml
