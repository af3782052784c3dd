import BuildScript.Regex.Basic
import BuildScript.Text.Escape
import BuildScript.Text.Property
import BuildScript.Text.Script

/-!
# Named sets of characters

The sets of characters that an expression takes by name: general categories, scripts, and the
properties that a character has or has not. Names are compared without case and separators.
-/

namespace BuildScript.Regex

open Text (Category Script)

/-- A name without case, blanks, hyphens and underscores, and without a leading `is`. Only ASCII
characters count, and the short name of the ISO comment keeps its front. -/
def normalizedName (name : List Char) : String :=
  let plain (cs : List Char) : List Char :=
    (cs.filter fun c => c.toNat < 128 && c ≠ ' ' && c ≠ '-' && c ≠ '_').map Char.toLower
  String.ofList <| match name with
    | i :: s :: rest =>
      if i.toLower = 'i' && s.toLower = 's' then
        if plain rest = ['c'] then ['i', 's', 'c'] else plain rest
      else plain name
    | _ => plain name

/-- A row of characters from its text. -/
def row? (text : List Char) : Option CharRow :=
  match Text.cutFirst? '+' text, Text.cutFirst? '/' text with
  | some (first, more), _ => do
    some ⟨← Text.hexNumber? 0 first, ← Text.hexNumber? 0 more, 1⟩
  | none, some (first, more) => do
    some ⟨← Text.hexNumber? 0 first, ← Text.hexNumber? 0 more, 2⟩
  | none, none => do
    some ⟨← Text.hexNumber? 0 text, 0, 1⟩

def rowsOf (texts : List String) : CharSet :=
  .rows (texts.flatMap fun text => (Text.fields ' ' text.toList).filterMap row?)

/-- The members of a general category by its normalized name. -/
def category? (name : String) : Option (List Category) :=
  match name with
  | "l" | "letter" => some [.Lu, .Ll, .Lt, .Lm, .Lo]
  | "lu" | "uppercaseletter" => some [.Lu]
  | "ll" | "lowercaseletter" => some [.Ll]
  | "lt" | "titlecaseletter" => some [.Lt]
  | "lc" | "casedletter" => some [.Lu, .Ll, .Lt]
  | "lm" | "modifierletter" => some [.Lm]
  | "lo" | "otherletter" => some [.Lo]
  | "m" | "mark" | "combiningmark" => some [.Mn, .Mc, .Me]
  | "mn" | "nonspacingmark" => some [.Mn]
  | "mc" | "spacingmark" => some [.Mc]
  | "me" | "enclosingmark" => some [.Me]
  | "n" | "number" => some [.Nd, .Nl, .No]
  | "nd" | "decimalnumber" | "digit" => some [.Nd]
  | "nl" | "letternumber" => some [.Nl]
  | "no" | "othernumber" => some [.No]
  | "p" | "punctuation" | "punct" => some [.Pc, .Pd, .Ps, .Pe, .Pi, .Pf, .Po]
  | "pc" | "connectorpunctuation" => some [.Pc]
  | "pd" | "dashpunctuation" => some [.Pd]
  | "ps" | "openpunctuation" => some [.Ps]
  | "pe" | "closepunctuation" => some [.Pe]
  | "pi" | "initialpunctuation" => some [.Pi]
  | "pf" | "finalpunctuation" => some [.Pf]
  | "po" | "otherpunctuation" => some [.Po]
  | "s" | "symbol" => some [.Sm, .Sc, .Sk, .So]
  | "sm" | "mathsymbol" => some [.Sm]
  | "sc" | "currencysymbol" => some [.Sc]
  | "sk" | "modifiersymbol" => some [.Sk]
  | "so" | "othersymbol" => some [.So]
  | "z" | "separator" => some [.Zs, .Zl, .Zp]
  | "zs" | "spaceseparator" => some [.Zs]
  | "zl" | "lineseparator" => some [.Zl]
  | "zp" | "paragraphseparator" => some [.Zp]
  | "c" | "other" => some [.Cc, .Cf, .Cs, .Co, .Cn]
  | "cc" | "control" | "cntrl" => some [.Cc]
  | "cf" | "format" => some [.Cf]
  | "co" | "privateuse" => some [.Co]
  | "cn" | "unassigned" => some [.Cn]
  | _ => none

/-- The set of a general category or of one of the values that stand beside them. -/
def categorySet? (name : String) : Option CharSet :=
  match name with
  | "any" => some .any
  | "ascii" => some (.range '\x00' '\x7f')
  | "assigned" => some (.compl (.categories [.Cn]))
  | _ => (category? name).map .categories

def script? (name : String) : Option Script :=
  Text.scripts.find? fun script => script.names.contains name

/-- The characters that are used in a script. Those that are shared belong to the scripts that share
them and not to the two collections of what has no script of its own. -/
def scriptExtensions (script : Script) : CharSet :=
  if script.names.contains "common" || script.names.contains "inherited" then
    .diff (rowsOf script.own) (rowsOf (Text.scripts.flatMap Script.shared))
  else .union (rowsOf script.own) (rowsOf script.shared)

/-- The characters that the database lists for a property. -/
def listed (name : String) : CharSet :=
  match Text.properties.find? fun property => property.1.contains name with
  | some (_, rows) => rowsOf rows
  | none => .empty

def letters : CharSet := .categories [.Lu, .Ll, .Lt, .Lm, .Lo, .Nl]

def lowercase : CharSet := .union (.categories [.Ll]) (listed "otherlowercase")

def uppercase : CharSet := .union (.categories [.Lu]) (listed "otheruppercase")

def graphemeExtend : CharSet := .union (.categories [.Mn, .Me]) (listed "othergraphemeextend")

def idStart : CharSet := .diff (.union letters (listed "otheridstart")) (listed "patternsyntax")

def idContinue : CharSet :=
  .unionAll [idStart, .categories [.Mn, .Mc, .Nd, .Pc], listed "otheridcontinue"]

/-- The characters that some normal form takes out of the identifiers. -/
def unstable : CharSet := rowsOf ["37A 309B+1 FC5E+5 FDFA+1 FE70/7"]

def changesWhenTitlecased : CharSet :=
  .union (.diff (listed "cwu") (rowsOf ["1C5 1C8 1CB 1F2 10D0+2A 10FD+2 1F88+7 1F98+7 1FA8+7",
    "1FBC 1FCC 1FFC"])) (rowsOf ["1C4 1C7 1CA 1F1"])

def changesWhenCasefolded : CharSet :=
  .union (.diff (listed "cwl") (rowsOf ["13A0+55"])) (rowsOf ["B5 DF 149 17F 345 3C2 3D0+1 3D5+1",
    "3F0+1 3F5 587 13F8+5 1C80+8 1E9A+1 1F80+7 1F90+7 1FA0+7 1FB2+2 1FB7 1FC2+2 1FC7 1FF2+2 1FF7",
    "AB70+4F FB00+6 FB13+4"])

/-- The set of a property that a character has or has not. -/
def binary? (name : String) : Option CharSet :=
  match name with
  | "alphabetic" | "alpha" => some .alphabetic
  | "whitespace" | "space" | "wspace" => some .blank
  | "otheralphabetic" | "oalpha" => some (.diff .alphabetic letters)
  | "lowercase" | "lower" => some lowercase
  | "uppercase" | "upper" => some uppercase
  | "cased" => some (.unionAll [.categories [.Lt], lowercase, uppercase])
  | "caseignorable" | "ci" => some (.union (.categories [.Mn, .Me, .Cf, .Lm, .Sk])
      (rowsOf ["27 2E 3A B7 387 55F 5F4 2018+1 2024 2027 FE13 FE52 FE55 FF07 FF0E FF1A"]))
  | "changeswhentitlecased" | "cwt" => some changesWhenTitlecased
  | "changeswhencasefolded" | "cwcf" => some changesWhenCasefolded
  | "changeswhencasemapped" | "cwcm" =>
    some (.unionAll [listed "cwl", listed "cwu", changesWhenTitlecased])
  | "dash" => some (.union (.categories [.Pd]) (rowsOf ["2053 207B 208B 2212"]))
  | "graphemeextend" | "grext" => some graphemeExtend
  | "graphemebase" | "grbase" =>
    some (.compl (.union (.categories [.Cc, .Cf, .Cs, .Co, .Cn, .Zl, .Zp]) graphemeExtend))
  | "idstart" | "ids" => some idStart
  | "idcontinue" | "idc" => some idContinue
  | "xidstart" | "xids" =>
    some (.diff idStart (.union unstable (rowsOf ["E33 EB3 FF9E+1"])))
  | "xidcontinue" | "xidc" => some (.diff idContinue unstable)
  | "math" => some (.union (.categories [.Sm]) (listed "othermath"))
  | _ => if Text.properties.any (·.1.contains name) then some (listed name) else none

/-- The set that a name alone stands for. -/
def property? (name : List Char) : Option CharSet :=
  let normal := normalizedName name
  binary? normal <|> categorySet? normal <|> (script? normal).map fun script => rowsOf script.own

/-- The set of a kind of property with its value. -/
def valued? (kind value : List Char) : Option CharSet :=
  let normal := normalizedName value
  match normalizedName kind with
  | "gc" | "generalcategory" => categorySet? normal
  | "sc" | "script" => (script? normal).map fun script => rowsOf script.own
  | "scx" | "scriptextensions" => (script? normal).map scriptExtensions
  | _ => none

/-- The set that stands in braces, and whether it is excluded: a name, or a kind of property with
its value. -/
def query? (text : List Char) : Option (CharSet × Bool) :=
  match Text.before? ['!', '='] text with
  | some kind => (valued? kind (text.drop (kind.length + 2))).map (·, true)
  | none =>
    match Text.cutFirst? ':' text <|> Text.cutFirst? '=' text with
    | some (kind, value) => (valued? kind value).map (·, false)
    | none => (property? text).map (·, false)

end BuildScript.Regex
