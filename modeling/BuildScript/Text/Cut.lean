/-!
# Cutting text

Cuts at a character, searches for a part and takes blanks away, on rows of characters.
-/

namespace BuildScript.Text

/-- The Unicode property `White_Space`. -/
def isBlank (c : Char) : Bool :=
  let n := c.toNat
  (0x9 ≤ n && n ≤ 0xD) || n = 0x20 || n = 0x85 || n = 0xA0 || n = 0x1680 ||
  (0x2000 ≤ n && n ≤ 0x200A) || n = 0x2028 || n = 0x2029 || n = 0x202F || n = 0x205F || n = 0x3000

def trimFront (text : List Char) : List Char := text.dropWhile isBlank

def trimBack (text : List Char) : List Char := (text.reverse.dropWhile isBlank).reverse

def trimChars (text : List Char) : List Char := trimBack (trimFront text)

/-- The text without the blanks around it. -/
def trim (text : String) : String := String.ofList (trimChars text.toList)

/-- The text without the blanks behind it. -/
def trimEnd (text : String) : String := String.ofList (trimBack text.toList)

/-- What stands before and behind the first `sep`. -/
def cutFirst? (sep : Char) : List Char → Option (List Char × List Char)
  | [] => none
  | c :: rest =>
    if c = sep then some ([], rest)
    else (cutFirst? sep rest).map fun (before, after) => (c :: before, after)

/-- What stands before and behind the last `sep`. -/
def cutLast? (sep : Char) : List Char → Option (List Char × List Char)
  | [] => none
  | c :: rest =>
    match cutLast? sep rest with
    | some (before, after) => some (c :: before, after)
    | none => if c = sep then some ([], rest) else none

/-- The fields between the separators; there is always at least one. -/
def fields (sep : Char) : List Char → List (List Char)
  | [] => [[]]
  | c :: rest =>
    if c = sep then [] :: fields sep rest
    else match fields sep rest with
      | [] => [[c]]
      | field :: more => (c :: field) :: more

/-- What is left when `part` is taken from the front. -/
def dropFront? : List Char → List Char → Option (List Char)
  | [], text => some text
  | _, [] => none
  | p :: part, c :: text => if p = c then dropFront? part text else none

/-- What is left when `part` is taken from the back. -/
def dropBack? (part text : List Char) : Option (List Char) :=
  (dropFront? part.reverse text.reverse).map List.reverse

/-- The text in front of the first occurrence of `part`. -/
def before? (part : List Char) : List Char → Option (List Char)
  | [] => if part.isEmpty then some [] else none
  | c :: rest =>
    if part.isPrefixOf (c :: rest) then some []
    else (before? part rest).map (c :: ·)

/-- `part` occurs in the text. -/
def occurs (part text : List Char) : Bool := (before? part text).isSome

/-- The part of a text between two positions. -/
def slice (text : String) (start stop : Nat) : String :=
  String.ofList ((text.toList.drop start).take (stop - start))

/-- The texts one after another with `sep` between them. -/
def joinWith (sep : String) : List String → String
  | [] => ""
  | [text] => text
  | text :: rest => text ++ sep ++ joinWith sep rest

/-- The text with the given ending. -/
def hasEnding (ending text : String) : Bool := ending.toList.isSuffixOf text.toList

end BuildScript.Text
