import BuildScript.Toml.Quoted
import BuildScript.Toml.Scalar

/-!
# Reading TOML

A document is read line by line: headers open tables, and entries go to the table that was opened
last. Reading fails as a whole.
-/

namespace BuildScript.Toml

/-- What stands behind a comment. -/
def afterComment? : List Char → Option (List Char)
  | [] => some []
  | c :: rest =>
    if (newline? (c :: rest)).isSome then some (c :: rest)
    else if isControl c then none
    else afterComment? rest

/-- Skips blanks, line breaks and comments. -/
def skipLines? : Nat → List Char → Option (List Char)
  | 0, _ => none
  | _, [] => some []
  | fuel + 1, c :: rest =>
    if isSpace c then skipLines? fuel rest
    else if c = '#' then (afterComment? rest).bind (skipLines? fuel)
    else
      match newline? (c :: rest) with
      | some rest => skipLines? fuel rest
      | none => some (c :: rest)

def isBareKeyChar (c : Char) : Bool := c.isAlphanum || c = '_' || c = '-'

/-- One part of a key. -/
def keyPart? (cs : List Char) : Option (String × List Char) :=
  match quoted? cs with
  | some (text, rest) => some (String.ofList text, rest)
  | none =>
    let text := cs.takeWhile isBareKeyChar
    if text.isEmpty then none else some (String.ofList text, cs.dropWhile isBareKeyChar)

/-- The parts of a key, with the dots and blanks between them. -/
def key? : Nat → List Char → Option (List String × List Char)
  | 0, _ => none
  | fuel + 1, cs => do
    let (part, rest) ← keyPart? (cs.dropWhile isSpace)
    match rest.dropWhile isSpace with
    | '.' :: rest => do
      let (parts, rest) ← key? fuel rest
      some (part :: parts, rest)
    | rest => some ([part], rest)

/-- The parts of a key in front of its last part, and that part. -/
def splitKey? (parts : List String) : Option (List String × String) :=
  parts.getLast?.map fun last => (parts.dropLast, last)

mutual

def value? : Nat → List Char → Option (Toml × List Char)
  | 0, _ => none
  | fuel + 1, cs =>
    match cs with
    | '[' :: rest => do
      let (items, rest) ← items? fuel rest
      some (.array false items, rest)
    | '\x7b' :: rest => do
      let (entries, rest) ← entries? fuel ⟨.header, []⟩ rest
      some (.table .inline entries, rest)
    | _ =>
      match string? cs with
      | some (text, rest) => some (.string (String.ofList text), rest)
      | none => scalar? cs

/-- The rest of an array behind its bracket or a comma. -/
def items? : Nat → List Char → Option (List Toml × List Char)
  | 0, _ => none
  | fuel + 1, cs => do
    match ← skipLines? (cs.length + 1) cs with
    | ']' :: rest => some ([], rest)
    | cs => do
      let (item, rest) ← value? fuel cs
      match ← skipLines? (rest.length + 1) rest with
      | ',' :: rest => do
        let (items, rest) ← items? fuel rest
        some (item :: items, rest)
      | ']' :: rest => some ([item], rest)
      | _ => none

/-- The rest of an inline table behind its brace or a comma, with what it has so far. -/
def entries? : Nat → Section → List Char → Option (List (String × Toml) × List Char)
  | 0, _, _ => none
  | fuel + 1, s, cs => do
    match ← skipLines? (cs.length + 1) cs with
    | '\x7d' :: rest => some (s.entries, rest)
    | cs => do
      let (path, key, value, rest) ← keyValue? fuel cs
      let s ← addValue? path key value s
      match ← skipLines? (rest.length + 1) rest with
      | ',' :: rest => entries? fuel s rest
      | '\x7d' :: rest => some (s.entries, rest)
      | _ => none

/-- A key with its value. -/
def keyValue? : Nat → List Char → Option (List String × String × Toml × List Char)
  | 0, _ => none
  | fuel + 1, cs => do
    let (parts, rest) ← key? (cs.length + 1) cs
    let (path, key) ← splitKey? parts
    let rest ← Text.dropFront? ['='] rest
    let (value, rest) ← value? fuel (rest.dropWhile isSpace)
    some (path, key, value, rest)

end

/-- What stands behind the line, which has nothing left but a comment. -/
def endLine? (cs : List Char) : Option (List Char) :=
  match cs.dropWhile isSpace with
  | [] => some []
  | '#' :: rest => afterComment? rest
  | rest => newline? rest

/-- A document while it is read: all of it, and the path of the table that entries go to. -/
structure Document where
  root : Section
  opened : List String

namespace Document

def addValue? (d : Document) (path : List String) (key : String) (value : Toml) :
    Option Document := do
  let root ← changeAt? false (Toml.addValue? path key value) d.opened d.root
  some { d with root }

/-- A header behind its brackets. -/
def withHeader? (d : Document) (ofTables : Bool) (parts : List String) : Option Document := do
  let (path, key) ← splitKey? parts
  let root ← if ofTables then openElement? path key d.root else openTable? path key d.root
  some ⟨root, parts⟩

/-- Reads one line that is not empty. -/
def line? (d : Document) (cs : List Char) : Option (Document × List Char) := do
  match cs with
  | '[' :: '[' :: rest =>
    let (parts, rest) ← key? (rest.length + 1) rest
    some (← d.withHeader? true parts, ← endLine? (← Text.dropFront? [']', ']'] rest))
  | '[' :: rest =>
    let (parts, rest) ← key? (rest.length + 1) rest
    some (← d.withHeader? false parts, ← endLine? (← Text.dropFront? [']'] rest))
  | _ =>
    let (path, key, value, rest) ← keyValue? (2 * cs.length + 2) cs
    some (← d.addValue? path key value, ← endLine? rest)

def lines? : Nat → Document → List Char → Option Document
  | 0, _, _ => none
  | fuel + 1, d, cs => do
    match ← skipLines? (cs.length + 1) cs with
    | [] => some d
    | cs =>
      let (d, rest) ← d.line? cs
      lines? fuel d rest

end Document

/-- The entries of a document. A byte order mark in front does not count. -/
def parse? (text : String) : Option Section := do
  let cs := match text.toList with
    | '\ufeff' :: rest => rest
    | cs => cs
  let d ← Document.lines? (cs.length + 1) ⟨⟨.header, []⟩, []⟩ cs
  some d.root

end BuildScript.Toml
