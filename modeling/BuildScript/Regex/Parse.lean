import BuildScript.Regex.Class

/-!
# Reading expressions

Alternatives, groups with and without names, options, anchors and repetitions. There are neither
lookaround nor back references.
-/

namespace BuildScript.Regex

/-- A group that is open: the options outside it, its finished alternatives and the parts of the
current one, the last first. An option group is a part without an expression. -/
structure OpenGroup where
  outside : Flags
  alternatives : List (Nested Regex)
  parts : List (Nested (Option Regex))

namespace OpenGroup

def start (outside : Flags) : OpenGroup := ⟨outside, [], []⟩

def push (r : Nested Regex) (g : OpenGroup) : OpenGroup :=
  { g with parts := ⟨some r.value, r.depth⟩ :: g.parts }

def pushOptions (g : OpenGroup) : OpenGroup := { g with parts := ⟨none, 0⟩ :: g.parts }

/-- The current alternative. -/
def current (g : OpenGroup) : Nested Regex :=
  ⟨(g.parts.filterMap Nested.value).foldl (fun r part => .seq part r) .empty,
    depthOf (g.parts.map Nested.depth)⟩

def nextAlternative (g : OpenGroup) : OpenGroup :=
  { g with alternatives := g.current :: g.alternatives, parts := [] }

def close (g : OpenGroup) : Nested Regex :=
  ⟨g.alternatives.foldl (fun r alternative => .alt alternative.value r) g.current.value,
    depthOf ((g.current :: g.alternatives).map Nested.depth)⟩

/-- Repeats the last part; there has to be one. -/
def repeatLast? (least : Nat) (most : Option Nat) (g : OpenGroup) : Option OpenGroup :=
  match g.parts with
  | ⟨some r, depth⟩ :: parts =>
    some { g with parts := ⟨some (.loop r least most), depth + 1⟩ :: parts }
  | _ => none

/-- The whole group as a part of the group around it. -/
def closed (g : OpenGroup) : Nested Regex := ⟨g.close.value, g.close.depth + 1⟩

end OpenGroup

/-- A question mark that makes a repetition lazy changes nothing for the question whether there is
a match. -/
def skipLazy (flags : Flags) (cs : List Char) : List Char :=
  match skip flags cs with
  | '?' :: rest => rest
  | _ => cs

/-- A count with blanks around it. -/
def count? (cs : List Char) : Option (Nat × List Char) :=
  let cs := cs.dropWhile Text.isBlank
  let digits := cs.takeWhile Char.isDigit
  let value := digits.foldl (fun n c => n * 10 + (c.toNat - '0'.toNat)) 0
  if digits.isEmpty || value ≥ 4294967296 then none
  else some (value, (cs.drop digits.length).dropWhile Text.isBlank)

/-- The bounds of a counted repetition, behind its opening brace. -/
def bounds? (flags : Flags) (cs : List Char) : Option (Nat × Option Nat × List Char) := do
  let (least, rest) ← count? (skip flags cs)
  let (most, rest) ← match rest with
    | ',' :: rest =>
      match skip flags rest with
      | '\x7d' :: _ => some (none, skip flags rest)
      | rest => do
        let (most, rest) ← count? rest
        some (some most, rest)
    | _ => some (some least, rest)
  match rest with
  | '\x7d' :: rest =>
    match most with
    | some n => if least ≤ n then some (least, most, rest) else none
    | none => some (least, most, rest)
  | _ => none

/-- The options between a question mark and a colon or closing parenthesis. `given` holds the
letters so far and `off` whether a hyphen stood before. -/
def options? (flags : Flags) (given : List Char) (off : Bool) :
    List Char → Option (Flags × List Char × List Char)
  | [] => none
  | c :: rest =>
    if c = ':' || c = ')' then
      if given.head? = some '-' then none else some (flags, given, c :: rest)
    else if given.contains c then none
    else
      let given := c :: given
      match c with
      | '-' => options? flags given true rest
      | 'i' => options? { flags with caseless := !off } given off rest
      | 'm' => options? { flags with multiLine := !off } given off rest
      | 's' => options? { flags with dotAll := !off } given off rest
      | 'U' => options? flags given off rest
      | 'u' => options? { flags with unicode := !off } given off rest
      | 'R' => options? { flags with carriageReturn := !off } given off rest
      | 'x' => options? { flags with verbose := !off } given off rest
      | _ => none

/-- The name of a group, up to its closing angle bracket. -/
def groupName? (cs : List Char) : Option (String × List Char) := do
  let (name, rest) ← Text.cutFirst? '>' cs
  match name with
  | [] => none
  | first :: more =>
    if (first = '_' || Text.isAlphabetic first) &&
        more.all (fun c => c = '_' || c = '.' || c = '[' || c = ']' || Text.isAlphanumeric c) then
      some (String.ofList name, rest)
    else none

/-- What an opening parenthesis starts. -/
inductive Opening where
  | group (flags : Flags)
  | named (name : String)
  | options (flags : Flags)

def opening? (flags : Flags) (cs : List Char) : Option (Opening × List Char) :=
  match skip flags cs with
  | '?' :: 'P' :: '<' :: rest => (groupName? rest).map fun (name, rest) => (.named name, rest)
  | '?' :: '<' :: '=' :: _ | '?' :: '<' :: '!' :: _ | '?' :: '=' :: _ | '?' :: '!' :: _ => none
  | '?' :: '<' :: rest => (groupName? rest).map fun (name, rest) => (.named name, rest)
  | '?' :: rest =>
    match options? flags [] false rest with
    | some (flags, _, ':' :: rest) => some (.group flags, rest)
    | some (flags, given, ')' :: rest) =>
      if given.isEmpty then none else some (.options flags, rest)
    | _ => none
  | rest => some (.group flags, rest)

def literal (flags : Flags) (c : Char) : Regex :=
  .one (if flags.caseless then .caseless (.single c) else .single c)

def anchored (flags : Flags) (a : Anchor) : Regex := .anchor a (wordSet flags)

/-- Every character but a line break, or really every one. -/
def dot? (flags : Flags) : Option Regex :=
  if !flags.unicode then none
  else if flags.dotAll then some (.one .any)
  else if flags.carriageReturn then some (.one (.compl (.union (.single '\n') (.single '\r'))))
  else some (.one (.compl (.single '\n')))

/-- Reads the rest of an expression. `outer` holds the groups around the innermost open one. -/
def parseFrom? : Nat → Flags → List String → OpenGroup → List OpenGroup → List Char →
    Option (Nested Regex)
  | 0, _, _, _, _, _ => none
  | fuel + 1, flags, names, group, outer, cs =>
    match skip flags cs with
    | [] => if outer.isEmpty then some group.close else none
    | '(' :: rest => do
      let (opening, rest) ← opening? flags rest
      match opening with
      | .group inner => parseFrom? fuel inner names (.start flags) (group :: outer) rest
      | .named name =>
        if names.contains name then none
        else parseFrom? fuel flags (name :: names) (.start flags) (group :: outer) rest
      | .options flags => parseFrom? fuel flags names group.pushOptions outer rest
    | ')' :: rest =>
      match outer with
      | [] => none
      | parent :: outer => parseFrom? fuel group.outside names (parent.push group.closed) outer rest
    | '|' :: rest => parseFrom? fuel flags names group.nextAlternative outer rest
    | '*' :: rest => do
      parseFrom? fuel flags names (← group.repeatLast? 0 none) outer (skipLazy flags rest)
    | '+' :: rest => do
      parseFrom? fuel flags names (← group.repeatLast? 1 none) outer (skipLazy flags rest)
    | '?' :: rest => do
      parseFrom? fuel flags names (← group.repeatLast? 0 (some 1)) outer (skipLazy flags rest)
    | '\x7b' :: rest => do
      let (least, most, rest) ← bounds? flags rest
      parseFrom? fuel flags names (← group.repeatLast? least most) outer (skipLazy flags rest)
    | '[' :: rest => do
      let (set, rest) ← charClass? flags rest
      parseFrom? fuel flags names (group.push ⟨.one set.value, set.depth⟩) outer rest
    | '.' :: rest => do
      parseFrom? fuel flags names (group.push ⟨← dot? flags, 0⟩) outer rest
    | '^' :: rest =>
      let a : Anchor := if flags.multiLine then .startLine else .startText
      parseFrom? fuel flags names (group.push ⟨anchored flags a, 0⟩) outer rest
    | '$' :: rest =>
      let a : Anchor := if flags.multiLine then .endLine else .endText
      parseFrom? fuel flags names (group.push ⟨anchored flags a, 0⟩) outer rest
    | '\\' :: rest => do
      let (escape, rest) ← escape? flags rest
      let part := match escape with
        | .literal c => literal flags c
        | .oneOf set => .one set
        | .anchor a => anchored flags a
      parseFrom? fuel flags names (group.push ⟨part, 0⟩) outer rest
    | c :: rest => parseFrom? fuel flags names (group.push ⟨literal flags c, 0⟩) outer rest

/-- How deep the parts of an expression may be nested. -/
def depthLimit : Nat := 250

/-- The expression that a text describes, if it is well-formed. -/
def parse? (text : String) : Option Regex := do
  let chars := text.toList
  let r ← parseFrom? (chars.length + 1) {} [] (.start {}) [] chars
  if r.depth ≤ depthLimit then some r.value else none

end BuildScript.Regex
