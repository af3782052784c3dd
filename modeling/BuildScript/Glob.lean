/-!
# Globs

Patterns with `*`, `**`, `?`, classes in brackets, alternatives in braces and escapes. They are
matched byte by byte against the UTF-8 form of a text and have to cover all of it. A slash is
special only around `**`, unless the wildcards are told to stop at slashes.
-/

namespace BuildScript

inductive GlobToken where
  | bytes (list : List UInt8)
  /-- One byte. -/
  | any
  /-- Any number of bytes. -/
  | many
  /-- Leading directories. -/
  | leading
  /-- Everything below a directory. -/
  | trailing
  /-- A slash, or directories between two slashes. -/
  | between
  | oneOf (negated : Bool) (ranges : List (UInt8 × UInt8))
  | alternatives (branches : List (List GlobToken))

namespace GlobToken

def slash : UInt8 := 47

/-- All ends of a text. -/
def tails : List UInt8 → List (List UInt8)
  | [] => [[]]
  | b :: rest => (b :: rest) :: tails rest

/-- The ends of a text behind something without a slash. -/
def tailsBeforeSlash : List UInt8 → List (List UInt8)
  | [] => [[]]
  | b :: rest => (b :: rest) :: if b = slash then [] else tailsBeforeSlash rest

/-- The ends of a text behind a slash. -/
def tailsBehindSlash : List UInt8 → List (List UInt8)
  | [] => []
  | b :: rest => if b = slash then rest :: tailsBehindSlash rest else tailsBehindSlash rest

mutual

/-- The token stands for nothing at all. -/
def isVoid : GlobToken → Bool
  | alternatives branches => allVoid branches
  | _ => false

def areVoid : List GlobToken → Bool
  | [] => true
  | t :: rest => t.isVoid && areVoid rest

def allVoid : List (List GlobToken) → Bool
  | [] => true
  | branch :: rest => areVoid branch && allVoid rest

end

mutual

/-- What can be left of a text behind a token. With `stops` the wildcards do not pass a slash. -/
def after (stops : Bool) : GlobToken → List UInt8 → List (List UInt8)
  | bytes list, text => if list.isPrefixOf text then [text.drop list.length] else []
  | any, b :: rest => if stops && b = slash then [] else [rest]
  | any, [] => []
  | many, text => if stops then tailsBeforeSlash text else tails text
  | leading, text => text :: tailsBehindSlash text
  | trailing, b :: rest => if b = slash then tails rest else []
  | trailing, [] => []
  | between, b :: rest => if b = slash then rest :: tailsBehindSlash rest else []
  | between, [] => []
  | oneOf negated ranges, b :: rest =>
    if (ranges.any fun (first, last) => first ≤ b && b ≤ last) != negated then [rest] else []
  | oneOf _ _, [] => []
  | alternatives branches, text =>
    if allVoid branches then [text] else afterBranches stops branches text

/-- Behind a row of tokens. -/
def afterAll (stops : Bool) : List GlobToken → List UInt8 → List (List UInt8)
  | [], text => [text]
  | t :: rest, text => ((t.after stops text).flatMap (afterAll stops rest)).eraseDups

/-- Behind one of several rows; a row that stands for nothing does not count. -/
def afterBranches (stops : Bool) : List (List GlobToken) → List UInt8 → List (List UInt8)
  | [], _ => []
  | branch :: rest, text =>
    (if areVoid branch then [] else afterAll stops branch text) ++ afterBranches stops rest text

end

end GlobToken

structure Glob where
  tokens : List GlobToken
  /-- Wildcards do not pass a slash. -/
  stops : Bool

namespace Glob

def utf8 (text : List Char) : List UInt8 := text.flatMap String.utf8EncodeChar

/-- The pattern covers the whole text. A lone `**` covers everything. -/
def covers (g : Glob) (text : String) : Bool :=
  match g.tokens with
  | [.leading] => true
  | tokens => (GlobToken.afterAll g.stops tokens (utf8 text.toList)).contains []

/-- The bytes between two characters: the last byte of the one up to the first of the other, and
the bytes around them. -/
def byteRanges (first last : Char) : List (UInt8 × UInt8) :=
  let single (list : List UInt8) := list.map fun b => (b, b)
  let lower := String.utf8EncodeChar first
  let upper := String.utf8EncodeChar last
  if first = last then single lower
  else
    match lower.getLast?, upper with
    | some b, c :: rest => single lower.dropLast ++ [(b, c)] ++ single rest
    | _, _ => []

/-- The ranges of a class behind its opening bracket and negation. `ranges` holds those so far, the
last first; `inRange` says that a hyphen waits for the end of the last one. -/
def classRest? (ranges : List (Char × Char)) (inRange : Bool) (first : Bool) :
    List Char → Option (List (Char × Char) × List Char)
  | [] => none
  | c :: rest =>
    if c = ']' && !first then
      some (if inRange then ('-', '-') :: ranges else ranges, rest)
    else if c = '-' && !first && !inRange then classRest? ranges true false rest
    else
      match inRange, ranges with
      | true, (lower, _) :: more =>
        if lower ≤ c then classRest? ((lower, c) :: more) false false rest else none
      | _, _ => classRest? ((c, c) :: ranges) false false rest

/-- A class behind its opening bracket. -/
def class? (cs : List Char) : Option (GlobToken × List Char) := do
  let (negated, cs) := match cs with
    | '!' :: rest | '^' :: rest => (true, rest)
    | _ => (false, cs)
  let (ranges, rest) ← classRest? [] false true cs
  some (.oneOf negated (ranges.reverse.flatMap fun (a, b) => byteRanges a b), rest)

/-- Alternatives that are open: the tokens before them and the finished branches, both the last
first. -/
structure OpenBraces where
  before : List GlobToken
  branches : List (List GlobToken)

/-- Two stars: the tokens, the last first, and whether a following slash belongs to them. `prior` is
the character in front. -/
def doubleStar (tokens : List GlobToken) (inBraces : Bool) (prior : Option Char)
    (next : Option Char) :
    List GlobToken × Bool :=
  let plain := (GlobToken.many :: .many :: tokens, false)
  match tokens with
  | [] => if next.isNone || next = some '/' then ([.leading], next.isSome) else plain
  | last :: before =>
    if prior ≠ some '/' && (!inBraces || (prior ≠ some ',' && prior ≠ some '\x7b')) then plain
    else
      let isLast := next.isNone || (inBraces && (next = some ',' || next = some '\x7d'))
      if !isLast && next ≠ some '/' then plain
      else
        let token := match last with
          | .leading => GlobToken.leading
          | .trailing => .trailing
          | _ => if isLast then .trailing else .between
        (token :: before, !isLast)

/-- Reads the rest of a pattern. `tokens` holds those of the current branch, the last first, and
`prior` the character in front of the rest. -/
def tokens? :
    Nat → List GlobToken → List OpenBraces → Option Char → List Char → Option (List GlobToken)
  | 0, _, _, _, _ => none
  | _, tokens, braces, _, [] => if braces.isEmpty then some tokens.reverse else none
  | fuel + 1, tokens, braces, prior, c :: rest =>
    match c with
    | '?' => tokens? fuel (.any :: tokens) braces (some c) rest
    | '*' =>
      match rest with
      | '*' :: rest =>
        let (tokens, withSlash) := doubleStar tokens (!braces.isEmpty) prior rest.head?
        if withSlash then tokens? fuel tokens braces (some '/') (rest.drop 1)
        else tokens? fuel tokens braces (some '*') rest
      | _ => tokens? fuel (.many :: tokens) braces (some c) rest
    | '[' => do
      let (token, rest) ← class? rest
      tokens? fuel (token :: tokens) braces (some ']') rest
    | '\x7b' => tokens? fuel [] (⟨tokens, []⟩ :: braces) (some c) rest
    | '\x7d' =>
      match braces with
      | [] => none
      | ⟨before, branches⟩ :: braces =>
        let token := GlobToken.alternatives (tokens.reverse :: branches).reverse
        tokens? fuel (token :: before) braces (some c) rest
    | ',' =>
      match braces with
      | [] => tokens? fuel (.bytes (utf8 [c]) :: tokens) braces (some c) rest
      | ⟨before, branches⟩ :: braces =>
        tokens? fuel [] (⟨before, tokens.reverse :: branches⟩ :: braces) (some c) rest
    | '\\' =>
      match rest with
      | [] => none
      | d :: rest => tokens? fuel (.bytes (utf8 [d]) :: tokens) braces (some d) rest
    | _ => tokens? fuel (.bytes (utf8 [c]) :: tokens) braces (some c) rest

/-- The glob that a text describes, if it is well-formed. -/
def parse? (text : List Char) (stops : Bool) : Option Glob :=
  (tokens? (text.length + 1) [] [] none text).map (⟨·, stops⟩)

end Glob

end BuildScript
