import BuildScript.Glob
import BuildScript.Text.Cut

/-!
# Ignore rules

The lines of an ignore file. Each is a glob over paths from the root; the last one that covers a
path decides whether it is ignored. Lines that cannot be read are passed over.
-/

namespace BuildScript

structure IgnoreRule where
  glob : Glob
  /-- The rule takes paths back in. -/
  keeps : Bool
  directoriesOnly : Bool

namespace IgnoreRule

/-- A line without the blanks behind it, unless a backslash protects the last one. -/
def stripped (line : List Char) : List Char :=
  if ['\\', ' '].isSuffixOf line then line else Text.trimBack line

/-- The glob of a line without its marks. A line without a slash may cover a path at any depth, and
`/**` at the end covers what is in a directory but not the directory. -/
def globText (anchored : Bool) (line : List Char) : List Char :=
  let anyDepth := "**/".toList
  let line :=
    if anchored || line.contains '/' || anyDepth.isPrefixOf line || line = "**".toList then line
    else anyDepth ++ line
  if "/**".toList.isSuffixOf line then line ++ "/*".toList else line

/-- A slash at the end is a mark; so is a backslash in front of it. -/
def withoutSlash (line : List Char) : List Char × Bool :=
  match Text.dropBack? ['/'] line with
  | some rest => ((Text.dropBack? ['\\'] rest).getD rest, true)
  | none => (line, false)

/-- The rule in a line, if there is one. -/
def parse? (line : List Char) : Option IgnoreRule :=
  if line.head? = some '#' then none
  else
    match stripped line with
    | [] => none
    | line =>
      let (keeps, anchored, line) := match line with
        | '\\' :: '!' :: rest => (false, false, '!' :: rest)
        | '\\' :: '#' :: rest => (false, false, '#' :: rest)
        | '!' :: '/' :: rest => (true, true, rest)
        | '!' :: rest => (true, false, rest)
        | '/' :: rest => (false, true, rest)
        | rest => (false, false, rest)
      let (line, directoriesOnly) := withoutSlash line
      (Glob.parse? (globText anchored line) true).map fun glob => ⟨glob, keeps, directoriesOnly⟩

/-- The lines of a file, without their ends. -/
def lines : List UInt8 → List (List UInt8)
  | [] => []
  | b :: rest =>
    if b = 10 then [] :: lines rest
    else
      match lines rest with
      | [] => [[b]]
      | line :: more =>
        if b = 13 && line.isEmpty && rest.head? = some 10 then line :: more else (b :: line) :: more

/-- The rules of a file. Reading stops at a line that is not UTF-8, and a byte order mark in front
of the first line does not count. -/
def ofContent (content : ByteArray) : List IgnoreRule :=
  let texts := (lines content.toList).map fun line => String.fromUTF8? ⟨line.toArray⟩
  let texts := ((texts.takeWhile Option.isSome).filterMap id).map String.toList
  match texts with
  | [] => []
  | first :: rest => (first.dropWhile (· = '\ufeff') :: rest).filterMap parse?

/-- The rules ignore a path. -/
def ignores (rules : List IgnoreRule) (path : String) (isDirectory : Bool) : Bool :=
  match rules.reverse.find? fun r => (!r.directoriesOnly || isDirectory) && r.glob.covers path with
  | some rule => !rule.keeps
  | none => false

end IgnoreRule

end BuildScript
