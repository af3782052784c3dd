import BuildScript.SourceFile.Visit

/-!
# Edits

Edits that apply to the leaves of a tree. A string literal that gets a new value keeps what stands
in front of it.
-/

namespace BuildScript

/-- The first `bytes` bytes of a text in UTF-8; nothing if they end inside a character. -/
def bytesFront? : Nat → List Char → Option (List Char)
  | 0, _ => some []
  | _ + 1, [] => none
  | bytes + 1, c :: rest =>
    if c.utf8Size ≤ bytes + 1 then
      (bytesFront? (bytes + 1 - c.utf8Size) rest).map (c :: ·) else none

namespace Node

/-- The quote that a literal starts with. -/
def quote? (source : String) : Option Char :=
  match source.toList with
  | c :: _ => if c = '"' || c = '\'' then some c else none
  | [] => none

/-- What stands in front of the value in the source of a string literal. A literal without source
has a single quote; an empty value stands in the middle, which has to be a character boundary. -/
def delimiter? (value source : String) : Option String :=
  if source.isEmpty then some "'"
  else if value.isEmpty then
    (bytesFront? (source.utf8ByteSize / 2) source.toList).map String.ofList
  else
    match Text.before? value.toList source.toList with
    | some before => some (String.ofList before)
    | none => some (String.singleton ((quote? source).getD '\''))

/-- Gives a string literal a new value between its old delimiters. Other nodes, and literals that
have the value already, stay the same. -/
def withString? (value : String) : Node → Option Node
  | literal h (.string current) source =>
    if current = value then some (literal h (.string current) source)
    else (delimiter? current source).map fun d =>
      literal h.revised (.string value) (d ++ value ++ d)
  | n => some n

/-- Every string literal with the value `old` gets the value `new`; names and verbatim texts that
read `old` are replaced by `new`. -/
def replaceText? (old new : String) : Node → Option Node
  | literal h (.string current) source =>
    if current = old then withString? new (literal h (.string current) source)
    else some (literal h (.string current) source)
  | identifier h name => some (if name = old then identifier h.revised new else identifier h name)
  | raw h text => some (if text = old then raw h.revised new else raw h text)
  | n => some n

/-- Applies an edit to the literals, identifiers and verbatim texts. -/
def leafEditor (f : Node → Option Node) : Visitor Option := fun _ n =>
  match n with
  | literal _ _ _ | identifier _ _ | raw _ _ => (f n).map some
  | _ => some none

end Node

namespace SourceFile

def editLeaves? (f : Node → Option Node) (file : SourceFile) : Option SourceFile :=
  file.visit (Node.leafEditor f)

/-- Gives every string literal the value `value`. -/
def withStrings? (value : String) (file : SourceFile) : Option SourceFile :=
  file.editLeaves? (Node.withString? value)

/-- Replaces string values, names and verbatim texts that read `old`. -/
def replaceText? (old new : String) (file : SourceFile) : Option SourceFile :=
  file.editLeaves? (Node.replaceText? old new)

/-- For each statement, whether it is the same node as the statement at its place in `before`. -/
def shared (before after : SourceFile) : List Bool :=
  after.statements.zipIdx.map fun (node, i) =>
    match before.statements[i]? with
    | some old => node.same old
    | none => false

end SourceFile

end BuildScript
