import BuildScript.Node.Parse
import BuildScript.Script.Declaration
import BuildScript.SourceFile.Visit

/-!
# Inserting declarations

A declaration goes to the end of the first `dependencies` block in scope, indented like the
statements before it. A block that has the declaration already is left alone.
-/

namespace BuildScript

/-- Which blocks take a declaration. -/
inductive Scope where
  /-- Blocks that no call encloses. -/
  | topLevel
  /-- Blocks whose nearest enclosing call registers the suite. -/
  | suite (name : String)
  deriving DecidableEq, Repr

/-- A block is in scope, given the nearest call around it. -/
def Scope.contains (scope : Scope) (enclosing : Option (Call Node)) : Bool :=
  match scope, enclosing with
  | topLevel, none => true
  | topLevel, some _ => false
  | suite _, none => false
  | suite name, some c => c.suiteName? = some name

/-- A statement to insert, and what it declares. -/
structure Insertion where
  scope : Scope
  coordinate : Coordinate
  configuration : String
  statement : String
  deriving DecidableEq, Repr

/-- The indentation of the line that the text ends in, if it has a line break. -/
def lineIndent? (text : String) : Option String :=
  (Text.cutLast? '\n' text.toList).map fun (_, indent) => String.ofList indent

namespace Insertion

/-- The block declares the dependency already. -/
def isDeclared (i : Insertion) (block : Call Node) : Bool :=
  (Declaration.inBlock block).any fun d =>
    d.configuration = i.configuration && d.dependency.isOf i.coordinate

/-- The trivia before a closing brace that stands on a line of its own. -/
def brokenTail (indent tail : String) : String :=
  if tail.toList.contains '\n' then tail else Text.trimEnd tail ++ "\n" ++ indent

/-- The indentation of a statement at the end of a block. -/
def statementIndent (blockIndent : String) (statements : List Node) : String :=
  (statements.reverse.findSome? fun s => lineIndent? s.lead).getD (blockIndent ++ "    ")

/-- Appends a statement to a block. -/
def append? (statement : String) (h : Head) (block : Call Node) : Option Node :=
  match block.closure with
  | some (.closure ch statements tail) =>
    let blockIndent := (lineIndent? h.lead).getD ""
    let indent := statementIndent blockIndent statements
    match Node.parseSnippet ("\n" ++ indent ++ statement) with
    | node :: _ =>
      let body := Node.closure ch.revised (statements ++ [node]) (brokenTail blockIndent tail)
      some (.call h.revised { block with closure := some body })
    | [] => none
  | _ => none

/-- The block with the statement, unless it has the declaration already. -/
def intoBlock? (i : Insertion) (h : Head) (block : Call Node) : Option Node :=
  if i.isDeclared block then none else append? i.statement h block

/-- The call is a block that takes the declaration. -/
def takes (i : Insertion) (enclosing : Option (Call Node)) (c : Call Node) : Bool :=
  c.simpleName = "dependencies" && c.closure.isSome && i.scope.contains enclosing

/-- Inserts into the first block in scope. The state says whether it has been found. -/
def visitor (i : Insertion) : Visitor (StateM Bool) := fun above n =>
  match n with
  | .call h c => do
    if ← get then return some n
    if i.takes (above.findSome? Node.call?) c then
      set true
      return some ((i.intoBlock? h c).getD n)
    return none
  | _ => return none

/-- The file after an insertion, and whether there is a block in scope. -/
def intoFile (i : Insertion) (file : SourceFile) : SourceFile × Bool :=
  (file.visit i.visitor).run false

end Insertion

/-- Adds a `dependencies` block with one statement to the end of a file. -/
def SourceFile.appendBlock (file : SourceFile) (statement : String) : SourceFile :=
  let separator := if file.statements.isEmpty then "" else "\n\n"
  let block := Node.parseSnippet (separator ++ "dependencies \x7b\n    " ++ statement ++ "\n\x7d")
  { file with
    head := file.head.revised
    statements := file.statements ++ block
    tail := if file.tail.isEmpty then "\n" else file.tail }

end BuildScript
