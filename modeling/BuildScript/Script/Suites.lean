import BuildScript.Ordered
import BuildScript.SourceFile.Visit
import BuildScript.Text.Cut

/-!
# Test suites

The custom test suites that a build script registers under `testing` and `suites`.
-/

namespace BuildScript

namespace Call

/-- The node names the type of test suites. -/
def isSuiteType : Node → Bool
  | .identifier _ name => name = "JvmTestSuite" || name = "JvmTestSuite::class"
  | _ => false

/-- The text between angle brackets. -/
def insideAngles (text : List Char) : List Char :=
  let isAngle (c : Char) : Bool := c = '<' || c = '>'
  Text.trimChars ((text.dropWhile isAngle).reverse.dropWhile isAngle).reverse

/-- The name of the suite that a call registers, in one of the forms `name(JvmTestSuite)`,
`register('name', JvmTestSuite)`, `register<JvmTestSuite>("name")` and
`val name by registering(JvmTestSuite::class)`. -/
def suiteName? (c : Call Node) : Option String :=
  match c.delegate, c.typeArguments, c.argumentNodes with
  | some delegate, _, [kind] =>
    if c.simpleName = "registering" && isSuiteType kind then some delegate.property else none
  | some _, _, _ => none
  | none, some types, [name] =>
    if c.simpleName = "register" && insideAngles types.toList = "JvmTestSuite".toList then
      name.string?
    else none
  | none, some _, _ => none
  | none, none, [kind] => if isSuiteType kind then some c.simpleName else none
  | none, none, [name, kind] =>
    if c.simpleName = "register" && isSuiteType kind then name.string? else none
  | none, none, _ => none

/-- The `dependencies` blocks among some statements. -/
def dependencyBlocks (statements : List Node) : List (Call Node) :=
  (statements.filterMap Node.call?).filter fun c => c.simpleName = "dependencies"

/-- The call stands right under `suites` and somewhere under `testing`; `above` holds the calls
around it, the nearest first. -/
def isSuitePlace (above : List (Call Node)) (c : Call Node) : Bool :=
  (above.head?.any fun parent => parent.simpleName = "suites") &&
    (c :: above).any fun outer => outer.simpleName = "testing"

/-- The suite that a call registers in its place. -/
def placedSuite? (above : List (Call Node)) (c : Call Node) : Option String :=
  if isSuitePlace above c then c.suiteName? else none

end Call

/-- Finds the suites that calls register in their places, and looks at nothing inside a suite. With
`blocksOnly` only the suites with a `dependencies` block count. -/
def Call.suiteFinder (blocksOnly : Bool) : Visitor (StateM (List String)) := fun above n =>
  match n with
  | .call _ c => do
    let some suite := c.placedSuite? (above.filterMap Node.call?) | return none
    if !blocksOnly || !(dependencyBlocks c.statements).isEmpty then modify (Names.insert suite)
    return some n
  | _ => return none

/-- The set of suites that a file registers; with `blocksOnly` only those that have a
`dependencies` block. -/
def SourceFile.suites (file : SourceFile) (blocksOnly : Bool) : List String :=
  ((file.visit (Call.suiteFinder blocksOnly)).run []).2

end BuildScript
