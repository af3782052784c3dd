import BuildScript.Coordinate
import BuildScript.Script.Suites

/-!
# Declarations

The dependencies that a build script declares, at the top level and in its test suites. A suite puts
its name in front of the configurations declared in it.
-/

namespace BuildScript

/-- A dependency declared in a configuration. -/
structure Declaration where
  configuration : String
  dependency : Dependency
  deriving DecidableEq, Repr

/-- The configuration of a suite that `configuration` stands for inside the suite. -/
def suiteConfiguration (suite configuration : String) : String :=
  match configuration.toList with
  | [] => suite
  | first :: rest => suite ++ String.ofList (first.toUpper :: rest)

namespace Declaration

/-- The fields of a dependency as arguments give them. -/
structure NamedFields where
  group : Option String := none
  artifact : Option String := none
  version : Option String := none

/-- Takes an argument into account; nothing but named arguments may occur. -/
def NamedFields.add? (fields : NamedFields) : Node → Option NamedFields
  | .named _ name _ value =>
    if name = "group" then some { fields with group := value.string? }
    else if name = "name" then some { fields with artifact := value.string? }
    else if name = "version" then some { fields with version := value.string? }
    else some fields
  | _ => none

def namedDependency? (arguments : List Node) : Option Dependency := do
  let fields ← arguments.foldlM NamedFields.add? {}
  some ⟨⟨← fields.group, ← fields.artifact⟩, fields.version⟩

/-- The dependency that the arguments of a call describe, as one text or by named fields. -/
def dependency? : List Node → Option Dependency
  | [one] => do (Dependency.parse (← one.string?)).toOption
  | arguments => namedDependency? arguments

/-- Reads a statement such as `implementation 'g:a:v'`. -/
def ofStatement? (statement : Node) : Option Declaration := do
  let c ← statement.call?
  some ⟨c.name, ← dependency? c.argumentNodes⟩

/-- The declarations directly inside a block. -/
def inBlock (block : Call Node) : List Declaration := block.statements.filterMap ofStatement?

/-- The declaration as one of the suite. -/
def inSuite (suite : String) (d : Declaration) : Declaration :=
  { d with configuration := suiteConfiguration suite d.configuration }

end Declaration

namespace Node

mutual

/-- The declarations in the suites that are registered in a statement or below it. -/
def suiteDeclarations : Node → List Declaration
  | call _ ⟨name, typeArguments, arguments, trailing, delegate⟩ =>
    let c : Call Node := ⟨name, typeArguments, arguments, trailing, delegate⟩
    match c.suiteName? with
    | some suite =>
      (Call.dependencyBlocks c.statements).flatMap fun block =>
        (Declaration.inBlock block).map (Declaration.inSuite suite)
    | none =>
      match trailing with
      | none => []
      | some body => bodySuiteDeclarations body
  | _ => []

/-- The same for the statements of a closure. -/
def bodySuiteDeclarations : Node → List Declaration
  | closure _ statements _ => allSuiteDeclarations statements
  | _ => []

def allSuiteDeclarations : List Node → List Declaration
  | [] => []
  | node :: rest => suiteDeclarations node ++ allSuiteDeclarations rest

end

end Node

namespace SourceFile

/-- The declarations in the `dependencies` blocks at the top level. -/
def topLevelDeclarations (file : SourceFile) : List Declaration :=
  (Call.dependencyBlocks file.statements).flatMap Declaration.inBlock

/-- The declarations in the `dependencies` blocks of test suites. -/
def suiteDeclarations (file : SourceFile) : List Declaration :=
  Node.allSuiteDeclarations file.statements

end SourceFile

end BuildScript
