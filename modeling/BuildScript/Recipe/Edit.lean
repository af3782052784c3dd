import BuildScript.Recipe.Insert
import BuildScript.Recipe.Plan
import BuildScript.SourceFile.Edit

/-!
# Editing build files

Writes the declarations that a plan asks for, in the language of the file and with the quotes that
it uses. A version that cannot be found leaves a warning instead of a declaration.
-/

namespace BuildScript

/-- Looks for the first string literal with a quote. -/
def Node.quoteFinder : Visitor (StateM (Option Char)) := fun _ n => do
  if (← get).isSome then return some n
  match n with
  | .literal _ value source =>
    set (match value with
      | .string _ => quote? source
      | _ => none)
    return some n
  | _ => return none

/-- The quote of the first string literal in a file. -/
def SourceFile.firstQuote? (file : SourceFile) : Option Char :=
  ((file.visit Node.quoteFinder).run none).2

/-- The language of a build file, from its marker or its name. -/
def SourceFile.dsl (file : SourceFile) : Dsl :=
  match file.dsl? with
  | some dsl => dsl
  | none => if Text.hasEnding ".kts" (Path.fileName file.path) then .kotlin else .groovy

namespace Recipe

/-- The versions that members of the family have in a project. -/
def familyVersions (r : Recipe) (g : DependencyGraph) : List String :=
  match r.family with
  | none => []
  | some family =>
    let dependencies := g.configurations.flatMap fun c => c.requested ++ c.resolved
    Names.ofList ((dependencies.filter fun d => family.covers d.group).filterMap Dependency.version)

/-- The version to write, if one is asked for. -/
def version (r : Recipe) (g : Option DependencyGraph) : Except Error (Option String) :=
  match r.selector with
  | none => .ok none
  | some selector =>
    match selector.onlyVersion? with
    | some version => .ok (some version)
    | none =>
      let family := match g with
        | some g => r.familyVersions g
        | none => []
      (r.resolve ⟨r.coordinate, selector, family⟩).map some

/-- An optional part of a written dependency, behind its separator. -/
def writtenPart (separator : String) : Option String → String
  | some text => if text.isEmpty then "" else separator ++ text
  | none => ""

/-- The dependency as it is written: `group:artifact[:version][:classifier][@extension]`. -/
def written (r : Recipe) (version : Option String) : String :=
  r.coordinate.display ++
    (match version with
      | some version => ":" ++ version
      | none => "") ++
    writtenPart ":" r.options.classifier ++
    writtenPart "@" (r.options.extension.filter fun extension => extension ≠ "jar")

/-- The statement that declares a dependency. -/
def statement (dsl : Dsl) (quote : Char) (configuration written : String) : String :=
  match dsl with
  | .groovy => configuration ++ " " ++ String.singleton quote ++ written ++ String.singleton quote
  | .kotlin => configuration ++ "(\"" ++ written ++ "\")"

def Target.scope (t : Target) : Scope :=
  match t.placement with
  | .topLevel => .topLevel
  | .suite name _ => .suite name

/-- Writes the declaration for one target. A block is added if the top level has none. -/
def declare (r : Recipe) (statement : String) (file : SourceFile) (t : Target) : SourceFile :=
  let insertion : Insertion := ⟨Target.scope t, r.coordinate, t.declared, statement⟩
  let (edited, found) := insertion.intoFile file
  if !found && t.placement = .topLevel then edited.appendBlock statement else edited

/-- The warning for a configuration whose version was not found. -/
def unresolved (r : Recipe) (file : SourceFile) (t : Target) (e : Error) : Warning :=
  ⟨some file.path,
    r.coordinate.display ++ ": " ++ e.message ++ "; `" ++ t.configuration ++ "` was not changed"⟩

/-- Follows the plan for a file. -/
def edit (r : Recipe) (s : Scanned) (file : SourceFile) : SourceFile × List Warning :=
  let quote := file.firstQuote?.getD '"'
  (r.plan file s).targets.foldl (fun (edited, warnings) t =>
    match r.version file.graph? with
    | .ok version =>
      (r.declare (statement file.dsl quote t.declared (r.written version)) edited t, warnings)
    | .error e => (edited, warnings ++ [r.unresolved file t e])) (file, [])

end Recipe

end BuildScript
