import BuildScript.Graph.Basic
import BuildScript.Recipe.Options
import BuildScript.Ordered
import BuildScript.Toml.Parse

/-!
# Configuration files

A configuration file holds the options of the recipe, the versions of modules and the projects of
the build. Keys that are not known are passed over, except among the options.
-/

namespace BuildScript

/-- The description of a configuration. -/
structure ConfigurationConfig where
  extendsFrom : List String
  requested : List String
  resolved : List String
  deriving DecidableEq, Repr

structure ProjectConfig where
  name : String
  /-- The directory of the project, from the root. -/
  path : String
  configurations : Table ConfigurationConfig
  deriving DecidableEq, Repr

structure Config where
  options : Options
  metadata : Metadata
  projects : List ProjectConfig
  deriving DecidableEq, Repr

namespace Toml

def text? : Toml → Option String
  | string text => some text
  | _ => none

def texts? : Toml → Option (List String)
  | array _ items => items.mapM text?
  | _ => none

/-- The fields of a record: a table, or an array with the values in the order of the fields. -/
def fields? (names : List String) : Toml → Option (List (String × Toml))
  | table _ entries => some entries
  | array _ items => some (names.zip items)
  | _ => none

/-- A field, or `default` if there is none; `none` is a field of the wrong kind. -/
def field? {α : Type} (read : Toml → Option α) (default : α) (key : String)
    (fields : List (String × Toml)) : Option α :=
  match fields.find? fun field => field.1 = key with
  | some (_, value) => read value
  | none => some default

/-- A field that has to be there. -/
def required? {α : Type} (read : Toml → Option α) (key : String) (fields : List (String × Toml)) :
    Option α :=
  (fields.find? fun field => field.1 = key) >>= fun field => read field.2

/-- A table of values of one kind. -/
def entriesOf? {α : Type} (read : Toml → Option α) : Toml → Option (Table α)
  | table _ entries =>
    entries.foldlM
      (fun found (key, value) => (read value).map fun a => Table.put key a found) .empty
  | _ => none

def listOf? {α : Type} (read : Toml → Option α) : Toml → Option (List α)
  | array _ items => items.mapM read
  | _ => none

def optionValue : Toml → OptionValue
  | string text => .string text
  | boolean value => .boolean value
  | _ => .other

end Toml

/-- The options in the order in which an array gives them. -/
def Options.keys : List String :=
  ["group", "artifact", "version", "version_pattern", "configuration", "only_if_using",
    "classifier",
    "extension", "family_pattern", "accept_transitive"]

def Options.ofToml? (t : Toml) : Option Options := do
  ofFields? ((← t.fields? keys).map fun (key, value) => (key, value.optionValue))

def ConfigurationConfig.ofToml? (t : Toml) : Option ConfigurationConfig := do
  let fields ← t.fields? ["extends", "requested", "resolved"]
  some {
    extendsFrom := ← Toml.field? Toml.texts? [] "extends" fields
    requested := ← Toml.field? Toml.texts? [] "requested" fields
    resolved := ← Toml.field? Toml.texts? [] "resolved" fields }

namespace ProjectConfig

/-- A project needs a name. -/
def ofToml? (t : Toml) : Option ProjectConfig := do
  let fields ← t.fields? ["name", "path", "configurations"]
  some {
    name := ← Toml.required? Toml.text? "name" fields
    path := ← Toml.field? Toml.text? "" "path" fields
    configurations :=
      ← Toml.field? (Toml.entriesOf? ConfigurationConfig.ofToml?) .empty "configurations" fields }

/-- The configuration that a description stands for. -/
def configuration (name : String) (c : ConfigurationConfig) : Except Error Configuration := do
  let requested ← c.requested.mapM Dependency.parse
  let resolved ← c.resolved.mapM Dependency.parse
  .ok { Configuration.extending name c.extendsFrom with requested, resolved }

/-- The graph of the described configurations, if there are any. -/
def graph (p : ProjectConfig) : Except Error (Option DependencyGraph) :=
  if p.configurations.entries.isEmpty then .ok none
  else do
    let configurations ← p.configurations.entries.mapM fun (name, c) => configuration name c
    return some (← DependencyGraph.new configurations)

end ProjectConfig

namespace Config

def empty : Config := ⟨{}, [], []⟩

def ofSection? (s : Toml.Section) : Option Config := do
  some {
    options := ← Toml.field? Options.ofToml? {} "recipe" s.entries
    metadata := (← Toml.field? (Toml.entriesOf? Toml.texts?) .empty "metadata" s.entries).entries
    projects := ← Toml.field? (Toml.listOf? ProjectConfig.ofToml?) [] "projects" s.entries }

/-- Reads the text of a configuration file. -/
def parse (text : String) : Except Error Config :=
  match Toml.parse? text >>= ofSection? with
  | some config => .ok config
  | none => .error .configParse

/-- The recipe that a configuration asks for, with its versions. -/
def recipe (c : Config) : Except Error Recipe := do
  let recipe ← Recipe.ofOptions c.options
  .ok (recipe.withResolver c.metadata.resolveCached)

/-- Where a configuration file may be, the preferred place first. -/
def places : List String := ["regraft.toml", ".regraft.toml", ".config/regraft.toml"]

end Config

end BuildScript
