import BuildScript.Glob
import BuildScript.TypeUse.Imports
import BuildScript.Version.Resolver

/-!
# Recipes

A recipe adds one dependency to the projects that need it. It is made from options, which are
checked before anything is touched.
-/

namespace BuildScript

structure Options where
  group : String := ""
  artifact : String := ""
  /-- A version or a version selector. -/
  version : Option String := none
  /-- An expression that the qualifier of a selected version has to match. -/
  versionPattern : Option String := none
  /-- The one configuration to add to, instead of those that the source sets imply. -/
  configuration : Option String := none
  /-- Only projects that use a type matching this pattern are changed. -/
  onlyIfUsing : Option String := none
  classifier : Option String := none
  /-- The kind of artifact; `jar` is never written out. -/
  extension : Option String := none
  /-- A glob over groups whose versions the new dependency follows. -/
  familyPattern : Option String := none
  /-- Leaves out configurations that get the dependency from elsewhere. -/
  acceptTransitive : Bool := false
  deriving DecidableEq, Repr

/-- The value of an option in a source of options. -/
inductive OptionValue where
  | string (text : String)
  | boolean (value : Bool)
  /-- No value, where the source has a way to say so. -/
  | absent
  | other
  deriving DecidableEq, Repr

namespace Options

/-- The option that a key stands for, under its name or another spelling. -/
def canonicalKey (key : String) : String :=
  match key with
  | "groupId" => "group"
  | "artifactId" => "artifact"
  | "versionPattern" => "version_pattern"
  | "onlyIfUsing" => "only_if_using"
  | "familyPattern" => "family_pattern"
  | "acceptTransitive" => "accept_transitive"
  | _ => key

/-- The value of an optional text; the outer `none` is a value of the wrong kind. -/
def optionalText? : OptionValue → Option (Option String)
  | .string text => some (some text)
  | .absent => some none
  | _ => none

def set? (options : Options) (key : String) (value : OptionValue) : Option Options :=
  match key, value with
  | "group", .string text => some { options with group := text }
  | "artifact", .string text => some { options with artifact := text }
  | "accept_transitive", .boolean b => some { options with acceptTransitive := b }
  | "version", v => (optionalText? v).map fun t => { options with version := t }
  | "version_pattern", v => (optionalText? v).map fun t => { options with versionPattern := t }
  | "configuration", v => (optionalText? v).map fun t => { options with configuration := t }
  | "only_if_using", v => (optionalText? v).map fun t => { options with onlyIfUsing := t }
  | "classifier", v => (optionalText? v).map fun t => { options with classifier := t }
  | "extension", v => (optionalText? v).map fun t => { options with extension := t }
  | "family_pattern", v => (optionalText? v).map fun t => { options with familyPattern := t }
  | _, _ => none

/-- The options that some fields describe. No option may be given twice, and there are no others. -/
def ofFields? (fields : List (String × OptionValue)) : Option Options := do
  let keys := fields.map fun field => canonicalKey field.1
  if keys.eraseDups.length = keys.length then
    fields.foldlM (fun options (key, value) => options.set? (canonicalKey key) value) {}
  else none

/-- The explicit configuration, unless it is blank. -/
def explicitConfiguration? (options : Options) : Option String :=
  (options.configuration.map Text.trim).filter fun name => !name.isEmpty

end Options

structure Recipe where
  options : Options
  coordinate : Coordinate
  selector : Option VersionSelector
  family : Option Glob
  typePattern : Option TypePattern
  usage : TypePattern.Usage
  resolve : VersionRequest → Except Error String

namespace Recipe

def selectorOf (options : Options) : Except Error (Option VersionSelector) :=
  match (options.version.map Text.trim).filter fun version => !version.isEmpty with
  | some version => (VersionSelector.parse version options.versionPattern).map some
  | none => .ok none

def familyOf (options : Options) : Except Error (Option Glob) :=
  match options.familyPattern with
  | none => .ok none
  | some pattern =>
    let text := Text.trimChars pattern.toList
    if text.isEmpty then .ok none
    else
      match Glob.parse? text false with
      | some glob => .ok (some glob)
      | none => .error (.invalidFamilyPattern pattern)

def typePatternOf (options : Options) : Except Error (Option TypePattern) :=
  match options.onlyIfUsing with
  | some pattern => (TypePattern.parse pattern).map some
  | none => .ok none

/-- Checks options. The recipe finds types by imports and knows no versions but exact ones. -/
def ofOptions (options : Options) : Except Error Recipe := do
  let group := Text.trim options.group
  let artifact := Text.trim options.artifact
  if group.isEmpty then .error (.missingOption "group")
  else if artifact.isEmpty then .error (.missingOption "artifact")
  else
    let selector ← selectorOf options
    let family ← familyOf options
    let typePattern ← typePatternOf options
    .ok ⟨options, ⟨group, artifact⟩, selector, family, typePattern, .imports,
      Metadata.resolveCached []⟩

def withResolver (r : Recipe) (resolve : VersionRequest → Except Error String) : Recipe :=
  { r with resolve }

def withUsage (r : Recipe) (usage : TypePattern.Usage) : Recipe := { r with usage }

/-- What recipes of this kind are called. -/
def name : String := "add-dependency"

/-- The candidates among the accumulated configurations: the explicit one, or all of them, or
`implementation` if there are none. -/
def candidates (r : Recipe) (accumulated : List String) : List String :=
  match r.options.explicitConfiguration? with
  | some name => [name]
  | none => if accumulated.isEmpty then ["implementation"] else accumulated

end Recipe

end BuildScript
