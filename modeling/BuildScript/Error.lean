/-!
# Errors and warnings

Why an operation is refused. Each cause has a message, a code for diagnostics and, where one can be
given, advice. What does not stop a run is noted as a warning in the context, which the steps of the
run share.
-/

namespace BuildScript

/-- What is wrong with a version selector. -/
inductive SelectorFault where
  | empty
  | unknownLatest
  | unclosedRange
  | rangeWithoutComma
  | rangeWithoutBounds
  | boundNotNumeric (bound : String)
  | tildeNotNumeric
  | caretNotNumeric
  | wildcardNotNumeric
  | partOutOfRange
  | unrecognised
  deriving DecidableEq, Repr

def SelectorFault.message : SelectorFault → String
  | empty => "the selector is empty"
  | unknownLatest => "unknown `latest` selector"
  | unclosedRange => "a range must end with `]` or `)`"
  | rangeWithoutComma => "a range needs a `,` between its bounds"
  | rangeWithoutBounds => "a range needs at least one bound"
  | boundNotNumeric bound => "`" ++ bound ++ "` is not numeric"
  | tildeNotNumeric => "expected a numeric version after `~`"
  | caretNotNumeric => "expected a numeric version after `^`"
  | wildcardNotNumeric => "expected numeric parts before the wildcard"
  | partOutOfRange => "version part out of range"
  | unrecognised => "not a version, range or `latest` selector"

inductive Error where
  /-- The file system refuses an access. -/
  | io
  | missingOption (option : String)
  | invalidCoordinate (text : String)
  | invalidVersionSelector (selector : String) (fault : SelectorFault)
  | invalidVersionPattern (pattern : String)
  | invalidFamilyPattern (pattern : String)
  | invalidTypePattern (pattern : String)
  | versionNotFound (coordinate selector : String)
  | metadataUnavailable (coordinate : String)
  | configurationCycle (name : String)
  | unknownConfiguration (name parent : String)
  | configParse
  | invalidRunState (expected actual : String)
  | cancelled
  deriving DecidableEq, Repr

namespace Error

def message : Error → String
  | io => "input/output error"
  | missingOption option => "missing required recipe option: `" ++ option ++ "`"
  | invalidCoordinate text => "invalid dependency coordinate: `" ++ text ++ "`"
  | invalidVersionSelector selector fault =>
    "invalid version selector `" ++ selector ++ "`: " ++ fault.message
  | invalidVersionPattern pattern => "invalid version pattern `" ++ pattern ++ "`"
  | invalidFamilyPattern pattern => "invalid family pattern `" ++ pattern ++ "`"
  | invalidTypePattern pattern => "invalid type pattern: `" ++ pattern ++ "`"
  | versionNotFound coordinate selector =>
    "no version of `" ++ coordinate ++ "` matches `" ++ selector ++ "`"
  | metadataUnavailable coordinate => "no version metadata available for `" ++ coordinate ++ "`"
  | configurationCycle name => "configuration `" ++ name ++ "` extends itself"
  | unknownConfiguration name parent =>
    "configuration `" ++ name ++ "` extends unknown configuration `" ++ parent ++ "`"
  | configParse => "failed to parse config file"
  | invalidRunState expected actual =>
    "recipe run is `" ++ actual ++ "` but `" ++ expected ++ "` was required"
  | cancelled => "recipe run was cancelled"

def code : Error → String
  | io => "regraft::io_error"
  | missingOption _ => "regraft::missing_option"
  | invalidCoordinate _ => "regraft::invalid_coordinate"
  | invalidVersionSelector _ _ => "regraft::invalid_version_selector"
  | invalidVersionPattern _ => "regraft::invalid_version_pattern"
  | invalidFamilyPattern _ => "regraft::invalid_family_pattern"
  | invalidTypePattern _ => "regraft::invalid_type_pattern"
  | versionNotFound _ _ => "regraft::version_not_found"
  | metadataUnavailable _ => "regraft::metadata_unavailable"
  | configurationCycle _ => "regraft::configuration_cycle"
  | unknownConfiguration _ _ => "regraft::unknown_configuration"
  | configParse => "regraft::config_parse"
  | invalidRunState _ _ => "regraft::invalid_run_state"
  | cancelled => "regraft::cancelled"

def help? : Error → Option String
  | missingOption option =>
    some ("set `" ++ option ++ "` in the [recipe] table of regraft.toml")
  | invalidCoordinate _ => some "coordinates use the `group:artifact[:version]` notation"
  | invalidVersionSelector _ _ =>
    some ("use an exact version, `latest.release`, `latest.integration`, `latest.patch`, an " ++
      "X-range (`29.X`), a tilde (`~1.2`) or caret (`^1.2`) range, a hyphen range (`25-29`) " ++
      "or a bracket range (`[1.0,2.0)`)")
  | invalidVersionPattern _ =>
    some "the version pattern is a regular expression matched against the version qualifier"
  | invalidTypePattern _ => some "use a fully qualified type name, `package.*` or `package..*`"
  | metadataUnavailable _ =>
    some "list the available versions in the [metadata] table of regraft.toml"
  | configurationCycle _ => some "remove one of the `extends` entries forming the cycle"
  | configParse => some "check that regraft.toml is valid TOML with a [recipe] section"
  | _ => none

end Error

structure Warning where
  /-- The file that was being edited. -/
  file : Option String
  message : String
  deriving DecidableEq, Repr

structure Context where
  cancelled : Bool := false
  warnings : List Warning := []
  deriving DecidableEq, Repr

namespace Context

def cancel (ctx : Context) : Context := { ctx with cancelled := true }

def warn (ctx : Context) (file : Option String) (message : String) : Context :=
  { ctx with warnings := ctx.warnings ++ [⟨file, message⟩] }

/-- The warnings, and the context without them. -/
def takeWarnings (ctx : Context) : List Warning × Context :=
  (ctx.warnings, { ctx with warnings := [] })

end Context

end BuildScript
