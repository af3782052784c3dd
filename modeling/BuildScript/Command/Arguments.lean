/-!
# Command lines

What a command line asks for. Options that hold for every command may stand in front of the command
or behind it. No option may be repeated in one of these places. The first thing that is wrong, or
that asks for help or the version, decides.
-/

namespace BuildScript

inductive OutputFormat where
  | text
  | json
  deriving DecidableEq, Repr

inductive Command where
  | run (dryRun diff : Bool)
  | check (diff : Bool) (format : OutputFormat)
  | plan (format : OutputFormat)
  deriving DecidableEq, Repr

/-- A command with the options that all commands have. -/
structure Invocation where
  command : Option Command
  path : Option String
  verbose : Bool
  deriving DecidableEq, Repr

inductive Request where
  | invoke (invocation : Invocation)
  | help
  | version
  | misuse
  deriving DecidableEq, Repr

namespace Request

/-- What can be set on a command line. -/
inductive Setting where
  | path
  | verbose
  | noColor
  | dryRun
  | diff
  | format
  deriving DecidableEq, Repr

/-- The settings have a value. -/
def Setting.takesValue : Setting → Bool
  | path | format => true
  | _ => false

def Setting.accepts (value : String) : Setting → Bool
  | path => !value.isEmpty
  | format => value = "text" || value = "json"
  | _ => false

/-- What an option with a given name does in some place. -/
inductive Meaning where
  | sets (setting : Setting)
  | help
  | version
  deriving DecidableEq, Repr

/-- A place on the command line: in front of the command, or behind one. -/
inductive Place where
  | front
  | run
  | check
  | plan
  deriving DecidableEq, Repr

namespace Place

def ofName? (name : String) : Option Place :=
  match name with
  | "run" => some run
  | "check" => some check
  | "plan" => some plan
  | _ => none

def allows (place : Place) : Setting → Bool
  | .path | .verbose | .noColor => true
  | .dryRun => place = run
  | .diff => place = run || place = check
  | .format => place = check || place = plan

/-- The meaning of a long option. -/
def long? (place : Place) (name : String) : Option Meaning :=
  let setting (s : Setting) := if place.allows s then some (Meaning.sets s) else none
  match name with
  | "path" => setting .path
  | "verbose" => setting .verbose
  | "no-color" => setting .noColor
  | "dry-run" => setting .dryRun
  | "diff" => setting .diff
  | "format" => setting .format
  | "help" => some .help
  | "version" => if place = front then some .version else none
  | _ => none

/-- The meaning of a letter. -/
def short? (place : Place) (letter : Char) : Option Meaning :=
  match letter with
  | 'p' => some (.sets .path)
  | 'v' => some (.sets .verbose)
  | 'h' => some .help
  | 'V' => if place = front then some .version else none
  | _ => none

end Place

/-- The settings of one place with their values. -/
abbrev Settings := List (Setting × String)

namespace Settings

def has (settings : Settings) (s : Setting) : Bool := settings.any fun entry => entry.1 = s

def value? (settings : Settings) (s : Setting) : Option String :=
  (settings.find? fun entry => entry.1 = s).map Prod.snd

/-- Adds a setting with a value that it accepts, once. -/
def add? (settings : Settings) (s : Setting) (value : String) : Option Settings :=
  if has settings s || (s.takesValue && !s.accepts value) then none
  else some (settings ++ [(s, value)])

def format (settings : Settings) : OutputFormat :=
  if settings.value? .format = some "json" then .json else .text

end Settings

/-- Looks like an option and not like a value. -/
def isOption (word : String) : Bool :=
  match word.toList with
  | '-' :: _ :: _ => true
  | _ => false

/-- What reading one word leads to. -/
inductive Step where
  | go (settings : Settings) (rest : List String)
  | stop (request : Request)

/-- Applies a setting; a value that is not attached is the next word. -/
def apply (s : Setting) (attached : Option String) (settings : Settings) (rest : List String) :
    Step :=
  let add (value : String) (rest : List String) := match settings.add? s value with
    | some settings => Step.go settings rest
    | none => .stop .misuse
  match s.takesValue, attached, rest with
  | true, some value, _ => add value rest
  | true, none, value :: rest => if isOption value then .stop .misuse else add value rest
  | true, none, [] => .stop .misuse
  | false, some _, _ => .stop .misuse
  | false, none, _ => add "" rest

/-- A word `--name` or `--name=value`. -/
def longOption (place : Place) (word : List Char) (settings : Settings) (rest : List String) :
    Step :=
  let name := String.ofList (word.takeWhile (· ≠ '='))
  let attached := match word.dropWhile (· ≠ '=') with
    | _ :: value => some (String.ofList value)
    | [] => none
  match place.long? name, attached with
  | some (.sets s), _ => apply s attached settings rest
  | some .help, none => .stop .help
  | some .version, none => .stop .version
  | _, _ => .stop .misuse

/-- A word of letters; a setting with a value takes the letters behind it. -/
def shortOptions (place : Place) : List Char → Settings → List String → Step
  | [], settings, rest => .go settings rest
  | letter :: letters, settings, rest =>
    match place.short? letter with
    | none => .stop .misuse
    | some .help => .stop .help
    | some .version => .stop .version
    | some (.sets s) =>
      if s.takesValue then
        let attached := match letters with
          | [] => none
          | '=' :: value => some (String.ofList value)
          | value => some (String.ofList value)
        apply s attached settings rest
      else
        match settings.add? s "" with
        | some settings => shortOptions place letters settings rest
        | none => .stop .misuse

/-- Help on a command. -/
def helpOn : List String → Request
  | [] => .help
  | [name] => if (Place.ofName? name).isSome || name = "help" then .help else .misuse
  | _ => .misuse

/-- The command that a place with its settings stands for. -/
def command? (place : Place) (settings : Settings) : Option Command :=
  match place with
  | .front => none
  | .run => some (.run (settings.has .dryRun) (settings.has .diff))
  | .check => some (.check (settings.has .diff) settings.format)
  | .plan => some (.plan settings.format)

/-- The invocation with the settings in front of the command and behind it. What stands behind it
counts more. -/
def finish (place : Place) (front behind : Settings) : Request :=
  .invoke {
    command := command? place behind
    path := (behind.value? .path).or (front.value? .path)
    verbose := behind.has .verbose || front.has .verbose }

/-- Reads words in a place. `front` are the settings in front of the command, once there is one. -/
def words : Nat → Place → (front settings : Settings) → List String → Request
  | 0, _, _, _, _ => .misuse
  | _, place, front, settings, [] => finish place front settings
  | fuel + 1, place, front, settings, word :: rest =>
    let go (step : Step) := match step with
      | .go settings rest => words fuel place front settings rest
      | .stop request => request
    match word.toList with
    | ['-', '-'] => if rest.isEmpty then finish place front settings else .misuse
    | '-' :: '-' :: name => go (longOption place name settings rest)
    | '-' :: letter :: letters => go (shortOptions place (letter :: letters) settings rest)
    | _ =>
      if place ≠ .front then .misuse
      else if word = "help" then helpOn rest
      else
        match Place.ofName? word with
        | some place => words fuel place settings [] rest
        | none => .misuse

/-- What a command line asks for. -/
def parse (arguments : List String) : Request := words (arguments.length + 1) .front [] [] arguments

end Request

end BuildScript
