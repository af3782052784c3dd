import BuildScript.Json
import BuildScript.LineDiff.Report
import BuildScript.Recipe.Run

/-!
# Reports

What commands print about plans, changes and warnings.
-/

namespace BuildScript.Report

def line (text : String) : String := text ++ "\n"

/-- A number of build files, as all reports write it. -/
def buildFiles (count : Nat) : String := toString count ++ " build file(s)"

def warning (w : Warning) : String :=
  match w.file with
  | some file => line ("warning: " ++ file ++ ": " ++ w.message)
  | none => line ("warning: " ++ w.message)

def warnings (ws : List Warning) : String := String.join (ws.map warning)

/-- The changed files in the order of their paths. -/
def sortedChanges (result : RunResult) : List FileResult :=
  result.changedFiles.mergeSort fun a b => !Path.lt b.before.path a.before.path

def difference (r : FileResult) : String := LineDiff.report r.before.print r.after.print

def loaded (coordinate : Coordinate) (scripts sources : Nat) : String :=
  line ("Loaded " ++ buildFiles scripts ++ " and " ++ toString sources ++ " source file(s) for `" ++
    coordinate.display ++ "`")

/-- The place of a target behind the mark of a plan. -/
def target (t : Target) : String :=
  match t.placement with
  | .topLevel => line ("  add: " ++ t.configuration)
  | .suite suite configuration =>
    line ("  add: " ++ t.configuration ++ " (test suite `" ++ suite ++ "`, as `" ++
      configuration ++ "`)")

/-- A build script with its project and its plan. -/
structure PlanEntry where
  file : String
  project : Option String
  plan : Plan

def planEntry (e : PlanEntry) : String :=
  line "" ++ line (e.file ++ " (" ++ e.project.getD "" ++ ")") ++
    match e.plan with
    | .skip reason => line ("  skip: " ++ reason.message)
    | .add targets => String.join (targets.map target)

def planText (coordinate : Coordinate) (entries : List PlanEntry) : String :=
  if entries.isEmpty then line "No build files found."
  else line ("Plan for `" ++ coordinate.display ++ "`") ++ String.join (entries.map planEntry)

def placementJson : Placement → JsonValue
  | .topLevel => .object [("kind", .string "top_level")]
  | .suite suite configuration =>
    .object [("configuration", .string configuration), ("kind", .string "test_suite"),
      ("suite", .string suite)]

def targetJson (t : Target) : JsonValue :=
  .object [("configuration", .string t.configuration), ("placement", placementJson t.placement)]

def optionalText : Option String → JsonValue
  | some text => .string text
  | none => .null

/-- The fields of an object are written in the order of their keys. -/
def planEntryJson (e : PlanEntry) : JsonValue :=
  .object ([("file", .string e.file), ("project", optionalText e.project)] ++
    match e.plan with
    | .skip reason => [("reason", .string reason.label), ("status", .string "skip")]
    | .add targets => [("status", .string "add"), ("targets", .array (targets.map targetJson))])

def planJson (coordinate : Coordinate) (entries : List PlanEntry) : JsonValue :=
  .object [("build_files", .array (entries.map planEntryJson)),
    ("coordinate", .string coordinate.display)]

def changeJson (r : FileResult) : JsonValue :=
  .object [("after", .string r.after.print), ("before", .string r.before.print),
    ("file", .string r.before.path)]

def warningJson (w : Warning) : JsonValue :=
  .object [("file", optionalText w.file), ("message", .string w.message)]

def checkJson (coordinate : Coordinate) (changed : List FileResult) (ws : List Warning) :
    JsonValue :=
  .object [("changes", .array (changed.map changeJson)), ("coordinate", .string coordinate.display),
    ("ok", .boolean changed.isEmpty), ("warnings", .array (ws.map warningJson))]

/-- The answer of a check when files would change. -/
def checkFailed (coordinate : Coordinate) (changed : List FileResult) (diff : Bool) : String :=
  line "Check failed." ++ line "" ++ line "Build files needing changes:" ++
    String.join
      (changed.map fun r => line ("  " ++ r.before.path) ++ if diff then difference r else "") ++
    line "" ++
    line (buildFiles changed.length ++ " need `" ++ coordinate.display ++
      "`. Run `regraft run` to fix.")

def checkPassed (coordinate : Coordinate) : String :=
  line ("Check passed: every project already has `" ++ coordinate.display ++
    "` where it is needed.")

def noChanges (coordinate : Coordinate) : String :=
  line ("No changes: every project already has `" ++ coordinate.display ++ "` where it is needed.")

def wouldChange (count : Nat) : String := line ("Dry run: would change " ++ buildFiles count ++ ":")

def added (coordinate : Coordinate) (count : Nat) : String :=
  line ("Added `" ++ coordinate.display ++ "` to " ++ buildFiles count ++ ":")

def paths (changed : List FileResult) : String :=
  String.join (changed.map fun r => line ("  " ++ r.before.path))

end BuildScript.Report
