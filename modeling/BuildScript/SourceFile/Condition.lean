import BuildScript.Error
import BuildScript.Path
import BuildScript.SourceFile.Basic

/-!
# Conditions on files

Gates that keep an edit away from files it has nothing to do with.
-/

namespace BuildScript

namespace SourceFile

/-- A file with the marker of a build file, or with the name of one. -/
def isBuildScript (f : SourceFile) : Bool :=
  f.dsl?.isSome || Text.hasEnding ".gradle" (Path.fileName f.path) ||
    Text.hasEnding ".gradle.kts" (Path.fileName f.path)

end SourceFile

inductive Condition where
  | isBuildScript
  | hasProject
  | hasSourceSet
  | hasBuildFile
  | hasGraph
  | cancelled
  /-- Leaves a warning each time it is evaluated, and answers as given. -/
  | warn (message : String) (answer : Bool)
  | and (left right : Condition)
  | or (left right : Condition)
  | not (inner : Condition)
  deriving DecidableEq, Inhabited, Repr

namespace Condition

/-- Evaluates a condition from left to right and no further than needed. -/
def test : Condition → SourceFile → Context → Bool × Context
  | isBuildScript, f, ctx => (f.isBuildScript, ctx)
  | hasProject, f, ctx => (f.project?.isSome, ctx)
  | hasSourceSet, f, ctx => (f.sourceSet?.isSome, ctx)
  | hasBuildFile, f, ctx => (f.dsl?.isSome, ctx)
  | hasGraph, f, ctx => (f.graph?.isSome, ctx)
  | cancelled, _, ctx => (ctx.cancelled, ctx)
  | warn message answer, _, ctx => (answer, ctx.warn none message)
  | and left right, f, ctx =>
    match left.test f ctx with
    | (true, ctx) => right.test f ctx
    | (false, ctx) => (false, ctx)
  | or left right, f, ctx =>
    match left.test f ctx with
    | (true, ctx) => (true, ctx)
    | (false, ctx) => right.test f ctx
  | not inner, f, ctx =>
    let (answer, ctx) := inner.test f ctx
    (!answer, ctx)

/-- Applies an edit to a file that meets the condition and leaves any other file as it is. -/
def guard (c : Condition) (edit : SourceFile → Option SourceFile) (f : SourceFile) (ctx : Context) :
    Option SourceFile × Context :=
  match c.test f ctx with
  | (true, ctx) => (edit f, ctx)
  | (false, ctx) => (some f, ctx)

end Condition

end BuildScript
