import BuildScript.Coordinate
import BuildScript.Version.Selector

/-!
# Version resolvers

A resolver turns a selector into a version. The versions of a module come from metadata that is
known in advance. A resolver may remember its answers, failures included.
-/

namespace BuildScript

structure VersionRequest where
  coordinate : Coordinate
  selector : VersionSelector
  /-- Versions that members of the dependency's family have; one of these is preferred. -/
  family : List String

/-- The versions of each module, by its written coordinate. -/
abbrev Metadata := List (String × List String)

def Metadata.versions? (m : Metadata) (c : Coordinate) : Option (List String) :=
  (m.find? fun entry => entry.1 = c.display).map Prod.snd

/-- The greatest version that is allowed, from the family if possible. -/
def Metadata.resolve (m : Metadata) (r : VersionRequest) : Except Error String :=
  match r.selector.onlyVersion? with
  | some version => .ok version
  | none =>
    match m.versions? r.coordinate with
    | none => .error (.metadataUnavailable r.coordinate.display)
    | some texts =>
      let versions := texts.map Version.parse
      let aligned := versions.filter fun v => r.family.contains v.text
      match (r.selector.select? aligned).or (r.selector.select? versions) with
      | some v => .ok v.text
      | none => .error (.versionNotFound r.coordinate.display r.selector.text)

/-- What a remembered answer belongs to. -/
structure ResolverKey where
  coordinate : Coordinate
  selector : String
  pattern : Option String
  family : List String
  deriving DecidableEq, Repr

def VersionRequest.key (r : VersionRequest) : ResolverKey :=
  ⟨r.coordinate, r.selector.text, r.selector.pattern.map QualifierPattern.source, r.family⟩

/-- Answers given so far; a failure is remembered as one. -/
abbrev ResolverCache := List (ResolverKey × Option String)

namespace ResolverCache

def answer? (cache : ResolverCache) (key : ResolverKey) : Option (Option String) :=
  (List.find? (fun entry => entry.1 = key) cache).map Prod.snd

/-- Answers from the cache, or from `resolve` and remembers. Every failure reads as a version that
was not found. -/
def resolve (inner : VersionRequest → Except Error String) (cache : ResolverCache)
    (r : VersionRequest) : Except Error String × ResolverCache :=
  let (answer, cache) := match cache.answer? r.key with
    | some answer => (answer, cache)
    | none =>
      let answer := (inner r).toOption
      (answer, cache ++ [(r.key, answer)])
  (match answer with
    | some version => .ok version
    | none => .error (.versionNotFound r.coordinate.display r.selector.text), cache)

end ResolverCache

/-- What a resolver that remembers its answers replies. What it remembers never shows, but every
failure reads as a version that was not found. -/
def Metadata.resolveCached (m : Metadata) (r : VersionRequest) : Except Error String :=
  (ResolverCache.resolve m.resolve [] r).1

end BuildScript
