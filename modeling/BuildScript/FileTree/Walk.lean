import BuildScript.FileTree.Basic
import BuildScript.FileTree.Ignore
import BuildScript.Path

/-!
# Finding files

Lists the files below a directory. Links are followed, but no directory is listed twice, whatever
names lead to it. Directories with generated or hidden content are left out, and so is what the
ignore file of the root names.
-/

namespace BuildScript

/-- Directories with such names are never looked into. -/
def isSkippedDirectoryName (name : String) : Bool :=
  name.toList.head? = some '.' || ["build", "target", "node_modules", "out"].contains name

namespace FileTree

/-- The directories listed so far, and the files found, by the names from the root. -/
structure Found where
  listed : List Location
  files : List Location

/-- Walks a directory. `relative` are the names from the root to it and `skips` tells which paths
are left out. All names are followed from the root again, so the links on the way count together. -/
def walk (tree : FileTree) (skips : Location → Bool → Bool) (root : Location) :
    Nat → Location → Location → Found → Found
  | 0, _, _, found => found
  | fuel + 1, location, relative, found =>
    if found.listed.contains location then found
    else
      (tree.names location).foldl (fun found name =>
        let path := relative ++ [name]
        match tree.directory? root path with
        | some below =>
          if isSkippedDirectoryName name || skips path true then found
          else walk tree skips root fuel below path found
        | none => if skips path false then found else { found with files := found.files ++ [path] })
        { found with listed := location :: found.listed }

/-- The order of paths by their names. -/
def pathLe (a b : Location) : Bool := !Path.partsLt (b.map Path.Part.name) (a.map Path.Part.name)

/-- The rules in the ignore file of a directory. -/
def ignoreRules (tree : FileTree) (root : Location) : List IgnoreRule :=
  match tree.read? root [".gitignore"] with
  | some content => IgnoreRule.ofContent content
  | none => []

/-- The files below a directory in the order of their paths. -/
def filesBelow (tree : FileTree) (root : Location) : List Location :=
  let rules := tree.ignoreRules root
  let skips (path : Location) := IgnoreRule.ignores rules (Path.ofNames path)
  (tree.walk skips root (tree.directoryCount + 1) root [] ⟨[], []⟩).files.mergeSort pathLe

end FileTree

end BuildScript
