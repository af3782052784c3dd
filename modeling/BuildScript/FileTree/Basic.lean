import BuildScript.Error
import BuildScript.Text.Cut

/-!
# File trees

The files and directories of a system, with symbolic links. A location is the row of names from the
top of the tree to an entry, without links on the way.
-/

namespace BuildScript

inductive FileTree where
  | file (content : ByteArray)
  | directory (entries : List (String × FileTree))
  /-- A symbolic link with its target, which counts from the directory that holds the link. -/
  | link (target : String)

namespace FileTree

abbrev Location := List String

def child? (name : String) (entries : List (String × FileTree)) : Option FileTree :=
  (entries.find? fun entry => entry.1 = name).map Prod.snd

/-- The entry at a location. -/
def at? (tree : FileTree) : Location → Option FileTree
  | [] => some tree
  | name :: rest =>
    match tree with
    | directory entries => (child? name entries).bind fun below => below.at? rest
    | _ => none

/-- The names in the directory at a location, in the order in which they are listed. -/
def names (tree : FileTree) (location : Location) : List String :=
  match tree.at? location with
  | some (directory entries) => entries.map Prod.fst
  | _ => []

def isDirectoryAt (tree : FileTree) (location : Location) : Bool :=
  match tree.at? location with
  | some (directory _) => true
  | _ => false

/-- How far names lead without passing a link. -/
inductive Reached where
  | missing
  | found (location : Location)
  /-- A link in a directory, and the names that are left behind it. -/
  | link (holder : Location) (target : String) (rest : List String)

/-- Goes along names. `..` leads to the directory above, and an empty name or `.` stays, but only
in a directory. -/
def follow (tree : FileTree) : Location → List String → Reached
  | location, [] => .found location
  | location, name :: rest =>
    match tree.at? location with
    | some (directory entries) =>
      if name = "" || name = "." then follow tree location rest
      else if name = ".." then follow tree location.dropLast rest
      else
        match child? name entries with
        | none => .missing
        | some (link target) => .link location target rest
        | some _ => follow tree (location ++ [name]) rest
    | _ => .missing

/-- The names in a path, and whether it counts from the top. -/
def steps (path : String) : List String := (Text.fields '/' path.toList).map String.ofList

def isAbsolute (path : String) : Bool := path.toList.head? = some '/'

/-- Goes along names and through at most `links` links. -/
def locateWithin? (tree : FileTree) : Nat → Location → List String → Option Location
  | links, base, names =>
    match tree.follow base names with
    | .missing => none
    | .found location => some location
    | .link holder target rest =>
      match links with
      | 0 => none
      | links + 1 =>
        tree.locateWithin? links (if isAbsolute target then [] else holder) (steps target ++ rest)

/-- As many links as one path may lead through. -/
def maxLinks : Nat := 40

/-- The location that names lead to from a directory. -/
def locate? (tree : FileTree) (base : Location) (names : List String) : Option Location :=
  tree.locateWithin? maxLinks base names

/-- The location of a path, seen from a directory. -/
def locatePath? (tree : FileTree) (base : Location) (path : String) : Option Location :=
  tree.locate? (if isAbsolute path then [] else base) (steps path)

/-- The directory that names lead to. -/
def directory? (tree : FileTree) (base : Location) (names : List String) : Option Location :=
  (tree.locate? base names).filter tree.isDirectoryAt

/-- The content of the file that names lead to. -/
def read? (tree : FileTree) (base : Location) (names : List String) : Option ByteArray := do
  match tree.at? (← tree.locate? base names) with
  | some (file content) => some content
  | _ => none

/-- The text of a file, which has to be UTF-8. -/
def readText (tree : FileTree) (base : Location) (names : List String) : Except Error String :=
  match (tree.read? base names).bind String.fromUTF8? with
  | some text => .ok text
  | none => .error .io

/-- Puts an entry at a location, and makes the directories on the way. -/
def put : FileTree → Location → FileTree → FileTree
  | _, [], new => new
  | tree, name :: rest, new =>
    let entries := match tree with
      | directory entries => entries
      | _ => []
    match child? name entries with
    | some below => directory (entries.map fun entry =>
        if entry.1 = name then (name, below.put rest new) else entry)
    | none => directory (entries ++ [(name, (directory []).put rest new)])

/-- Writes a text to a file. A link leads to the file that is written; a missing file is made. -/
def writeText (tree : FileTree) (base : Location) (names : List String) (text : String) :
    Except Error FileTree :=
  let content := file text.toUTF8
  match tree.locate? base names with
  | some location =>
    if tree.isDirectoryAt location then .error .io else .ok (tree.put location content)
  | none =>
    match tree.directory? base names.dropLast, names.getLast? with
    | some holder, some name => .ok (tree.put (holder ++ [name]) content)
    | _, _ => .error .io

mutual

/-- The number of directories, itself included. -/
def directoryCount : FileTree → Nat
  | directory entries => 1 + directoryCounts entries
  | file _ => 0
  | link _ => 0

def directoryCounts : List (String × FileTree) → Nat
  | [] => 0
  | (_, tree) :: rest => directoryCount tree + directoryCounts rest

end

mutual

/-- The files below, with the names that lead to them; links are passed over. -/
def files : FileTree → List (Location × ByteArray)
  | directory entries => filesOf entries
  | file content => [([], content)]
  | link _ => []

def filesOf : List (String × FileTree) → List (Location × ByteArray)
  | [] => []
  | (name, tree) :: rest =>
    (files tree).map (fun (location, content) => (name :: location, content)) ++ filesOf rest

end

/-- The files of a tree that another one does not have with the same content. -/
def changes (before after : FileTree) : List (Location × ByteArray) :=
  let old := before.files
  after.files.filter fun (location, content) =>
    match old.find? fun file => file.1 = location with
    | some (_, known) => known.data.toList ≠ content.data.toList
    | none => true

end FileTree

end BuildScript
