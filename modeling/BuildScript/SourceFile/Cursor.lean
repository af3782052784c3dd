import BuildScript.SourceFile.Visit

/-!
# Cursors

A cursor is a place in a file: a node together with the nodes that enclose it.
-/

namespace BuildScript

inductive NodeKind where
  | file
  | call
  | closure
  | literal
  | identifier
  | named
  | assignment
  | raw
  deriving DecidableEq, Repr

namespace Node

def kind : Node → NodeKind
  | call _ _ => .call
  | closure _ _ _ => .closure
  | literal _ _ _ => .literal
  | identifier _ _ => .identifier
  | named _ _ _ _ => .named
  | assignment _ _ _ _ => .assignment
  | raw _ _ => .raw

/-- Collects the paths to all nodes, the last one first. A path starts with the node that it leads
to. -/
def pathFinder : Visitor (StateM (List (List Node))) := fun above n => do
  modify ((n :: above) :: ·)
  return none

end Node

/-- A place in a file. The path holds the node itself and those around it, the nearest first; it is
empty for the file. -/
structure Cursor where
  file : SourceFile
  path : List Node

namespace Cursor

/-- All places of a file, each before those inside it. -/
def all (file : SourceFile) : List Cursor :=
  ⟨file, []⟩ :: ((file.visit Node.pathFinder).run []).2.reverse.map fun path => ⟨file, path⟩

/-- The kinds along the path, the file last. -/
def kinds (c : Cursor) : List NodeKind := c.path.map Node.kind ++ [.file]

def depth (c : Cursor) : Nat := c.path.length

/-- The nearest call on the path. -/
def enclosingCall? (c : Cursor) : Option (Call Node) := c.path.findSome? Node.call?

/-- The nearest closure on the path. -/
def enclosingClosure? (c : Cursor) : Option Node := c.path.find? fun n => n.kind = .closure

/-- The place around this one. -/
def parent? (c : Cursor) : Option Cursor :=
  match c.path with
  | [] => none
  | _ :: above => some { c with path := above }

/-- Some call on the path has the simple name `name`. -/
def isWithin (c : Cursor) (name : String) : Bool :=
  c.path.any fun n => match n.call? with
    | some call => call.simpleName = name
    | none => false

end Cursor

end BuildScript
