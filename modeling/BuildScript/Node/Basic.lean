import BuildScript.Text.Cut

/-!
# Nodes

The statements and expressions of a build script. A node holds every character that it was read
from, so that a tree prints as the text it came from. What the grammar does not cover is kept as a
verbatim node.

A node is named by the position that introduces it. An edit makes a new revision of the node under
the same name: two nodes of one history are the same node exactly when name and revision agree.
-/

namespace BuildScript

/-- What every node has: its name, how often it was edited, and the blanks and comments before
it. -/
structure Head where
  id : Nat
  revision : Nat
  lead : String
  deriving DecidableEq, Repr

namespace Head

/-- A node that was just made. -/
def new (id : Nat) (lead : String) : Head := ⟨id, 0, lead⟩

/-- The next revision. -/
def revised (h : Head) : Head := { h with revision := h.revision + 1 }

end Head

inductive LiteralValue where
  | string (text : String)
  /-- A number as it is written. -/
  | number (text : String)
  | boolean (value : Bool)
  | null
  deriving DecidableEq, Repr

/-- The words in front of a call whose result a property delegates to: `val name by`. -/
structure Delegate where
  keyword : String
  propertyLead : String
  property : String
  byLead : String
  callLead : String
  deriving DecidableEq, Repr

/-- An argument and the trivia between it and the following comma or parenthesis. -/
structure Argument (α : Type) where
  node : α
  trail : String

/-- The arguments of a call, in parentheses or in the command form. -/
structure Arguments (α : Type) where
  parenthesized : Bool
  /-- The trivia before the opening parenthesis. -/
  lead : String
  items : List (Argument α)
  /-- The trivia between the parentheses of an empty list. -/
  tail : String

/-- A call such as `implementation "g:a:v"`, with the name as written, receivers included. -/
structure Call (α : Type) where
  name : String
  /-- Type arguments with their angle brackets. -/
  typeArguments : Option String
  arguments : Option (Arguments α)
  closure : Option α
  delegate : Option Delegate

inductive Node where
  | call (head : Head) (call : Call Node)
  /-- Statements in braces, and the trivia before the closing brace. -/
  | closure (head : Head) (statements : List Node) (tail : String)
  | literal (head : Head) (value : LiteralValue) (source : String)
  | identifier (head : Head) (name : String)
  /-- An argument `name: value`, with the trivia before the colon. -/
  | named (head : Head) (name : String) (colonLead : String) (value : Node)
  /-- An assignment, with the trivia before the equals sign. -/
  | assignment (head : Head) (target : Node) (operatorLead : String) (value : Node)
  /-- Text that is kept as it is. -/
  | raw (head : Head) (text : String)

/-- The last segment of a dotted name. -/
def simpleName (name : String) : String :=
  match Text.cutLast? '.' name.toList with
  | some (_, last) => String.ofList last
  | none => name

namespace Call

variable {α : Type}

/-- A call with neither type arguments nor a delegating property. -/
def plain (name : String) (arguments : Option (Arguments α)) (closure : Option α) : Call α :=
  ⟨name, none, arguments, closure, none⟩

def simpleName (c : Call α) : String := BuildScript.simpleName c.name

def argumentNodes (c : Call α) : List α :=
  match c.arguments with
  | none => []
  | some arguments => arguments.items.map Argument.node

end Call

namespace Node

def head : Node → Head
  | call h _ | closure h _ _ | literal h _ _ | identifier h _ | named h _ _ _ | assignment h _ _ _
  | raw h _ => h

def withHead (h : Head) : Node → Node
  | call _ c => call h c
  | closure _ statements tail => closure h statements tail
  | literal _ value source => literal h value source
  | identifier _ name => identifier h name
  | named _ name colonLead value => named h name colonLead value
  | assignment _ target operatorLead value => assignment h target operatorLead value
  | raw _ text => raw h text

def id (n : Node) : Nat := n.head.id

def lead (n : Node) : String := n.head.lead

/-- Both are the same node of one history. -/
def same (a b : Node) : Bool := a.head.id = b.head.id && a.head.revision = b.head.revision

def call? : Node → Option (Call Node)
  | call _ c => some c
  | _ => none

/-- The text of a string literal. -/
def string? : Node → Option String
  | literal _ (.string text) _ => some text
  | _ => none

/-- The statements of a closure. -/
def closureStatements : Node → List Node
  | closure _ statements _ => statements
  | _ => []

end Node

/-- The statements in the closure of a call. -/
def Call.statements (c : Call Node) : List Node :=
  match c.closure with
  | none => []
  | some closure => closure.closureStatements

end BuildScript
