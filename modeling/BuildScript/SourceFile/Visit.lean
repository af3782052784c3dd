import BuildScript.SourceFile.Basic

/-!
# Visits

A visitor goes through a tree from the top. For each node it says what to put in its place, or lets
its children be visited. Then the node becomes a new revision exactly if one of the children is not
the same any more, so everything that nothing happens to stays the same node.
-/

namespace BuildScript

/-- What comes in the place of a node, with the nodes around it, the nearest first. Nothing lets the
children be visited. -/
def Visitor (m : Type → Type) : Type := List Node → Node → m (Option Node)

namespace Node

variable {m : Type → Type} [Monad m]

/-- The nodes right below a node, in the order in which they are written. -/
def children : Node → List Node
  | call _ c => c.argumentNodes ++ c.closure.toList
  | closure _ statements _ => statements
  | named _ _ _ value => [value]
  | assignment _ target _ value => [target, value]
  | literal _ _ _ | identifier _ _ | raw _ _ => []

/-- Node by node the same. -/
def sameAll : List Node → List Node → Bool
  | [], [] => true
  | a :: as, b :: bs => a.same b && sameAll as bs
  | _, _ => false

/-- A node after a visit to its children: the next revision with them, or the node itself if they
are all the same. -/
def rebuild (n visited : Node) : Node :=
  if sameAll visited.children n.children then n else visited.withHead n.head.revised

/-- Asks a visitor about a node, and visits the children with `walk` if it lets them be visited. -/
def ask (v : Visitor m) (above : List Node) (n : Node) (walk : m Node) : m Node := do
  match ← v above n with
  | some other => pure other
  | none => walk

mutual

def visit (v : Visitor m) (above : List Node) : Node → m Node
  | call h c =>
    let n := call h c
    ask v above n do pure (n.rebuild (call h (← visitCall v (n :: above) c)))
  | closure h statements tail =>
    let n := closure h statements tail
    ask v above n do pure (n.rebuild (closure h (← visitAll v (n :: above) statements) tail))
  | named h name colonLead value =>
    let n := named h name colonLead value
    ask v above n do pure (n.rebuild (named h name colonLead (← visit v (n :: above) value)))
  | assignment h target operatorLead value =>
    let n := assignment h target operatorLead value
    ask v above n do
      let target' ← visit v (n :: above) target
      let value' ← visit v (n :: above) value
      pure (n.rebuild (assignment h target' operatorLead value'))
  | literal h value source => ask v above (literal h value source) (pure (literal h value source))
  | identifier h name => ask v above (identifier h name) (pure (identifier h name))
  | raw h text => ask v above (raw h text) (pure (raw h text))
termination_by structural n => n

def visitCall (v : Visitor m) (above : List Node) : Call Node → m (Call Node)
  | ⟨name, typeArguments, arguments, trailing, delegate⟩ => do
    let arguments' ← visitArguments v above arguments
    let trailing' ← visitClosure v above trailing
    pure ⟨name, typeArguments, arguments', trailing', delegate⟩
termination_by structural c => c

def visitArguments (v : Visitor m) (above : List Node) :
    Option (Arguments Node) → m (Option (Arguments Node))
  | none => pure none
  | some ⟨parenthesized, lead, items, tail⟩ => do
    let items' ← visitItems v above items
    pure (some ⟨parenthesized, lead, items', tail⟩)
termination_by structural arguments => arguments

def visitItems (v : Visitor m) (above : List Node) : List (Argument Node) → m (List (Argument Node))
  | [] => pure []
  | ⟨node, trail⟩ :: rest => do
    let node' ← visit v above node
    let rest' ← visitItems v above rest
    pure (⟨node', trail⟩ :: rest')
termination_by structural items => items

def visitClosure (v : Visitor m) (above : List Node) : Option Node → m (Option Node)
  | none => pure none
  | some body => do
    let body' ← visit v above body
    pure (some body')
termination_by structural closure => closure

def visitAll (v : Visitor m) (above : List Node) : List Node → m (List Node)
  | [] => pure []
  | node :: rest => do
    let node' ← visit v above node
    let rest' ← visitAll v above rest
    pure (node' :: rest')
termination_by structural nodes => nodes

end

end Node

/-- Visits the statements of a file. -/
def SourceFile.visit {m : Type → Type} [Monad m] (v : Visitor m) (file : SourceFile) :
    m SourceFile := do
  let statements ← Node.visitAll v [] file.statements
  pure (if Node.sameAll statements file.statements then file else file.withStatements statements)

end BuildScript
