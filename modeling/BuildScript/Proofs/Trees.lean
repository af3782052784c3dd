import BuildScript.Node.Basic
import Mathlib.Data.List.Basic

/-!
# Trees

Induction over trees, conditions that hold at every node of a tree, and trees without the names of
their nodes. A node's name says where it came from and how often it was edited; a bare tree only
keeps what is written.
-/

namespace BuildScript

variable {α β : Type}

def Argument.map (f : α → β) (a : Argument α) : Argument β := ⟨f a.node, a.trail⟩

def Arguments.map (f : α → β) (a : Arguments α) : Arguments β :=
  ⟨a.parenthesized, a.lead, a.items.map (Argument.map f), a.tail⟩

def Call.map (f : α → β) (c : Call α) : Call β :=
  ⟨c.name, c.typeArguments, c.arguments.map (Arguments.map f), c.closure.map f, c.delegate⟩

@[simp] theorem Call.argumentNodes_map (f : α → β) (c : Call α) :
    (c.map f).argumentNodes = c.argumentNodes.map f := by
  rcases c with ⟨name, types, _ | arguments, closure, delegate⟩
  · rfl
  · simp [Call.map, Call.argumentNodes, Arguments.map, Argument.map]

namespace Node

theorem sizeOf_argument {c : Call Node} {a : Node} (h : a ∈ c.argumentNodes) :
    sizeOf a < sizeOf c := by
  rcases c with ⟨name, types, _ | arguments, closure, delegate⟩
  · simp [Call.argumentNodes] at h
  · obtain ⟨item, hitem, rfl⟩ := List.mem_map.mp h
    have hlt := List.sizeOf_lt_of_mem hitem
    have hnode : sizeOf item.node < sizeOf item := by
      cases item
      simp
      omega
    cases arguments
    simp only [Call.mk.sizeOf_spec, Option.some.sizeOf_spec, Arguments.mk.sizeOf_spec] at hlt ⊢
    omega

theorem sizeOf_closure {c : Call Node} {b : Node} (h : c.closure = some b) :
    sizeOf b < sizeOf c := by
  cases c
  simp only at h
  subst h
  simp
  omega

/-- Induction over trees: a call may use its arguments and its closure, a closure its statements. -/
@[elab_as_elim]
theorem induct {motive : Node → Prop}
    (call : ∀ h c, (∀ a ∈ c.argumentNodes, motive a) → (∀ b, c.closure = some b → motive b) →
      motive (.call h c))
    (closure : ∀ h statements tail, (∀ s ∈ statements, motive s) →
      motive (.closure h statements tail))
    (literal : ∀ h value source, motive (.literal h value source))
    (identifier : ∀ h name, motive (.identifier h name))
    (named : ∀ h name colonLead value, motive value → motive (.named h name colonLead value))
    (assignment : ∀ h target operatorLead value, motive target → motive value →
      motive (.assignment h target operatorLead value))
    (raw : ∀ h text, motive (.raw h text)) (n : Node) : motive n := by
  match n with
  | .call h c =>
    refine call h c (fun a ha => ?_) (fun b hb => ?_)
    · have := sizeOf_argument ha
      exact induct call closure literal identifier named assignment raw a
    · have := sizeOf_closure hb
      exact induct call closure literal identifier named assignment raw b
  | .closure h statements tail =>
    refine closure h statements tail fun s hs => ?_
    have := List.sizeOf_lt_of_mem hs
    exact induct call closure literal identifier named assignment raw s
  | .literal h value source => exact literal h value source
  | .identifier h name => exact identifier h name
  | .named h name colonLead value =>
    exact named h name colonLead value
      (induct call closure literal identifier named assignment raw value)
  | .assignment h target operatorLead value =>
    exact assignment h target operatorLead value
      (induct call closure literal identifier named assignment raw target)
      (induct call closure literal identifier named assignment raw value)
  | .raw h text => exact raw h text
termination_by sizeOf n
decreasing_by
  all_goals simp
  all_goals omega

mutual

def every (p : Node → Bool) : Node → Bool
  | call h ⟨name, typeArguments, arguments, trailing, delegate⟩ =>
    p (call h ⟨name, typeArguments, arguments, trailing, delegate⟩) &&
    (match arguments with
      | none => true
      | some ⟨_, _, items, _⟩ => everyItem p items) &&
    (match trailing with
      | none => true
      | some body => body.every p)
  | closure h statements tail => p (closure h statements tail) && everyOf p statements
  | literal h value source => p (literal h value source)
  | identifier h name => p (identifier h name)
  | named h name colonLead value => p (named h name colonLead value) && value.every p
  | assignment h target operatorLead value =>
    p (assignment h target operatorLead value) && target.every p && value.every p
  | raw h text => p (raw h text)

def everyItem (p : Node → Bool) : List (Argument Node) → Bool
  | [] => true
  | ⟨node, _⟩ :: rest => node.every p && everyItem p rest

def everyOf (p : Node → Bool) : List Node → Bool
  | [] => true
  | node :: rest => node.every p && everyOf p rest

end

mutual

def bare : Node → Node
  | call h ⟨name, typeArguments, arguments, trailing, delegate⟩ =>
    call (Head.new 0 h.lead) ⟨name, typeArguments,
      (match arguments with
        | none => none
        | some ⟨parenthesized, lead, items, tail⟩ =>
          some ⟨parenthesized, lead, bareItems items, tail⟩),
      (match trailing with
        | none => none
        | some body => some body.bare),
      delegate⟩
  | closure h statements tail => closure (Head.new 0 h.lead) (bareAll statements) tail
  | literal h value source => literal (Head.new 0 h.lead) value source
  | identifier h name => identifier (Head.new 0 h.lead) name
  | named h name colonLead value => named (Head.new 0 h.lead) name colonLead value.bare
  | assignment h target operatorLead value =>
    assignment (Head.new 0 h.lead) target.bare operatorLead value.bare
  | raw h text => raw (Head.new 0 h.lead) text

def bareItems : List (Argument Node) → List (Argument Node)
  | [] => []
  | ⟨node, trail⟩ :: rest => ⟨node.bare, trail⟩ :: bareItems rest

def bareAll : List Node → List Node
  | [] => []
  | node :: rest => node.bare :: bareAll rest

end

section Every

variable {p : Node → Bool}

@[simp] theorem everyOf_eq (nodes : List Node) : everyOf p nodes = nodes.all (every p) := by
  induction nodes with
  | nil => rfl
  | cons node nodes ih => exact congrArg (every p node && ·) ih

@[simp] theorem everyItem_eq (items : List (Argument Node)) :
    everyItem p items = (items.map Argument.node).all (every p) := by
  induction items with
  | nil => rfl
  | cons item items ih => exact congrArg (every p item.node && ·) ih

theorem every_call {h : Head} {c : Call Node} :
    every p (call h c) = true ↔ p (call h c) = true ∧ (∀ a ∈ c.argumentNodes, every p a = true) ∧
      ∀ b, c.closure = some b → every p b = true := by
  rcases c with ⟨name, types, _ | arguments, _ | body, delegate⟩ <;>
    simp [every, Call.argumentNodes, and_assoc]

theorem every_closure {h : Head} {statements : List Node} {tail : String} :
    every p (closure h statements tail) = true ↔
      p (closure h statements tail) = true ∧ ∀ s ∈ statements, every p s = true := by
  rw [← List.all_eq_true, ← everyOf_eq]
  exact Bool.and_eq_true_iff

theorem every_named {h : Head} {name colonLead : String} {value : Node} :
    every p (named h name colonLead value) = true ↔
      p (named h name colonLead value) = true ∧ every p value = true :=
  Bool.and_eq_true_iff

theorem every_assignment {h : Head} {target value : Node} {operatorLead : String} :
    every p (assignment h target operatorLead value) = true ↔
      p (assignment h target operatorLead value) = true ∧ every p target = true ∧
        every p value = true := by
  rw [← and_assoc, ← Bool.and_eq_true_iff, ← Bool.and_eq_true_iff]
  rfl

theorem self_of_every {n : Node} (h : every p n = true) : p n = true := by
  cases n with
  | call head c => exact (every_call.mp h).1
  | closure head statements tail => exact (every_closure.mp h).1
  | named head name colonLead value => exact (every_named.mp h).1
  | assignment head target operatorLead value => exact (every_assignment.mp h).1
  | literal head value source => exact h
  | identifier head name => exact h
  | raw head text => exact h

end Every

section Bare

@[simp] theorem bareAll_eq (nodes : List Node) : bareAll nodes = nodes.map bare := by
  induction nodes with
  | nil => rfl
  | cons node nodes ih => exact congrArg (node.bare :: ·) ih

@[simp] theorem bareItems_eq (items : List (Argument Node)) :
    bareItems items = items.map (Argument.map bare) := by
  induction items with
  | nil => rfl
  | cons item items ih => exact congrArg (⟨item.node.bare, item.trail⟩ :: ·) ih

@[simp] theorem bare_call (h : Head) (c : Call Node) :
    (call h c).bare = call (Head.new 0 h.lead) (c.map bare) := by
  rcases c with ⟨name, types, _ | arguments, _ | body, delegate⟩ <;>
    simp [bare, Call.map, Arguments.map]

@[simp] theorem bare_closure (h : Head) (statements : List Node) (tail : String) :
    (closure h statements tail).bare = closure (Head.new 0 h.lead) (statements.map bare) tail :=
  congrArg (closure (Head.new 0 h.lead) · tail) (bareAll_eq statements)

@[simp] theorem bare_literal (h : Head) (value : LiteralValue) (source : String) :
    (literal h value source).bare = literal (Head.new 0 h.lead) value source := rfl

@[simp] theorem bare_identifier (h : Head) (name : String) :
    (identifier h name).bare = identifier (Head.new 0 h.lead) name := rfl

@[simp] theorem bare_named (h : Head) (name colonLead : String) (value : Node) :
    (named h name colonLead value).bare = named (Head.new 0 h.lead) name colonLead value.bare := rfl

@[simp] theorem bare_assignment (h : Head) (target value : Node) (operatorLead : String) :
    (assignment h target operatorLead value).bare =
      assignment (Head.new 0 h.lead) target.bare operatorLead value.bare := rfl

@[simp] theorem bare_raw (h : Head) (text : String) :
    (raw h text).bare = raw (Head.new 0 h.lead) text := rfl

end Bare

end Node

end BuildScript
