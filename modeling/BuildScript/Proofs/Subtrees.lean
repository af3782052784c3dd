import BuildScript.Proofs.Trees
import BuildScript.SourceFile.Visit

/-!
# Subtrees

Every node of a tree is at a place: the numbers of the children to take on the way from the top. Two
trees can be compared place by place.
-/

namespace BuildScript

namespace Node

variable {P : Node → Prop} {n : Node}

/-- Induction over trees, from the children of a node to the node. -/
theorem induct_children {motive : Node → Prop} (h : ∀ n, (∀ c ∈ n.children, motive c) → motive n)
    (n : Node) :
    motive n := by
  induction n using Node.induct with
  | call head c harguments hclosure =>
    refine h _ ?_
    simp only [children, List.forall_mem_append, Option.mem_toList]
    exact ⟨harguments, hclosure⟩
  | closure head statements tail hstatements => exact h _ hstatements
  | named head name colonLead value hvalue => exact h _ (List.forall_mem_singleton.mpr hvalue)
  | assignment head target operatorLead value htarget hvalue =>
    exact h _ (List.forall_mem_cons.mpr ⟨htarget, List.forall_mem_singleton.mpr hvalue⟩)
  | literal | identifier | raw => exact h _ (List.forall_mem_nil _)

def get? : List Nat → Node → Option Node
  | [], n => some n
  | i :: place, n => n.children[i]?.bind (get? place)

def All (P : Node → Prop) (n : Node) : Prop := ∀ place m, n.get? place = some m → P m

theorem All.self (h : n.All P) : P n := h [] n rfl

theorem All.child (h : n.All P) {c : Node} (hc : c ∈ n.children) : c.All P := by
  obtain ⟨i, hi⟩ := List.mem_iff_getElem?.mp hc
  intro place m hm
  refine h (i :: place) m ?_
  rw [get?, hi]
  exact hm

theorem all_iff : n.All P ↔ P n ∧ ∀ c ∈ n.children, c.All P := by
  refine ⟨fun h => ⟨h.self, fun c hc => h.child hc⟩, ?_⟩
  rintro ⟨hself, hchildren⟩ place m hm
  cases place with
  | nil =>
    obtain rfl := Option.some.inj hm
    exact hself
  | cons i place =>
    obtain ⟨c, hc, hm⟩ := Option.bind_eq_some_iff.mp hm
    exact hchildren c (List.mem_of_getElem? hc) place m hm

/-- The condition holds throughout below a node that is found in a tree where it does. -/
theorem All.of_get? (h : n.All P) {place : List Nat} {m : Node} (hm : n.get? place = some m) :
    m.All P := by
  induction place generalizing n with
  | nil =>
    obtain rfl := Option.some.inj hm
    exact h
  | cons i place ih =>
    obtain ⟨c, hc, hm⟩ := Option.bind_eq_some_iff.mp hm
    exact ih (h.child (List.mem_of_getElem? hc)) hm

theorem all_call {h : Head} {c : Call Node} :
    (call h c).All P ↔
      P (call h c) ∧ (∀ a ∈ c.argumentNodes, a.All P) ∧ ∀ b ∈ c.closure, b.All P := by
  rw [all_iff, children, List.forall_mem_append]
  simp only [Option.mem_toList, Option.mem_def]

end Node

def SourceFile.get? (f : SourceFile) : List Nat → Option Node
  | [] => none
  | i :: place => f.statements[i]?.bind (Node.get? place)

def SourceFile.All (P : Node → Prop) (f : SourceFile) : Prop :=
  ∀ place m, f.get? place = some m → P m

theorem SourceFile.all_iff {P : Node → Prop} {f : SourceFile} :
    f.All P ↔ ∀ s ∈ f.statements, s.All P := by
  constructor
  · intro h s hs place m hm
    obtain ⟨i, hi⟩ := List.mem_iff_getElem?.mp hs
    refine h (i :: place) m ?_
    rw [SourceFile.get?, hi]
    exact hm
  · rintro h (_ | ⟨i, place⟩) m hm
    · cases hm
    · obtain ⟨s, hs, hm⟩ := Option.bind_eq_some_iff.mp hm
      exact h s (List.mem_of_getElem? hs) place m hm

end BuildScript
