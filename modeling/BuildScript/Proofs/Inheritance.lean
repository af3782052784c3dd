import BuildScript.Graph.Reach
import BuildScript.Proofs.Tables
import Mathlib.Data.List.Basic
import Mathlib.Logic.Relation

/-!
# Inheritance as reachability

The ancestors that are gathered along the edges of a graph are exactly the names that can be
reached. They are found by a search, which may look at the pending names in any order. The number of
edges is enough fuel, because the edges of a name are followed only once.
-/

namespace BuildScript

namespace DependencyGraph

def Extends (g : DependencyGraph) (child parent : String) : Prop := parent ∈ g.parents child

abbrev Reaches (g : DependencyGraph) : String → String → Prop := Relation.ReflTransGen g.Extends

def openEdges (g : DependencyGraph) (found : List String) : List String :=
  (g.configurations.filter fun c => !found.contains c.name).flatMap Configuration.extendsFrom

theorem openEdges_nil (g : DependencyGraph) : (g.openEdges []).length = g.edgeCount := by
  simp [openEdges, edgeCount]

/-- Once a name is found, its edges are not open any more. -/
theorem openEdges_cons {g : DependencyGraph} {name : String} {found : List String}
    (h : name ∉ found) :
    (g.openEdges (name :: found)).length + (g.parents name).length ≤
      (g.openEdges found).length := by
  simp only [openEdges, parents, configuration?]
  generalize g.configurations = cs
  induction cs with
  | nil => simp
  | cons c cs ih =>
    by_cases hc : c.name = name
    · have hrest : ((cs.filter fun c => !(name :: found).contains c.name).flatMap
          Configuration.extendsFrom).length ≤
          ((cs.filter fun c => !found.contains c.name).flatMap
            Configuration.extendsFrom).length := by
        revert ih
        cases hfind : cs.find? fun c => c.name = name <;> (simp only; omega)
      simp only [List.contains_eq_mem, List.mem_cons] at hrest
      simp only [List.contains_eq_mem, List.mem_cons, hc, h, decide_true, List.find?_cons_of_pos,
        List.filter_cons, true_or, Bool.not_true, Bool.false_eq_true, if_false, decide_false,
        Bool.not_false, if_true, List.flatMap_cons, List.length_append]
      omega
    · simp only [List.find?_cons_of_neg, hc, decide_false, Bool.false_eq_true, not_false_eq_true,
        List.filter_cons, List.contains_eq_mem, List.mem_cons, false_or] at ih ⊢
      split
      · simp only [List.flatMap_cons, List.length_append]
        omega
      · exact ih

/-- The state of a search along the edges: the names that are still to be looked at and those
found. -/
structure Search where
  pending : List String
  found : List String

namespace Search

variable {g : DependencyGraph} {s t : Search} {name : String}

/-- A step looks at any one of the pending names. If it was found before then it is dropped.
Otherwise it is found, and what it extends is pending instead of it. -/
inductive Step (g : DependencyGraph) : Search → Search → Prop
  | known {before after found : List String} {name : String} : name ∈ found →
      Step g ⟨before ++ name :: after, found⟩ ⟨before ++ after, found⟩
  | fresh {before after found : List String} {name : String} : name ∉ found →
      Step g ⟨before ++ name :: after, found⟩ ⟨before ++ (g.parents name ++ after), name :: found⟩

abbrev Run (g : DependencyGraph) : Search → Search → Prop := Relation.ReflTransGen (Step g)

def work (g : DependencyGraph) (s : Search) : Nat := s.pending.length + (g.openEdges s.found).length

theorem Step.work_lt (h : Step g s t) : t.work g < s.work g := by
  cases h with
  | known _ =>
    simp only [work, List.length_append, List.length_cons]
    omega
  | fresh hname =>
    -- The edges of the name are open no more, and so there is room for its parents among the
    -- pending names.
    have hopen := openEdges_cons (g := g) hname
    simp only [work, List.length_append, List.length_cons]
    omega

structure Tracks (g : DependencyGraph) (name : String) (s : Search) : Prop where
  start : name ∈ s.found ∨ name ∈ s.pending
  reached : ∀ x, x ∈ s.found ∨ x ∈ s.pending → g.Reaches name x
  closed : ∀ x ∈ s.found, ∀ y, g.Extends x y → y ∈ s.found ∨ y ∈ s.pending

theorem tracks_start (g : DependencyGraph) (name : String) : Tracks g name ⟨[name], []⟩ where
  start := Or.inr List.mem_cons_self
  reached := by
    rintro x (hx | hx)
    · exact absurd hx List.not_mem_nil
    · rw [List.mem_singleton.mp hx]
  closed := fun x hx => absurd hx List.not_mem_nil

theorem Tracks.step (h : Tracks g name s) (hstep : Step g s t) : Tracks g name t := by
  cases hstep with
  | @known before after found current hknown =>
    -- What is dropped from the pending names was found before.
    have hkept : ∀ x, x ∈ found ∨ x ∈ before ++ current :: after →
        x ∈ found ∨ x ∈ before ++ after := by
      grind
    refine ⟨hkept name h.start, ?_, fun x hx y hxy => hkept y (h.closed x hx y hxy)⟩
    intro x hx
    apply h.reached
    grind
  | @fresh before after found current hfresh =>
    have hcurrent : g.Reaches name current := h.reached current (Or.inr (by simp))
    have hkept : ∀ x, x ∈ found ∨ x ∈ before ++ current :: after →
        x ∈ current :: found ∨ x ∈ before ++ (g.parents current ++ after) := by
      grind
    refine ⟨hkept name h.start, ?_, ?_⟩
    · intro x hx
      by_cases hparent : x ∈ g.parents current
      · exact hcurrent.tail hparent
      · apply h.reached
        grind
    · intro x hx y hxy
      obtain rfl | hx := List.mem_cons.mp hx
      · exact Or.inr (List.mem_append_right _ (List.mem_append_left _ hxy))
      · exact hkept y (h.closed x hx y hxy)

theorem Tracks.run (h : Tracks g name s) (hrun : Run g s t) : Tracks g name t := by
  induction hrun with
  | refl => exact h
  | tail _ hstep ih => exact ih.step hstep

/-- When nothing is pending any more, exactly what can be reached is found. -/
theorem mem_found {found : List String} (hrun : Run g ⟨[name], []⟩ ⟨[], found⟩) {x : String} :
    x ∈ found ↔ g.Reaches name x := by
  obtain ⟨hstart, hreached, hclosed⟩ := (tracks_start g name).run hrun
  simp only [List.not_mem_nil, or_false] at hstart hreached hclosed
  refine ⟨hreached x, ?_⟩
  intro hr
  induction hr with
  | refl => exact hstart
  | tail _ hstep ih => exact hclosed _ ih _ hstep

end Search

/-- With enough fuel, gathering is a search that comes to its end. -/
theorem run_gather {g : DependencyGraph} {fuel : Nat} {pending found : List String}
    (hfuel : Search.work g ⟨pending, found⟩ ≤ fuel) :
    Search.Run g ⟨pending, found⟩ ⟨[], g.gather fuel pending found⟩ := by
  induction fuel generalizing pending found with
  | zero =>
    have hnil : pending = [] := by
      apply List.eq_nil_of_length_eq_zero
      simp only [Search.work] at hfuel
      omega
    subst hnil
    exact .refl
  | succ fuel ih =>
    cases pending with
    | nil => exact .refl
    | cons name pending =>
      rw [gather]
      split
      · rename_i hname
        have hstep := @Search.Step.known g [] pending found name (by simpa using hname)
        have hless := hstep.work_lt
        exact .head hstep (ih (by simp only [List.nil_append] at hless ⊢; omega))
      · rename_i hname
        have hstep := @Search.Step.fresh g [] pending found name (by simpa using hname)
        have hless := hstep.work_lt
        exact .head hstep (ih (by simp only [List.nil_append] at hless ⊢; omega))

theorem run_ancestors (g : DependencyGraph) (name : String) :
    Search.Run g ⟨[name], []⟩ ⟨[], g.gather (g.edgeCount + 1) [name] []⟩ := by
  apply run_gather
  rw [Search.work, openEdges_nil, List.length_singleton]
  omega

theorem mem_ancestors {g : DependencyGraph} {name x : String} :
    x ∈ g.ancestors name ↔ g.Reaches name x := by
  rw [ancestors, Names.mem_ofList]
  exact Search.mem_found (run_ancestors g name)

theorem inherits_iff {g : DependencyGraph} {child ancestor : String} :
    g.inherits child ancestor = true ↔ g.Reaches child ancestor := by
  rw [inherits, List.contains_eq_mem, decide_eq_true_eq, mem_ancestors]

theorem mem_extending {g : DependencyGraph} {name : String} {c : Configuration} :
    c ∈ g.extending name true ↔ c ∈ g.configurations ∧ c.name ≠ name ∧ g.Reaches c.name name := by
  simp [extending, inherits_iff]

theorem mem_of_configuration? {g : DependencyGraph} {name : String} {c : Configuration}
    (h : g.configuration? name = some c) : c ∈ g.configurations ∧ c.name = name := by
  refine ⟨List.mem_of_find?_eq_some h, ?_⟩
  simpa using List.find?_some h

end DependencyGraph

end BuildScript
