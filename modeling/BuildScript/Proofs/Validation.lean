import BuildScript.Proofs.Lists
import BuildScript.Proofs.WellFormed
import Mathlib.Data.List.Induction

/-!
# Validation

Configurations make a graph exactly if all that they extend is among them and none of them extends
itself, directly or through others. A refusal names an edge that leads nowhere, or a configuration
that leads back to itself. After an insertion the whole graph is checked again, although only the
new configuration can be at fault, and a graph that is refused is restored.
-/

namespace BuildScript

namespace DependencyGraph

open Relation (TransGen)

variable {g : DependencyGraph} {c previous : Configuration} {cs : List Configuration}
  {name parent x y : String} {e : Error}

def Acyclic (g : DependencyGraph) : Prop := ∀ name, ¬ TransGen g.Extends name name

section Refusals

theorem extends_of_danglingEdge? (h : g.danglingEdge? = some (name, parent)) :
    g.Extends name parent ∧ parent ∉ g.names := by
  obtain ⟨c, hc, hfound⟩ := List.exists_of_findSome?_eq_some h
  obtain ⟨missing, hmissing, hpair⟩ := Option.map_eq_some_iff.mp hfound
  obtain ⟨rfl, rfl⟩ := Prod.mk.inj hpair
  have hedge : g.Extends c.name missing := extends_of_mem hc (List.mem_of_find?_eq_some hmissing)
  have hunknown : g.contains missing = false := by simpa using List.find?_some hmissing
  refine ⟨hedge, ?_⟩
  intro hmem
  rw [contains_iff.mpr hmem] at hunknown
  cases hunknown

/-- Each name on the path leads to the one that is followed, so one that is met again leads to
itself. -/
theorem transGen_of_follow {fuel : Nat} {path done : List String}
    (hpath : ∀ earlier ∈ path, TransGen g.Extends earlier name)
    (h : g.follow fuel path done name = .error x) :
    TransGen g.Extends x x := by
  induction fuel generalizing path done name with
  | zero => cases h
  | succ fuel ih =>
    simp only [follow] at h
    split at h
    · cases h
    · split at h
      · rename_i hmet
        obtain rfl : name = x := by simpa using h
        exact hpath name (by simpa using hmet)
      · cases hfold : (g.parents name).foldlM
            (fun done parent => g.follow fuel (name :: path) done parent) done with
        | ok middle => simp [hfold, bind, Except.bind] at h
        | error x' =>
          obtain rfl : x' = x := by simpa [hfold, bind, Except.bind] using h
          obtain ⟨parent, hparent, done', hfollow⟩ := exists_of_foldlM_error hfold
          have hedge : g.Extends name parent := hparent
          have hlonger : ∀ earlier ∈ name :: path, TransGen g.Extends earlier parent := by
            intro earlier hearlier
            rcases List.mem_cons.mp hearlier with rfl | hearlier
            · exact .single hedge
            · exact (hpath earlier hearlier).tail hedge
          exact ih hlonger hfollow

theorem transGen_of_cycle? (h : g.cycle? = some name) : TransGen g.Extends name name := by
  unfold cycle? at h
  split at h
  · cases h
  · rename_i x hfold
    obtain rfl : x = name := by simpa using h
    obtain ⟨start, -, done, hfollow⟩ := exists_of_foldlM_error hfold
    exact transGen_of_follow (fun _ hmem => absurd hmem List.not_mem_nil) hfollow

theorem refused_of_validate (h : g.validate = .error e) :
    (∃ name parent, e = .unknownConfiguration name parent ∧ g.Extends name parent ∧
      parent ∉ g.names) ∨
      ∃ name, e = .configurationCycle name ∧ g.Closed ∧ TransGen g.Extends name name := by
  unfold validate at h
  cases hdangling : g.danglingEdge? with
  | some edge =>
    obtain ⟨name, parent⟩ := edge
    rw [hdangling] at h
    have herror : e = .unknownConfiguration name parent := by simpa using h.symm
    exact Or.inl ⟨name, parent, herror, extends_of_danglingEdge? hdangling⟩
  | none =>
    rw [hdangling] at h
    cases hcycle : g.cycle? with
    | none =>
      rw [hcycle] at h
      cases h
    | some name =>
      rw [hcycle] at h
      have herror : e = .configurationCycle name := by simpa using h.symm
      exact Or.inr ⟨name, herror, closed_of_danglingEdge? hdangling, transGen_of_cycle? hcycle⟩

theorem validate_iff : g.validate = .ok () ↔ g.Closed ∧ g.Acyclic := by
  constructor
  · intro h
    obtain ⟨hclosed, hgrounded⟩ := grounded_of_validate h
    exact ⟨hclosed, hgrounded.acyclic⟩
  · rintro ⟨hclosed, hacyclic⟩
    cases h : g.validate with
    | ok _ => rfl
    | error e =>
      rcases refused_of_validate h with ⟨name, parent, -, hedge, hmissing⟩ | ⟨name, -, -, hcycle⟩
      · exact absurd (hclosed name parent hedge) hmissing
      · exact absurd hcycle (hacyclic name)

end Refusals

section Lists

/-- The last configuration of a name in a list: it replaces the earlier ones. -/
def latest? (cs : List Configuration) (name : String) : Option Configuration :=
  cs.reverse.find? fun c => c.name = name

def ListExtends (cs : List Configuration) (child parent : String) : Prop :=
  ∃ c, latest? cs child = some c ∧ parent ∈ c.extendsFrom

def ListClosed (cs : List Configuration) : Prop :=
  ∀ child parent, ListExtends cs child parent → ∃ c ∈ cs, c.name = parent

theorem configuration?_ofList (cs : List Configuration) (name : String) :
    (ofList cs).configuration? name = latest? cs name := by
  induction cs using List.reverseRecOn with
  | nil => rfl
  | append_singleton cs c ih =>
    have hlast : ofList (cs ++ [c]) = (ofList cs).updated c := by simp [ofList]
    rw [hlast, configuration?_updated, latest?, List.reverse_append, List.reverse_singleton,
      List.singleton_append, List.find?_cons]
    by_cases hname : c.name = name
    · simp [hname]
    · simpa [hname, Ne.symm hname, latest?] using ih

theorem extends_ofList (cs : List Configuration) : (ofList cs).Extends = ListExtends cs := by
  funext child parent
  unfold Extends parents ListExtends
  rw [configuration?_ofList]
  cases latest? cs child with
  | none => simp
  | some c => simp

theorem mem_names_ofList : name ∈ (ofList cs).names ↔ ∃ c ∈ cs, c.name = name := by
  rw [← contains_iff, contains, configuration?_ofList]
  simp [latest?]

theorem closed_ofList : (ofList cs).Closed ↔ ListClosed cs := by
  simp only [Closed, ListClosed, extends_ofList, mem_names_ofList]

/-- A list is accepted exactly if the configurations that count extend nothing that is missing and
have no cycle, and they are what the graph holds. A list is refused because of an edge to something
missing or, if there is none, because of a configuration on a cycle. -/
theorem new_accepts_exactly (cs : List Configuration) :
    ((∃ g, new cs = .ok g) ↔ ListClosed cs ∧ ∀ name, ¬ TransGen (ListExtends cs) name name) ∧
    (∀ g, new cs = .ok g → ∀ name, g.configuration? name = latest? cs name) ∧
    ∀ e, new cs = .error e →
      (∃ name parent, e = .unknownConfiguration name parent ∧ ListExtends cs name parent ∧ ∀ c ∈ cs,
        c.name ≠ parent) ∨
      ∃ name, e = .configurationCycle name ∧ ListClosed cs ∧
        TransGen (ListExtends cs) name name := by
  have haccepted : (ofList cs).validate = .ok () ↔
      ListClosed cs ∧ ∀ name, ¬ TransGen (ListExtends cs) name name := by
    rw [validate_iff, closed_ofList, Acyclic, extends_ofList]
  refine ⟨⟨?_, ?_⟩, ?_, ?_⟩
  · rintro ⟨g, hg⟩
    obtain ⟨rfl, hvalid⟩ := eq_of_new hg
    exact haccepted.mp hvalid
  · intro h
    refine ⟨ofList cs, ?_⟩
    rw [new_eq, haccepted.mpr h]
    rfl
  · intro g hg name
    obtain ⟨rfl, -⟩ := eq_of_new hg
    exact configuration?_ofList cs name
  · intro e he
    have hinvalid : (ofList cs).validate = .error e := by
      rw [new_eq] at he
      cases hv : (ofList cs).validate with
      | ok _ => simp [hv, Except.map] at he
      | error e' => simpa [hv, Except.map] using he
    have hrefused := refused_of_validate hinvalid
    simpa only [extends_ofList, closed_ofList, mem_names_ofList, not_exists, not_and] using hrefused

/-- The first `a` does not count, so the unknown name does no harm; the second closes a cycle. -/
theorem new_accepts_exactly_replaced :
    let cs : List Configuration :=
      [.extending "a" ["unknown"], .extending "b" ["a"], .extending "a" ["b"]]
    new cs = .error (.configurationCycle "a") ∧ ListClosed cs ∧
      TransGen (ListExtends cs) "a" "a" := by
  intro cs
  have herror : new cs = .error (.configurationCycle "a") := by decide +kernel
  refine ⟨herror, ?_⟩
  rcases (new_accepts_exactly cs).2.2 _ herror with ⟨_, _, he, -⟩ | ⟨name, he, hcycle⟩
  · cases he
  · obtain rfl : "a" = name := by simpa using he
    exact hcycle

end Lists

section Insertion

theorem extends_updated_self : (g.updated c).Extends c.name parent ↔ parent ∈ c.extendsFrom := by
  rw [Extends, parents, configuration?_updated, if_pos rfl]

theorem extends_updated_of_ne (h : x ≠ c.name) :
    (g.updated c).Extends x parent ↔ g.Extends x parent := by
  rw [Extends, parents, configuration?_updated, if_neg h, Extends, parents]

theorem closed_updated (h : g.Closed) :
    (g.updated c).Closed ↔ ∀ parent ∈ c.extendsFrom, (g.updated c).contains parent = true := by
  constructor
  · intro hclosed parent hparent
    exact contains_iff.mpr (hclosed c.name parent (extends_updated_self.mpr hparent))
  · intro hparents child parent hedge
    by_cases hchild : child = c.name
    · subst hchild
      exact contains_iff.mp (hparents parent (extends_updated_self.mp hedge))
    · have hkept : parent ∈ g.names := h child parent ((extends_updated_of_ne hchild).mp hedge)
      rw [names_updated]
      exact Names.mem_insert.mpr (Or.inr hkept)

/-- A chain of edges in the updated graph was there before, or it passes through what is new. -/
theorem transGen_of_updated (h : TransGen (g.updated c).Extends x y) :
    TransGen g.Extends x y ∨
      (g.updated c).Reaches x c.name ∧ TransGen (g.updated c).Extends c.name y := by
  induction h with
  | @single y hedge =>
    by_cases hx : x = c.name
    · subst hx
      exact Or.inr ⟨.refl, .single hedge⟩
    · exact Or.inl (.single ((extends_updated_of_ne hx).mp hedge))
  | @tail y z hchain hedge ih =>
    by_cases hy : y = c.name
    · subst hy
      exact Or.inr ⟨hchain.to_reflTransGen, .single hedge⟩
    · rcases ih with hold | ⟨hup, hdown⟩
      · exact Or.inl (hold.tail ((extends_updated_of_ne hy).mp hedge))
      · exact Or.inr ⟨hup, hdown.tail hedge⟩

theorem acyclic_updated (h : g.Acyclic) :
    (g.updated c).Acyclic ↔ ∀ parent ∈ c.extendsFrom, ¬ (g.updated c).Reaches parent c.name := by
  constructor
  · intro hacyclic parent hparent hback
    exact hacyclic c.name (.head' (extends_updated_self.mpr hparent) hback)
  · intro hparents name hcycle
    rcases transGen_of_updated hcycle with hold | ⟨hup, hdown⟩
    · exact h name hold
    · -- The cycle can be entered at the new configuration and left through one of its parents.
      have hthrough : TransGen (g.updated c).Extends c.name c.name := hdown.trans_left hup
      obtain ⟨parent, hedge, hback⟩ := TransGen.head'_iff.mp hthrough
      exact hparents parent (extends_updated_self.mp hedge) hback

theorem configuration?_without (g : DependencyGraph) (removed name : String) :
    (g.without removed).configuration? name = if name = removed then none
      else g.configuration? name := by
  rw [without, configuration?, List.find?_filter]
  split_ifs with h
  · simp [h]
  · rw [configuration?]
    congr 1
    funext c
    grind

theorem insertInPlace_of_valid (h : (g.updated c).validate = .ok ()) :
    g.insertInPlace c = (.ok (), g.updated c) := by
  rw [insertInPlace, h]

/-- Whether the configuration was new or replaced another, a refusal leaves no trace of it. -/
theorem insertInPlace_of_refused (h : (g.updated c).validate = .error e) :
    g.insertInPlace c = (.error e, g) := by
  rw [insertInPlace, h]
  cases hprevious : g.configuration? c.name with
  | some previous =>
    obtain ⟨-, hname⟩ := mem_of_configuration? hprevious
    have hrestored : (g.updated c).updated previous = g := by
      apply ext_configuration?
      intro x
      rw [configuration?_updated, configuration?_updated, hname]
      split_ifs with hx
      · rw [hx, hprevious]
      · rfl
    simp only [hrestored]
  | none =>
    have hrestored : (g.updated c).without c.name = g := by
      apply ext_configuration?
      intro x
      rw [configuration?_without, configuration?_updated]
      split_ifs with hx
      · rw [hx, hprevious]
      · rfl
    simp only [hrestored]

/-- Inserting in place does the same as making a new graph. -/
theorem insert_eq_insertInPlace (g : DependencyGraph) (c : Configuration) :
    g.insert c = (g.insertInPlace c).1.map fun _ => (g.insertInPlace c).2 := by
  rw [insert_eq, insertInPlace]
  cases (g.updated c).validate with
  | ok _ => rfl
  | error e =>
    cases g.configuration? c.name with
    | none => rfl
    | some _ => rfl

/-- An insertion into a well-formed graph gives the updated graph, which is well-formed again, or is
refused and gives the graph as it was. It is refused only if a parent is missing, or is or inherits
from the configuration that extends it. -/
theorem insertInPlace_atomic (h : g.WellFormed) (c : Configuration) :
    (∀ name, (g.updated c).configuration? name = if name = c.name then some c
      else g.configuration? name) ∧
    (g.insertInPlace c = (.ok (), g.updated c) ∧ (g.updated c).WellFormed ∨
      ∃ e, g.insertInPlace c = (.error e, g)) ∧
    ((g.insertInPlace c).1 = .ok () ↔ ∀ parent ∈ c.extendsFrom,
      (g.updated c).contains parent = true ∧ ¬ (g.updated c).Reaches parent c.name) := by
  have hvalid : (g.updated c).validate = .ok () ↔ ∀ parent ∈ c.extendsFrom,
      (g.updated c).contains parent = true ∧ ¬ (g.updated c).Reaches parent c.name := by
    rw [validate_iff, closed_updated h.edge_closed, acyclic_updated h.acyclic, ← forall₂_and]
  refine ⟨configuration?_updated g c, ?_⟩
  rw [← hvalid]
  cases hvalidate : (g.updated c).validate with
  | ok _ =>
    have hdone := insertInPlace_of_valid hvalidate
    have hinsert : g.insert c = .ok (g.updated c) := by
      rw [insert_eq_insertInPlace, hdone]
      rfl
    exact ⟨Or.inl ⟨hdone, wellFormed_insert hinsert⟩, by simp [hdone]⟩
  | error e =>
    have hrefused := insertInPlace_of_refused hvalidate
    exact ⟨Or.inr ⟨e, hrefused⟩, by simp [hrefused]⟩

/-- The new edge of `api` is one to a configuration that inherits from `api`. -/
theorem insertInPlace_atomic_api :
    let api : Configuration := .extending "api" ["testImplementation"]
    (java []).WellFormed ∧ ((java []).updated api).Reaches "testImplementation" "api" ∧
      ∃ e, (java []).insertInPlace api = (.error e, java []) := by
  intro api
  have hback : ((java []).updated api).Reaches "testImplementation" "api" :=
    inherits_iff.mp (by decide +kernel)
  refine ⟨wellFormed_java [], hback, ?_⟩
  obtain ⟨-, hdone, haccepted⟩ := insertInPlace_atomic (wellFormed_java []) api
  rcases hdone with ⟨hok, -⟩ | hrefused
  · have hparents := haccepted.mp (congrArg Prod.fst hok)
    exact absurd hback (hparents "testImplementation" (by decide)).2
  · exact hrefused

end Insertion

end DependencyGraph

end BuildScript
